import EmbeddedPlatform.Fpga.Termination

/-! # What is read back fits its buffer

`FlushWriteData` reads back all that waits in the write buffer. Every operation leaves
less than a block there, or nothing if a block is larger than the buffer, or an updater
that has failed. -/
namespace EmbeddedPlatform.Fpga

open Lib FPGAFirmwareUpdater

variable {φ : Type} {F : SpiFlash φ} {c : UpdaterConfig} {fuel n : Nat}
  {s t : FPGAFirmwareUpdater φ} {es : List Action}

/-! ## A flash that records what is read -/

/-- The lengths of the reads are kept beside the chip. -/
def SpiFlash.recordReads (F : SpiFlash φ) : SpiFlash (φ × List Nat) where
  GetEraseBlockSize := F.GetEraseBlockSize
  GetMaxWriteBlockSize := F.GetMaxWriteBlockSize
  EraseSector ptr f := ((F.EraseSector ptr f.1).1, (F.EraseSector ptr f.1).2, f.2)
  WriteData addr data f := ((F.WriteData addr data f.1).1, (F.WriteData addr data f.1).2, f.2)
  ReadData addr n f := ((F.ReadData addr n f.1).1, (F.ReadData addr n f.1).2, f.2 ++ [n])
  eraseBlock_pos := F.eraseBlock_pos
  writeBlock_pos := F.writeBlock_pos

namespace FPGAFirmwareUpdater

/-- The updater with another chip. -/
def withChip {ψ : Type} (s : FPGAFirmwareUpdater φ) (g_fpgaFlash : ψ) : FPGAFirmwareUpdater ψ where
  m_state := s.m_state
  m_rxBuffer := s.m_rxBuffer
  m_writeBuffer := s.m_writeBuffer
  m_bigWordLen := s.m_bigWordLen
  m_wptr := s.m_wptr
  g_fpgaFlash := g_fpgaFlash

/-- The updater with nothing recorded yet. -/
def recording (s : FPGAFirmwareUpdater φ) : FPGAFirmwareUpdater (φ × List Nat) :=
  s.withChip (s.g_fpgaFlash, [])

/-- The updater without the record. -/
def forget (s : FPGAFirmwareUpdater (φ × List Nat)) : FPGAFirmwareUpdater φ :=
  s.withChip s.g_fpgaFlash.1

end FPGAFirmwareUpdater

theorem writeVerify_forget (F : SpiFlash φ) (n : Nat) (s : FPGAFirmwareUpdater (φ × List Nat)) :
    writeVerify F n s.forget = ((writeVerify F.recordReads n s).1,
      (writeVerify F.recordReads n s).2.1.forget, (writeVerify F.recordReads n s).2.2) := by
  unfold writeVerify
  dsimp only [forget, withChip, SpiFlash.recordReads]
  cases (F.WriteData s.m_wptr (s.m_writeBuffer.items.take n) s.g_fpgaFlash.1).1 with
  | false => rfl
  | true =>
    simp only [Bool.not_true, Bool.false_eq_true, if_false]
    split
    · rfl
    · rfl

theorem writeBlocks_forget (F : SpiFlash φ) (wblock : UInt32) (n : Nat)
    (s : FPGAFirmwareUpdater (φ × List Nat)) : writeBlocks F wblock n s.forget =
      ((writeBlocks F.recordReads wblock n s).1.forget, (writeBlocks F.recordReads wblock n s).2) := by
  induction n generalizing s with
  | zero => rfl
  | succ n ih =>
    by_cases hlen : s.m_writeBuffer.items.length < wblock.toNat
    · rw [writeBlocks_short hlen, writeBlocks_short (show s.forget.m_writeBuffer.items.length < _ from hlen)]
    · unfold writeBlocks
      rw [if_neg hlen, if_neg (show ¬ s.forget.m_writeBuffer.items.length < _ from hlen),
        writeVerify_forget]
      rcases writeVerify F.recordReads wblock.toNat s with ⟨ok, t, es⟩
      cases ok with
      | false => rfl
      | true =>
        dsimp only
        have hrest := ih { t with m_wptr := t.m_wptr + wblock }
        rw [show ({ t.forget with m_wptr := t.forget.m_wptr + wblock } : FPGAFirmwareUpdater φ) =
          forget { t with m_wptr := t.m_wptr + wblock } from rfl, hrest]
        rfl

theorem pushWriteData_forget (F : SpiFlash φ) (s : FPGAFirmwareUpdater (φ × List Nat)) :
    PushWriteData F s.forget =
      ((PushWriteData F.recordReads s).1.forget, (PushWriteData F.recordReads s).2) := by
  unfold PushWriteData
  split
  · rename_i hs
    rw [if_pos (show s.m_state = .FAILED from hs)]
  · rename_i hs
    rw [if_neg (show s.m_state ≠ .FAILED from hs)]
    split
    · rename_i hw
      rw [if_pos (show 512 < F.recordReads.GetMaxWriteBlockSize.toNat from hw)]
      rfl
    · rename_i hw
      rw [if_neg (show ¬ 512 < F.recordReads.GetMaxWriteBlockSize.toNat from hw)]
      exact writeBlocks_forget F _ _ s

/-- **Recording changes nothing else.** -/
theorem flushWriteData_forget (F : SpiFlash φ) (s : FPGAFirmwareUpdater (φ × List Nat)) :
    FlushWriteData F s.forget =
      ((FlushWriteData F.recordReads s).1.forget, (FlushWriteData F.recordReads s).2) := by
  unfold FlushWriteData
  split
  · rename_i hs
    rw [if_pos (show s.m_state = .FAILED from hs)]
  · rename_i hs
    rw [if_neg (show s.m_state ≠ .FAILED from hs), pushWriteData_forget]
    dsimp only
    rw [writeVerify_forget]
    rfl

/-- All reads so far fit `rdbuf`. -/
def ReadsFit (s : FPGAFirmwareUpdater (φ × List Nat)) : Prop := ∀ n ∈ s.g_fpgaFlash.2, n ≤ 512

/-- A write is read back once, and not at all if it failed. -/
theorem writeVerify_readsFit {n : Nat} {s : FPGAFirmwareUpdater (φ × List Nat)} (hn : n ≤ 512)
    (h : ReadsFit s) : ReadsFit (writeVerify F.recordReads n s).2.1 := by
  have hread : ReadsFit { s with g_fpgaFlash := (s.g_fpgaFlash.1, s.g_fpgaFlash.2 ++ [n]) } := by
    intro m hm
    rcases List.mem_append.mp hm with hm | hm
    · exact h m hm
    · rw [List.mem_singleton.mp hm]
      exact hn
  unfold writeVerify
  dsimp only [SpiFlash.recordReads]
  split
  · exact h
  · split
    · exact hread
    · exact hread

/-- `PushWriteData` reads no more than that, whatever state it is called in. -/
theorem pushWriteData_readsFit {s : FPGAFirmwareUpdater (φ × List Nat)} (h : ReadsFit s) :
    ReadsFit (PushWriteData F.recordReads s).1 := by
  refine pushWriteData_rule (F := F.recordReads) (J := fun t _ => ReadsFit t) (l := [])
    (fun t _ ht _ _ => ht) ?_ h
  intro t l ok u es ht _ hblock _ hv
  have hu : ReadsFit u := by
    have hfit := writeVerify_readsFit (F := F) hblock ht
    rwa [hv] at hfit
  cases ok with
  | false => exact hu
  | true => exact hu

/-! ## What waits in the write buffer -/

/-- Less than a block waits, or nothing at all if a block does not fit `rdbuf`; or the
updater has failed. -/
def FlushReady (F : SpiFlash φ) (s : FPGAFirmwareUpdater φ) : Prop :=
  s.m_state = .FAILED ∨ s.m_writeBuffer.items.length < F.GetMaxWriteBlockSize.toNat ∧
    (F.GetMaxWriteBlockSize.toNat ≤ 512 ∨ s.m_writeBuffer.items = [])

theorem flushReady_of_empty (h : s.m_writeBuffer.items = []) : FlushReady F s := by
  refine .inr ⟨?_, .inr h⟩
  rw [h]
  exact F.writeBlock_pos

/-- Every write loop leaves it so. -/
theorem pushWriteData_flushReady (F : SpiFlash φ) (s : FPGAFirmwareUpdater φ) :
    FlushReady F (PushWriteData F s).1 := by
  by_cases hw : F.GetMaxWriteBlockSize.toNat ≤ 512
  · rcases pushWriteData_drained F s with hfailed | hlen
    · exact .inl hfailed
    · exact .inr ⟨hlen, .inl hw⟩
  · exact .inl (pushWriteData_big (Nat.lt_of_not_le hw) s)

theorem onRxData_flushReady {data : List UInt8} (hs : FlushReady F s)
    (h : OnRxData F c fuel data s = .ok (t, es)) : FlushReady F t := by
  unfold OnRxData at h
  split at h
  · -- the data did not fit, and nothing was done
    cases h
    exact hs
  · exact rounds_rule (C := fun _ => True) (J := fun _ _ => True) (Q := fun t _ => FlushReady F t)
      (l := []) (fun _ _ _ _ _ _ _ => trivial)
      (fun s log t es _ _ hb => by
        obtain ⟨u, fs, -, rfl, -⟩ := pollOnce_ok hb
        exact pushWriteData_flushReady F u)
      trivial (fun _ _ => trivial) h

/-- A flush leaves nothing, or fails. -/
theorem flushWriteData_flushReady (F : SpiFlash φ) (s : FPGAFirmwareUpdater φ) :
    FlushReady F (FlushWriteData F s).1 := by
  unfold FlushWriteData
  split
  · rename_i hs
    exact .inl hs
  · dsimp only
    rcases hv : writeVerify F (PushWriteData F s).1.m_writeBuffer.items.length (PushWriteData F s).1
      with ⟨ok, t, es⟩
    obtain ⟨f, ⟨-, rfl, -⟩ | ⟨-, rfl, -⟩⟩ := writeVerify_cases hv
    · refine flushReady_of_empty ?_
      rw [BoundedQueue.items_pop, List.drop_length]
    · exact .inl rfl

theorem step_flushReady {op : Op} (hs : FlushReady F s) (h : step F c fuel s op = .ok (t, es)) :
    FlushReady F t := by
  cases op with
  | OnDeviceOpened =>
    cases h
    exact flushReady_of_empty rfl
  | OnRxData data => exact onRxData_flushReady hs h
  | OnDeviceClosed =>
    obtain ⟨rfl, -⟩ := ok_eq h
    exact flushWriteData_flushReady F s

/-! ## What a flush reads -/

/-- What is left for the last write fits `rdbuf`. -/
theorem FlushReady.rest_le (hs : FlushReady F s) (hst : s.m_state ≠ .FAILED) :
    (PushWriteData F s).1.m_writeBuffer.items.length ≤ 512 := by
  obtain ⟨hlen, hw⟩ := hs.resolve_left hst
  by_cases hblock : F.GetMaxWriteBlockSize.toNat ≤ 512
  · rw [pushWriteData_short hblock hlen]
    exact Nat.le_of_lt (Nat.lt_of_lt_of_le hlen hblock)
  · have hempty := hw.resolve_left hblock
    unfold PushWriteData
    rw [if_neg hst, if_pos (Nat.lt_of_not_le hblock)]
    show s.m_writeBuffer.items.length ≤ 512
    rw [hempty]
    exact Nat.zero_le _

theorem flushWriteData_readsFit {s : FPGAFirmwareUpdater (φ × List Nat)}
    (hs : FlushReady F.recordReads s) (h : ReadsFit s) :
    ReadsFit (FlushWriteData F.recordReads s).1 := by
  unfold FlushWriteData
  split
  · exact h
  · rename_i hst
    exact writeVerify_readsFit (hs.rest_le hst) (pushWriteData_readsFit h)

/-- The lengths that `PushWriteData` and `FlushWriteData` read back. -/
def pushReads (F : SpiFlash φ) (s : FPGAFirmwareUpdater φ) : List Nat :=
  (PushWriteData F.recordReads s.recording).1.g_fpgaFlash.2

def flushReads (F : SpiFlash φ) (s : FPGAFirmwareUpdater φ) : List Nat :=
  (FlushWriteData F.recordReads s.recording).1.g_fpgaFlash.2

/-- **Readback fits its buffer**: when the device is closed in a run, less than a block
waits unless the updater has failed, and all that is read back fits `rdbuf`; so does what
`PushWriteData` reads back anywhere. -/
theorem readback_fits (F : SpiFlash φ) (c : UpdaterConfig) (fuel : Nat)
    (s₀ s : FPGAFirmwareUpdater φ) (ops : List Op) (log : List Action)
    (h : run (step F c fuel) s₀ (.OnDeviceOpened :: ops) = .ok (s, log)) :
    (s.m_state ≠ .FAILED → s.m_writeBuffer.items.length < F.GetMaxWriteBlockSize.toNat) ∧
      (∀ wblock ∈ flushReads F s, wblock ≤ 512) ∧
      ∀ t : FPGAFirmwareUpdater φ, ∀ wblock ∈ pushReads F t, wblock ≤ 512 := by
  obtain ⟨t, es, fs, ht, hrest, -⟩ := run_cons_ok h
  have hopened : FlushReady F t := by
    cases ht
    exact flushReady_of_empty rfl
  have hready : FlushReady F s := run_invariant (C := fun _ _ => True) (J := FlushReady F)
    (fun _ _ _ _ hs _ hstep => step_flushReady hs hstep) hopened (allSteps_true _ _) hrest
  have hnone (u : FPGAFirmwareUpdater φ) : ReadsFit u.recording := fun n hn => by cases hn
  exact ⟨fun hst => (hready.resolve_left hst).1, flushWriteData_readsFit hready (hnone s),
    fun u => pushWriteData_readsFit (hnone u)⟩

/-- A file of which the last bytes are less than a block. -/
theorem readback_fits_short :
    ∃ s log, run (step sampleFlash sampleConfig 2) (.init 0 blankChip)
        [.OnDeviceOpened, .OnRxData shortFile] = .ok (s, log) ∧
      (s.m_state ≠ .FAILED → s.m_writeBuffer.items.length < sampleFlash.GetMaxWriteBlockSize.toNat) ∧
      (∀ wblock ∈ flushReads sampleFlash s, wblock ≤ 512) ∧
      ∀ t, ∀ wblock ∈ pushReads sampleFlash t, wblock ≤ 512 := by
  obtain ⟨s, log, hrun⟩ := run_total (J := fun _ => True)
    (fun s op _ => by
      obtain ⟨t, es, ht⟩ := step_total sampleFlash sampleConfig_ends s op
      exact ⟨t, es, ht, trivial⟩)
    (s := FPGAFirmwareUpdater.init 0 blankChip) trivial [Op.OnDeviceOpened, Op.OnRxData shortFile]
  exact ⟨s, log, hrun, readback_fits sampleFlash sampleConfig 2 _ s _ log hrun⟩

end EmbeddedPlatform.Fpga
