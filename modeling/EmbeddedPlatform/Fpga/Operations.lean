import Mathlib.Algebra.Group.Nat.Defs
import EmbeddedPlatform.Fpga.FirmwareUpdater

/-! # What the updater's functions do

For each function, what it can return: the writes it makes, the part of the
state it leaves alone, and how it may fail. -/
namespace EmbeddedPlatform.Fpga

open Lib FPGAFirmwareUpdater

variable {φ : Type} {F : SpiFlash φ} {c : UpdaterConfig} {fuel : Nat}
  {s t : FPGAFirmwareUpdater φ} {es : List Action}

/-! ## What a log writes -/

/-- The bytes of `data` with the addresses they have from `addr` on. -/
def place : UInt32 → List UInt8 → List (UInt32 × UInt8)
  | _, [] => []
  | addr, b :: data => (addr, b) :: place (addr + 1) data

/-- Every byte written, in order, with its address. -/
def written (log : List Action) : List (UInt32 × UInt8) :=
  log.flatMap fun
    | .WriteData addr data => place addr data
    | _ => []

@[simp] theorem written_append (l m : List Action) : written (l ++ m) = written l ++ written m :=
  List.flatMap_append

@[simp] theorem written_nil : written [] = [] := rfl

@[simp] theorem written_cons_setState (st : State) (l : List Action) :
    written (.setState st :: l) = written l := rfl

@[simp] theorem written_cons_opened (l : List Action) : written (.opened :: l) = written l := rfl

@[simp] theorem written_cons_pushFailed (l : List Action) :
    written (.pushFailed :: l) = written l := rfl

@[simp] theorem written_cons_WriteData (addr : UInt32) (data : List UInt8) (l : List Action) :
    written (.WriteData addr data :: l) = place addr data ++ written l := rfl

theorem ofNat_succ_add (addr : UInt32) (n : Nat) : addr + .ofNat (n + 1) = addr + 1 + .ofNat n := by
  rw [UInt32.ofNat_add, UInt32.add_assoc, UInt32.add_comm (.ofNat n)]
  rfl

theorem place_append (addr : UInt32) (xs ys : List UInt8) :
    place addr (xs ++ ys) = place addr xs ++ place (addr + .ofNat xs.length) ys := by
  induction xs generalizing addr with
  | nil => simp [place]
  | cons x xs ih =>
    rw [List.cons_append, place, ih, List.length_cons, ofNat_succ_add]
    rfl

theorem mem_place {addr a : UInt32} {data : List UInt8} {b : UInt8} (h : (a, b) ∈ place addr data) :
    ∃ i, i < data.length ∧ a = addr + .ofNat i := by
  induction data generalizing addr with
  | nil => cases h
  | cons x data ih =>
    rcases List.mem_cons.mp h with heq | hrest
    · cases heq
      exact ⟨0, by simp, by simp⟩
    · obtain ⟨i, hi, rfl⟩ := ih hrest
      exact ⟨i + 1, by simpa using hi, (ofNat_succ_add addr i).symm⟩

/-! ## Writing -/

theorem writeVerify_cases {n : Nat} {ok : Bool} (h : writeVerify F n s = (ok, t, es)) :
    ∃ f, (ok = true ∧ t = { s with g_fpgaFlash := f, m_writeBuffer := s.m_writeBuffer.pop n } ∧
        es = [.WriteData s.m_wptr (s.m_writeBuffer.items.take n)]) ∨
      (ok = false ∧ t = { s with g_fpgaFlash := f, m_state := .FAILED } ∧
        es = [.WriteData s.m_wptr (s.m_writeBuffer.items.take n), .setState .FAILED]) := by
  unfold writeVerify at h
  dsimp only at h
  split at h
  · cases h; exact ⟨_, .inr ⟨rfl, rfl, rfl⟩⟩
  · split at h
    · cases h; exact ⟨_, .inr ⟨rfl, rfl, rfl⟩⟩
    · cases h; exact ⟨_, .inl ⟨rfl, rfl, rfl⟩⟩

/-- The updater after one round of the writing loop. -/
def afterBlock (wblock : UInt32) (ok : Bool) (s : FPGAFirmwareUpdater φ) : FPGAFirmwareUpdater φ :=
  if ok then { s with m_wptr := s.m_wptr + wblock } else s

/-- **Writing rule.** What each write of a full block keeps, and the refusal of
an oversized block, is kept by `PushWriteData`. -/
theorem pushWriteData_rule {J : FPGAFirmwareUpdater φ → List Action → Prop}
    (hbig : ∀ s l, J s l → s.m_state ≠ .FAILED → 512 < F.GetMaxWriteBlockSize.toNat →
      J (s.setState .FAILED).1 (l ++ [.setState .FAILED]))
    (hblock : ∀ s l ok t es, J s l → s.m_state ≠ .FAILED → F.GetMaxWriteBlockSize.toNat ≤ 512 →
      F.GetMaxWriteBlockSize.toNat ≤ s.m_writeBuffer.items.length →
      writeVerify F F.GetMaxWriteBlockSize.toNat s = (ok, t, es) →
      J (afterBlock F.GetMaxWriteBlockSize ok t) (l ++ es))
    {l : List Action} (h : J s l) : J (PushWriteData F s).1 (l ++ (PushWriteData F s).2) := by
  unfold PushWriteData
  split
  · simpa using h
  · rename_i hs
    split
    · rename_i hw
      exact hbig s l h hs hw
    · rename_i hw
      generalize s.m_writeBuffer.items.length = n
      induction n generalizing s l with
      | zero => simpa [writeBlocks] using h
      | succ n ih =>
        unfold writeBlocks
        split
        · simpa using h
        · rename_i hlen
          rcases hv : writeVerify F F.GetMaxWriteBlockSize.toNat s with ⟨ok, t, es⟩
          have hJ := hblock s l ok t es h hs (Nat.le_of_not_lt hw) (Nat.le_of_not_lt hlen) hv
          obtain ⟨f, ⟨rfl, rfl, rfl⟩ | ⟨rfl, rfl, rfl⟩⟩ := writeVerify_cases hv
          · simpa [afterBlock] using ih hJ hs
          · simpa [afterBlock] using hJ

/-- The loop ends when a write has failed or less than a block is left. -/
theorem writeBlocks_drained (F : SpiFlash φ) {n : Nat} (h : s.m_writeBuffer.items.length ≤ n) :
    (writeBlocks F F.GetMaxWriteBlockSize n s).1.m_state = .FAILED ∨
      (writeBlocks F F.GetMaxWriteBlockSize n s).1.m_writeBuffer.items.length <
        F.GetMaxWriteBlockSize.toNat := by
  induction n generalizing s with
  | zero => exact .inr (Nat.lt_of_le_of_lt h F.writeBlock_pos)
  | succ n ih =>
    unfold writeBlocks
    split
    · rename_i hlen; exact .inr hlen
    · rcases hv : writeVerify F F.GetMaxWriteBlockSize.toNat s with ⟨ok, t, es⟩
      obtain ⟨f, ⟨rfl, rfl, rfl⟩ | ⟨rfl, rfl, rfl⟩⟩ := writeVerify_cases hv
      · have hpos := F.writeBlock_pos
        refine ih ?_
        rw [BoundedQueue.items_pop, List.length_drop]
        omega
      · exact .inl rfl

/-- Behind `PushWriteData` less than a block waits, unless it failed. -/
theorem pushWriteData_drained (F : SpiFlash φ) (s : FPGAFirmwareUpdater φ) :
    (PushWriteData F s).1.m_state = .FAILED ∨
      (PushWriteData F s).1.m_writeBuffer.items.length < F.GetMaxWriteBlockSize.toNat := by
  unfold PushWriteData
  split
  · rename_i hs; exact .inl hs
  · split
    · exact .inl rfl
    · exact writeBlocks_drained F (Nat.le_refl _)

/-- `PushWriteData` reads nothing in, and leaves the state alone or fails. -/
theorem pushWriteData_frame (F : SpiFlash φ) (s : FPGAFirmwareUpdater φ) :
    (PushWriteData F s).1.m_rxBuffer = s.m_rxBuffer ∧
      (PushWriteData F s).1.m_bigWordLen = s.m_bigWordLen ∧
      ((PushWriteData F s).1.m_state = s.m_state ∨ (PushWriteData F s).1.m_state = .FAILED) := by
  refine pushWriteData_rule (J := fun t _ => t.m_rxBuffer = s.m_rxBuffer ∧
    t.m_bigWordLen = s.m_bigWordLen ∧ (t.m_state = s.m_state ∨ t.m_state = .FAILED)) (l := [])
    ?_ ?_ ⟨rfl, rfl, .inl rfl⟩
  · rintro t l ⟨hrx, hlen, -⟩ - -
    exact ⟨hrx, hlen, .inr rfl⟩
  · rintro t l ok u es ⟨hrx, hlen, hst⟩ - - - hv
    obtain ⟨f, ⟨rfl, rfl, rfl⟩ | ⟨rfl, rfl, rfl⟩⟩ := writeVerify_cases hv
    · exact ⟨hrx, hlen, hst⟩
    · exact ⟨hrx, hlen, .inr rfl⟩

theorem pushWriteData_failed (h : s.m_state = .FAILED) : PushWriteData F s = (s, []) := by
  simp [PushWriteData, h]

theorem pushWriteData_big (hw : 512 < F.GetMaxWriteBlockSize.toNat) (s : FPGAFirmwareUpdater φ) :
    (PushWriteData F s).1.m_state = .FAILED := by
  unfold PushWriteData
  split
  · assumption
  · rfl

theorem writeBlocks_short {wblock : UInt32} (h : s.m_writeBuffer.items.length < wblock.toNat)
    (n : Nat) : writeBlocks F wblock n s = (s, []) := by
  cases n with
  | zero => rfl
  | succ n => rw [writeBlocks, if_pos h]

/-- With less than a block waiting there is nothing to do. -/
theorem pushWriteData_short (hw : F.GetMaxWriteBlockSize.toNat ≤ 512)
    (h : s.m_writeBuffer.items.length < F.GetMaxWriteBlockSize.toNat) :
    PushWriteData F s = (s, []) := by
  unfold PushWriteData
  split
  · rfl
  · rw [if_neg (Nat.not_lt.mpr hw), writeBlocks_short h]

/-! ## Erasing -/

/-- Whether erasing a chip and its blank check succeed, the chip behind them and
the erase calls made; it depends on the chip only. -/
def eraseOutcome (F : SpiFlash φ) (c : UpdaterConfig) (fuel : Nat) (f : φ) :
    Except Hang (Bool × φ × List Action) :=
  let (ok, f, es) := eraseSectors F (sectorsToErase F c) f
  if !ok then .ok (false, f, es)
  else
    match blankCheck F c fuel 0 f with
    | .error e => .error e
    | .ok (blank, f) => .ok (blank, f, es)

theorem eraseFlashPartition_ok (h : EraseFlashPartition F c fuel s = .ok (t, es)) :
    ∃ erased f fs, eraseOutcome F c fuel s.g_fpgaFlash = .ok (erased, f, fs) ∧
      (erased = true ∧ t = { s with g_fpgaFlash := f } ∧ es = fs ∨
        erased = false ∧ t = { s with g_fpgaFlash := f, m_state := .FAILED } ∧
          es = fs ++ [.setState .FAILED]) := by
  unfold EraseFlashPartition at h
  unfold eraseOutcome
  dsimp only at h ⊢
  split at h
  · rename_i hok
    cases h
    exact ⟨false, _, _, if_pos hok, .inr ⟨rfl, rfl, rfl⟩⟩
  · rename_i hok
    rw [if_neg hok]
    rcases hb : blankCheck F c fuel 0 (eraseSectors F (sectorsToErase F c) s.g_fpgaFlash).2.1
      with e | ⟨blank, f⟩
    · rw [hb] at h
      cases h
    · rw [hb] at h
      dsimp only at h
      split at h
      · rename_i hblank
        cases h
        simp only [Bool.not_eq_eq_eq_not, Bool.not_true] at hblank
        exact ⟨false, _, _, by rw [hblank], .inr ⟨rfl, rfl, rfl⟩⟩
      · rename_i hblank
        cases h
        simp only [Bool.not_eq_eq_eq_not, Bool.not_true, Bool.not_eq_false] at hblank
        exact ⟨true, _, _, by rw [hblank], .inl ⟨rfl, rfl, rfl⟩⟩

/-- Erasing logs erase calls only. -/
theorem eraseSectors_log (F : SpiFlash φ) (ptrs : List UInt32) (f : φ) :
    ∀ e ∈ (eraseSectors F ptrs f).2.2, ∃ ptr, e = .EraseSector ptr := by
  induction ptrs generalizing f with
  | nil => intro e he; cases he
  | cons ptr ptrs ih =>
    unfold eraseSectors
    dsimp only
    split
    · intro e he
      exact ⟨ptr, List.mem_singleton.mp he⟩
    · intro e he
      rcases List.mem_cons.mp he with rfl | he
      · exact ⟨ptr, rfl⟩
      · exact ih _ e he

theorem eraseOutcome_log {f g : φ} {ok : Bool}
    (h : eraseOutcome F c fuel f = .ok (ok, g, es)) : ∀ e ∈ es, ∃ ptr, e = .EraseSector ptr := by
  unfold eraseOutcome at h
  dsimp only at h
  split at h
  · cases h; exact eraseSectors_log F _ f
  · split at h
    · cases h
    · cases h; exact eraseSectors_log F _ f

theorem written_erases (h : ∀ e ∈ es, ∃ ptr, e = .EraseSector ptr) : written es = [] := by
  refine List.flatMap_eq_nil_iff.mpr fun e he => ?_
  obtain ⟨ptr, rfl⟩ := h e he
  rfl

/-! ## Writes that succeed -/

/-- The flash takes the first `n` bytes waiting and reads them back. -/
def WriteSucceeds (F : SpiFlash φ) (n : Nat) (s : FPGAFirmwareUpdater φ) : Prop :=
  let wbuf := s.m_writeBuffer.items.take n
  (F.WriteData s.m_wptr wbuf s.g_fpgaFlash).1 = true ∧
    (F.ReadData s.m_wptr n (F.WriteData s.m_wptr wbuf s.g_fpgaFlash).2).1.toList = wbuf

theorem writeVerify_succeeds {n : Nat} (h : WriteSucceeds F n s) : (writeVerify F n s).1 = true := by
  obtain ⟨hwrite, hread⟩ := h
  simp [writeVerify, hwrite, hread]

/-- Where the loop of `PushWriteData` gets to. -/
inductive WritesTo (F : SpiFlash φ) (s : FPGAFirmwareUpdater φ) : FPGAFirmwareUpdater φ → Prop where
  | start : s.m_state ≠ .FAILED → F.GetMaxWriteBlockSize.toNat ≤ 512 → WritesTo F s s
  | block {t u : FPGAFirmwareUpdater φ} {es : List Action} : WritesTo F s t →
    F.GetMaxWriteBlockSize.toNat ≤ t.m_writeBuffer.items.length →
    writeVerify F F.GetMaxWriteBlockSize.toNat t = (true, u, es) →
    WritesTo F s (afterBlock F.GetMaxWriteBlockSize true u)

/-- No write that `PushWriteData` makes here fails. -/
def WritesSucceed (F : SpiFlash φ) (s : FPGAFirmwareUpdater φ) : Prop :=
  ∀ t, WritesTo F s t → F.GetMaxWriteBlockSize.toNat ≤ t.m_writeBuffer.items.length →
    WriteSucceeds F F.GetMaxWriteBlockSize.toNat t

/-- Then the state is as before. -/
theorem pushWriteData_succeeds (hw : F.GetMaxWriteBlockSize.toNat ≤ 512) (h : WritesSucceed F s) :
    (PushWriteData F s).1.m_state = s.m_state := by
  by_cases hs : s.m_state = .FAILED
  · rw [pushWriteData_failed hs]
  · refine (pushWriteData_rule (J := fun t _ => WritesTo F s t ∧ t.m_state = s.m_state) (l := [])
      ?_ ?_ ⟨.start hs hw, rfl⟩).2
    · intro t l _ _ hbig
      exact absurd hbig (Nat.not_lt.mpr hw)
    · rintro t l ok u es ⟨hto, hst⟩ - - hn hv
      have hok := writeVerify_succeeds (h t hto hn)
      rw [hv] at hok
      obtain rfl : ok = true := hok
      refine ⟨.block hto hn hv, ?_⟩
      obtain ⟨f, ⟨-, rfl, -⟩ | ⟨hfalse, -⟩⟩ := writeVerify_cases hv
      · exact hst
      · cases hfalse

/-- No write that closing the device makes fails. -/
def CloseSucceeds (F : SpiFlash φ) (s : FPGAFirmwareUpdater φ) : Prop :=
  s.m_state ≠ .FAILED → WritesSucceed F s ∧
    WriteSucceeds F (PushWriteData F s).1.m_writeBuffer.items.length (PushWriteData F s).1

/-- A chip as its contents, on which every call succeeds. -/
def contentsFlash (eraseBlockSize maxWriteBlockSize : UInt32) (he : 0 < eraseBlockSize.toNat)
    (hw : 0 < maxWriteBlockSize.toNat) : SpiFlash (UInt32 → UInt8) where
  GetEraseBlockSize := eraseBlockSize
  GetMaxWriteBlockSize := maxWriteBlockSize
  EraseSector ptr f := (true, fun a => if a - ptr < eraseBlockSize then 0xff else f a)
  WriteData addr data f := (true, fun a => data.getD (a - addr).toNat (f a))
  ReadData addr n f := (⟨((List.range n).map fun i => f (addr + .ofNat i)).toArray, by simp⟩, f)
  eraseBlock_pos := he
  writeBlock_pos := hw

/-- On such a chip every write succeeds. -/
theorem contentsFlash_writeSucceeds {e w : UInt32} (he : 0 < e.toNat) (hw : 0 < w.toNat) {n : Nat}
    {s : FPGAFirmwareUpdater (UInt32 → UInt8)} (hn : n ≤ s.m_writeBuffer.items.length) :
    WriteSucceeds (contentsFlash e w he hw) n s := by
  have hlen : (s.m_writeBuffer.items.take n).length = n := List.length_take_of_le hn
  have hle : s.m_writeBuffer.items.length ≤ 4096 := s.m_writeBuffer.items_le
  refine ⟨rfl, ?_⟩
  generalize s.m_writeBuffer.items.take n = data at hlen
  subst hlen
  apply List.ext_getElem
  · simp
  · intro i h₁ h₂
    have hi : i % 4294967296 = i := Nat.mod_eq_of_lt (by omega)
    simp [contentsFlash, UInt32.add_comm s.m_wptr, hi, List.getD_eq_getElem?_getD, h₂]

/-- A chip of 16 byte sectors and write blocks. -/
def sampleFlash : SpiFlash (UInt32 → UInt8) := contentsFlash 16 16 (by decide) (by decide)

/-- A partition of four sectors at the start of the chip. -/
def sampleConfig : UpdaterConfig := ⟨[0x78], 0, 64⟩

def blankChip : UInt32 → UInt8 := fun _ => 0xff

/-- A bit file of two bytes of padding, the sync word and the packet that ends it. -/
def shortFile : List UInt8 :=
  magic ++ [charE, 0, 0, 0, 0] ++ [0xff, 0xff] ++ g_syncword ++
    [0x30, 0x00, 0x80, 0x01, 0x00, 0x00, 0x00, 0x0d]

end EmbeddedPlatform.Fpga
