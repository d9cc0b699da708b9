import EmbeddedPlatform.Fpga.Polling

/-! # The updater's loops end

The polling loop uses up the receive buffer, and the blank check ends unless the
image reaches to within 256 bytes of 2^32. -/
namespace EmbeddedPlatform.Fpga

open Lib FPGAFirmwareUpdater

variable {φ : Type} {F : SpiFlash φ} {c : UpdaterConfig} {fuel : Nat}
  {s t : FPGAFirmwareUpdater φ} {es : List Action} {more : Bool}

/-! ## The polling loop -/

def stateRank : State → Nat
  | .BIG_WRITE => 2
  | .READ_BITHDR | .BITSTREAM => 1
  | _ => 0

/-- A poll that asks for another uses up bytes or leaves a state of higher rank. -/
def pollMeasure (s : FPGAFirmwareUpdater φ) : Nat :=
  2 * s.m_rxBuffer.items.length + stateRank s.m_state

theorem readBitHeader_shrinks (hs : s.m_state = .READ_BITHDR)
    (h : readBitHeader s = (true, t, es)) : pollMeasure t < pollMeasure s := by
  unfold readBitHeader at h
  split at h
  · rename_i hlen
    split at h
    · cases h
      simp [pollMeasure, hs, stateRank]
    · cases h
      simp only [pollMeasure, hs, stateRank, popRx, BoundedQueue.items_pop, List.length_drop]
      omega
  · cases h

theorem readBitHeaderRecords_shrinks (hs : s.m_state = .READ_BITHDR_RECORDS)
    (h : readBitHeaderRecords F c fuel s = .ok (true, t, es)) : pollMeasure t < pollMeasure s := by
  unfold readBitHeaderRecords at h
  dsimp only at h
  split at h
  · rename_i hlen
    split at h
    · split at h
      · cases h
      · rename_i u fs he
        cases h
        obtain ⟨ok, f, gs, -, ⟨-, rfl, -⟩ | ⟨-, rfl, -⟩⟩ := eraseFlashPartition_ok he
        · simp only [pollMeasure, hs, stateRank, setState, popRx,
            BoundedQueue.items_pop, List.length_drop]
          omega
        · simp only [pollMeasure, hs, stateRank, setState, popRx,
            BoundedQueue.items_pop, List.length_drop]
          omega
    · split at h
      · split at h
        · cases h
          simp only [pollMeasure, hs, stateRank, setState, popRx,
            BoundedQueue.items_pop, List.length_drop]
          omega
        · cases h
          simp only [pollMeasure, hs, stateRank, popRx,
            BoundedQueue.items_pop, List.length_drop]
          omega
      · cases h
  · cases h

theorem syncWait_shrinks {n : Nat} (hs : s.m_state = .SYNC_WAIT)
    (h : syncWait n s = (true, t, es)) : pollMeasure t < pollMeasure s := by
  induction n generalizing s es with
  | zero => cases h
  | succ n ih =>
    unfold syncWait at h
    dsimp only at h
    split at h
    · rename_i hlen
      split at h
      · cases h
        simp only [pollMeasure, hs, stateRank, setState, popRx,
          BoundedQueue.items_pop, List.length_drop, pushWrite_m_rxBuffer]
        omega
      · rcases hr : syncWait n ((s.pushWrite (s.m_rxBuffer.items.take 1)).2.1.popRx 1)
          with ⟨more', u, fs⟩
        rw [hr] at h
        cases h
        have hrest := ih (by simpa [popRx] using hs) hr
        simp only [pollMeasure, popRx, pushWrite_m_state, hs, BoundedQueue.items_pop,
          List.length_drop, pushWrite_m_rxBuffer] at hrest ⊢
        omega
    · cases h

theorem bitstream_shrinks (hs : s.m_state = .BITSTREAM)
    (h : bitstream s = (true, t, es)) : pollMeasure t < pollMeasure s := by
  unfold bitstream at h
  dsimp only at h
  split at h
  · rename_i hlen
    split at h
    · split at h
      · cases h
      · rename_i hsize
        have hpos := packetSize_toNat (bswap32 s.m_rxBuffer.items)
        cases hd : isDesync s.m_rxBuffer.items with
        | true =>
          simp only [hd, if_true] at h
          cases h
          simp only [pollMeasure, hs, stateRank, setState, popRx, pushWrite_m_state,
            BoundedQueue.items_pop, List.length_drop, pushWrite_m_rxBuffer]
          omega
        | false =>
          simp only [hd, Bool.false_eq_true, if_false] at h
          cases h
          simp only [pollMeasure, hs, stateRank, popRx, pushWrite_m_state,
            BoundedQueue.items_pop, List.length_drop, pushWrite_m_rxBuffer]
          omega
    · split at h
      · cases h
        simp only [pollMeasure, hs, stateRank, setState, popRx, pushWrite_m_state,
          BoundedQueue.items_pop, List.length_drop, pushWrite_m_rxBuffer]
        omega
      · cases h
        simp [pollMeasure, hs, stateRank]
  · cases h

theorem bigWrite_shrinks (hs : s.m_state = .BIG_WRITE)
    (h : bigWrite s = (true, t, es)) : pollMeasure t < pollMeasure s := by
  by_cases hlen : 4 ≤ s.m_rxBuffer.items.length
  · obtain ⟨ok, u, fs, -, -, -, hrx, -, ⟨-, -, hst, -⟩ | ⟨-, hmore, -⟩⟩ := bigWrite_cases hlen h
    · simp only [pollMeasure, hs, stateRank, hst, hrx, List.length_drop]
      omega
    · cases hmore
  · unfold bigWrite at h
    dsimp only at h
    rw [if_neg hlen] at h
    cases h

theorem process_shrinks (h : ProcessDataFromBuffer F c fuel s = .ok (true, t, es)) :
    pollMeasure t < pollMeasure s := by
  unfold ProcessDataFromBuffer at h
  split at h
  · rename_i hs; exact readBitHeader_shrinks hs (by simpa using h)
  · rename_i hs; exact readBitHeaderRecords_shrinks hs h
  · rename_i hs; exact syncWait_shrinks hs (by simpa using h)
  · rename_i hs; exact bitstream_shrinks hs (by simpa using h)
  · rename_i hs; exact bigWrite_shrinks hs (by simpa using h)
  · cases h
  · cases h

theorem pushWriteData_measure (F : SpiFlash φ) (s : FPGAFirmwareUpdater φ) :
    pollMeasure (PushWriteData F s).1 ≤ pollMeasure s := by
  obtain ⟨hrx, -, hst⟩ := pushWriteData_frame F s
  unfold pollMeasure
  rw [hrx]
  rcases hst with hst | hst
  · exact Nat.le_of_eq (by rw [hst])
  · rw [hst]; exact Nat.le_add_right _ _

/-! ## The blank check -/

/-- The blank check of an image that stays 256 bytes clear of 2^32 ends. -/
theorem blankCheck_total (hsize : c.m_imageSize.toNat ≤ 0xffffff00) {n : Nat} {addr : UInt32}
    {f : φ} (hn : c.m_imageSize.toNat ≤ addr.toNat + 256 * n) (hfuel : n < fuel) :
    ∃ r, blankCheck F c fuel addr f = .ok r := by
  induction fuel generalizing n addr f with
  | zero => omega
  | succ fuel ih =>
    unfold blankCheck
    dsimp only
    split
    · rename_i hlt
      rw [UInt32.lt_iff_toNat_lt] at hlt
      have hnext : (addr + 256).toNat = addr.toNat + 256 := by
        simp only [UInt32.toNat_add, UInt32.reduceToNat]
        exact Nat.mod_eq_of_lt (by omega)
      split
      · exact ⟨_, rfl⟩
      · exact @ih (n - 1) (addr + 256) _ (by omega) (by omega)
    · exact ⟨_, rfl⟩

/-! ## Operations -/

/-- The image size and the fuel are such that the blank check ends. -/
def BlankCheckEnds (c : UpdaterConfig) (fuel : Nat) : Prop :=
  c.m_imageSize.toNat ≤ 0xffffff00 ∧ c.m_imageSize.toNat ≤ 256 * (fuel - 1) ∧ 0 < fuel

theorem eraseFlashPartition_total (h : BlankCheckEnds c fuel) (s : FPGAFirmwareUpdater φ) :
    ∃ r, EraseFlashPartition F c fuel s = .ok r := by
  obtain ⟨hsize, hn, hpos⟩ := h
  unfold EraseFlashPartition
  dsimp only
  split
  · exact ⟨_, rfl⟩
  · obtain ⟨⟨blank, f⟩, hb⟩ := @blankCheck_total _ F c fuel hsize (fuel - 1) 0
      (eraseSectors F (sectorsToErase F c) s.g_fpgaFlash).2.1 (by simpa using hn) (by omega)
    rw [hb]
    dsimp only
    split
    · exact ⟨_, rfl⟩
    · exact ⟨_, rfl⟩

theorem process_total (h : BlankCheckEnds c fuel) (s : FPGAFirmwareUpdater φ) :
    ∃ more t es, ProcessDataFromBuffer F c fuel s = .ok (more, t, es) := by
  unfold ProcessDataFromBuffer
  cases s.m_state with
  | READ_BITHDR_RECORDS =>
    unfold readBitHeaderRecords
    dsimp only
    split
    · split
      · obtain ⟨r, hr⟩ := @eraseFlashPartition_total _ F _ _ h ((s.popRx 5).setState .SYNC_WAIT).1
        rw [hr]
        exact ⟨_, _, _, rfl⟩
      · split
        · split
          · exact ⟨_, _, _, rfl⟩
          · exact ⟨_, _, _, rfl⟩
        · exact ⟨_, _, _, rfl⟩
    · exact ⟨_, _, _, rfl⟩
  | READ_BITHDR => exact ⟨_, _, _, rfl⟩
  | SYNC_WAIT => exact ⟨_, _, _, rfl⟩
  | BITSTREAM => exact ⟨_, _, _, rfl⟩
  | BIG_WRITE => exact ⟨_, _, _, rfl⟩
  | DONE => exact ⟨_, _, _, rfl⟩
  | FAILED => exact ⟨_, _, _, rfl⟩

theorem pollOnce_shrinks (h : pollOnce F c fuel s = .ok (true, t, es)) :
    pollMeasure t < pollMeasure s := by
  obtain ⟨u, fs, hu, rfl, -⟩ := pollOnce_ok h
  exact Nat.lt_of_le_of_lt (pushWriteData_measure F u) (process_shrinks hu)

theorem pollOnce_of_process (h : ProcessDataFromBuffer F c fuel s = .ok (more, t, es)) :
    pollOnce F c fuel s = .ok (more, (PushWriteData F t).1, es ++ (PushWriteData F t).2) := by
  rw [pollOnce, h]

theorem pollOnce_total (h : BlankCheckEnds c fuel) (s : FPGAFirmwareUpdater φ) :
    ∃ more t es, pollOnce F c fuel s = .ok (more, t, es) ∧
      (more = true → pollMeasure t < pollMeasure s) := by
  obtain ⟨more, t, es, ht⟩ := @process_total _ F _ _ h s
  refine ⟨more, _, _, pollOnce_of_process ht, ?_⟩
  rintro rfl
  exact pollOnce_shrinks (pollOnce_of_process ht)

theorem pollMeasure_lt_pollFuel (s : FPGAFirmwareUpdater φ) :
    pollMeasure s < pollFuel s.m_rxBuffer.items.length := by
  unfold pollMeasure pollFuel stateRank
  split <;> omega

theorem onRxData_total (F : SpiFlash φ) (h : BlankCheckEnds c fuel) (s : FPGAFirmwareUpdater φ)
    (data : List UInt8) : ∃ t es, OnRxData F c fuel data s = .ok (t, es) := by
  unfold OnRxData
  split
  · exact ⟨_, _, rfl⟩
  · rename_i q hq
    have hfuel := pollMeasure_lt_pollFuel { s with m_rxBuffer := q }
    obtain ⟨t, es, ht, -⟩ := @rounds_total _ _ _ (pollOnce F c fuel) .polling (fun _ => True)
      pollMeasure
      (fun s _ => by
        obtain ⟨more, t, es, ht, hlt⟩ := @pollOnce_total _ F _ _ h s
        exact ⟨more, t, es, ht, trivial, hlt⟩)
      _ _ trivial hfuel
    exact ⟨t, es, ht⟩

/-- **Every call returns**, as long as the blank check does. -/
theorem step_total (F : SpiFlash φ) (h : BlankCheckEnds c fuel) (s : FPGAFirmwareUpdater φ)
    (op : Op) : ∃ t es, step F c fuel s op = .ok (t, es) := by
  cases op with
  | OnDeviceOpened => exact ⟨_, _, rfl⟩
  | OnRxData data => exact onRxData_total F h s data
  | OnDeviceClosed => exact ⟨_, _, rfl⟩

theorem sampleConfig_ends : BlankCheckEnds sampleConfig 2 := ⟨by decide, by decide, by decide⟩

end EmbeddedPlatform.Fpga
