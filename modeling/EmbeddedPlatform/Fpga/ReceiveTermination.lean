import EmbeddedPlatform.Fpga.Termination

/-! # When a call returns

All loops of `OnRxData` end but one: the counter of the blank check is 32 bits wide and
wraps before it gets to an image size above 2^32 - 256, so on a chip that reads as
blank it goes on for ever. -/
namespace EmbeddedPlatform.Fpga

open Lib FPGAFirmwareUpdater

variable {φ : Type} {F : SpiFlash φ} {c : UpdaterConfig} {fuel m n : Nat}
  {s t : FPGAFirmwareUpdater φ}

/-! ## The blank check -/

/-- The first `n` blocks from `addr` on are read as blank. -/
def ReadsBlank (F : SpiFlash φ) : Nat → UInt32 → φ → Prop
  | 0, _, _ => True
  | n + 1, addr, f =>
    (F.ReadData addr 256 f).1.toList = List.replicate 256 0xff ∧
      ReadsBlank F n (addr + 256) (F.ReadData addr 256 f).2

/-- The size is one the counter does not get to, and the chip never reads as used. -/
def BlankForever (F : SpiFlash φ) (c : UpdaterConfig) (f : φ) : Prop :=
  0xffffff00 < c.m_imageSize.toNat ∧ ∀ n, ReadsBlank F n 0 f

theorem blankCheck_mono {addr : UInt32} {f : φ} {r : Bool × φ}
    (h : blankCheck F c m addr f = .ok r) (hmn : m ≤ n) : blankCheck F c n addr f = .ok r := by
  induction m generalizing n addr f with
  | zero => cases h
  | succ m ih =>
    obtain ⟨n, rfl⟩ : ∃ k, n = k + 1 := ⟨n - 1, by omega⟩
    unfold blankCheck at h ⊢
    dsimp only at h ⊢
    split
    · rename_i hlt
      rw [if_pos hlt] at h
      split
      · rename_i hused
        rwa [if_pos hused] at h
      · rename_i hblank
        rw [if_neg hblank] at h
        exact ih h (Nat.le_of_succ_le_succ hmn)
    · rename_i hend
      rwa [if_neg hend] at h

theorem blankCheck_endless (hsize : 0xffffff00 < c.m_imageSize.toNat) {addr : UInt32} {f : φ}
    (haddr : addr.toNat % 256 = 0) (h : ∀ n, ReadsBlank F n addr f) (fuel : Nat) :
    blankCheck F c fuel addr f = .error .blankCheck := by
  induction fuel generalizing addr f with
  | zero => rfl
  | succ fuel ih =>
    have hlt : addr < c.m_imageSize := by
      have := addr.toNat_lt
      rw [UInt32.lt_iff_toNat_lt]
      omega
    unfold blankCheck
    dsimp only
    rw [if_pos hlt, if_neg fun hused => bne_iff_ne.mp hused (h 1).1]
    refine ih ?_ fun n => (h (n + 1)).2
    rw [UInt32.toNat_add]
    show (addr.toNat + 256) % 4294967296 % 256 = 0
    omega

theorem blankCheck_of_used {addr : UInt32} {f : φ} (h : ¬ ReadsBlank F n addr f) :
    ∃ r, blankCheck F c n addr f = .ok r := by
  induction n generalizing addr f with
  | zero => exact absurd trivial h
  | succ n ih =>
    unfold blankCheck
    dsimp only
    split
    · split
      · exact ⟨_, rfl⟩
      · rename_i hblank
        exact ih fun hrest => h ⟨not_not.mp fun hused => hblank (bne_iff_ne.mpr hused), hrest⟩
    · exact ⟨_, rfl⟩

theorem blankCheck_returns_iff {f : φ} :
    (∃ fuel r, blankCheck F c fuel 0 f = .ok r) ↔ ¬ BlankForever F c f := by
  constructor
  · rintro ⟨fuel, r, h⟩ ⟨hsize, hblank⟩
    rw [blankCheck_endless hsize (by decide) hblank fuel] at h
    cases h
  · intro h
    by_cases hsize : 0xffffff00 < c.m_imageSize.toNat
    · obtain ⟨n, hn⟩ : ∃ n, ¬ ReadsBlank F n 0 f := by
        by_contra hall
        exact h ⟨hsize, fun n => not_not.mp fun hn => hall ⟨n, hn⟩⟩
      exact ⟨n, blankCheck_of_used hn⟩
    · exact ⟨c.m_imageSize.toNat + 1, @blankCheck_total _ F c _ (Nat.le_of_not_lt hsize)
        c.m_imageSize.toNat 0 f (by omega) (Nat.lt_succ_self _)⟩

/-! ## A poll -/

theorem eraseFlashPartition_mono {r : FPGAFirmwareUpdater φ × List Action}
    (h : EraseFlashPartition F c m s = .ok r) (hmn : m ≤ n) :
    EraseFlashPartition F c n s = .ok r := by
  unfold EraseFlashPartition at h ⊢
  dsimp only at h ⊢
  split
  · rename_i hok
    rwa [if_pos hok] at h
  · rename_i hok
    rw [if_neg hok] at h
    split at h
    · cases h
    · rename_i hcheck
      rw [blankCheck_mono hcheck hmn]
      exact h

theorem eraseFlashPartition_returns_iff :
    (∃ fuel r, EraseFlashPartition F c fuel s = .ok r) ↔
      ¬ ((eraseSectors F (sectorsToErase F c) s.g_fpgaFlash).1 = true ∧
        BlankForever F c (eraseSectors F (sectorsToErase F c) s.g_fpgaFlash).2.1) := by
  unfold EraseFlashPartition
  dsimp only
  cases (eraseSectors F (sectorsToErase F c) s.g_fpgaFlash).1 with
  | false => simp
  | true =>
    simp only [Bool.not_true, Bool.false_eq_true, if_false, true_and]
    rw [← blankCheck_returns_iff]
    constructor
    · rintro ⟨fuel, r, h⟩
      split at h
      · cases h
      · rename_i hcheck
        exact ⟨fuel, _, hcheck⟩
    · rintro ⟨fuel, r, hcheck⟩
      refine ⟨fuel, ?_⟩
      rw [hcheck]
      dsimp only
      split
      · exact ⟨_, rfl⟩
      · exact ⟨_, rfl⟩

/-- The buffer starts with the record of the image. -/
def ReadsImage (s : FPGAFirmwareUpdater φ) : Prop :=
  s.m_state = .READ_BITHDR_RECORDS ∧ 3 ≤ s.m_rxBuffer.items.length ∧
    recordType s.m_rxBuffer.items = charE

/-- A poll that erases the chip, and checks for ever whether it is blank. -/
def EndlessErase (F : SpiFlash φ) (c : UpdaterConfig) (s : FPGAFirmwareUpdater φ) : Prop :=
  ReadsImage s ∧ (eraseSectors F (sectorsToErase F c) s.g_fpgaFlash).1 = true ∧
    BlankForever F c (eraseSectors F (sectorsToErase F c) s.g_fpgaFlash).2.1

/-- A poll in which nothing is erased does not depend on the fuel. -/
theorem process_without_image (F : SpiFlash φ) (c : UpdaterConfig) (h : ¬ ReadsImage s) :
    ∃ more t es, ∀ n, ProcessDataFromBuffer F c n s = .ok (more, t, es) := by
  unfold ProcessDataFromBuffer
  cases hst : s.m_state with
  | READ_BITHDR_RECORDS =>
    unfold readBitHeaderRecords
    dsimp only
    split
    · rename_i hlen
      have htype : recordType s.m_rxBuffer.items ≠ charE := fun htype => h ⟨hst, hlen, htype⟩
      simp only [if_neg htype]
      split
      · split
        · exact ⟨_, _, _, fun _ => rfl⟩
        · exact ⟨_, _, _, fun _ => rfl⟩
      · exact ⟨_, _, _, fun _ => rfl⟩
    · exact ⟨_, _, _, fun _ => rfl⟩
  | READ_BITHDR => exact ⟨_, _, _, fun _ => rfl⟩
  | SYNC_WAIT => exact ⟨_, _, _, fun _ => rfl⟩
  | BITSTREAM => exact ⟨_, _, _, fun _ => rfl⟩
  | BIG_WRITE => exact ⟨_, _, _, fun _ => rfl⟩
  | DONE => exact ⟨_, _, _, fun _ => rfl⟩
  | FAILED => exact ⟨_, _, _, fun _ => rfl⟩

/-- The other ones return if the erase does. -/
theorem process_with_image (h : ReadsImage s) {r : Bool × FPGAFirmwareUpdater φ × List Action} :
    ProcessDataFromBuffer F c n s = .ok r ↔
      ∃ t es, EraseFlashPartition F c n ((s.popRx 5).setState .SYNC_WAIT).1 = .ok (t, es) ∧
        r = (true, t, .setState .SYNC_WAIT :: es) := by
  obtain ⟨hst, hlen, htype⟩ := h
  unfold ProcessDataFromBuffer
  rw [hst]
  unfold readBitHeaderRecords
  dsimp only
  rw [if_pos hlen, if_pos htype]
  constructor
  · intro h
    split at h
    · cases h
    · rename_i t es he
      cases h
      exact ⟨t, es, he, rfl⟩
  · rintro ⟨t, es, he, rfl⟩
    rw [he]
    rfl

theorem process_mono {r : Bool × FPGAFirmwareUpdater φ × List Action}
    (h : ProcessDataFromBuffer F c m s = .ok r) (hmn : m ≤ n) :
    ProcessDataFromBuffer F c n s = .ok r := by
  by_cases himage : ReadsImage s
  · obtain ⟨t, es, he, rfl⟩ := (process_with_image himage).mp h
    exact (process_with_image himage).mpr ⟨t, es, eraseFlashPartition_mono he hmn, rfl⟩
  · obtain ⟨more, t, es, hall⟩ := process_without_image F c himage
    rw [hall n, ← hall m, h]

theorem process_returns_iff :
    (∃ fuel r, ProcessDataFromBuffer F c fuel s = .ok r) ↔ ¬ EndlessErase F c s := by
  by_cases himage : ReadsImage s
  · have herase := @eraseFlashPartition_returns_iff _ F c ((s.popRx 5).setState .SYNC_WAIT).1
    have hchip : ((s.popRx 5).setState .SYNC_WAIT).1.g_fpgaFlash = s.g_fpgaFlash := rfl
    rw [hchip] at herase
    unfold EndlessErase
    rw [and_iff_right himage, ← herase]
    constructor
    · rintro ⟨fuel, r, h⟩
      obtain ⟨t, es, he, -⟩ := (process_with_image himage).mp h
      exact ⟨fuel, _, he⟩
    · rintro ⟨fuel, ⟨t, es⟩, he⟩
      exact ⟨fuel, _, (process_with_image himage).mpr ⟨t, es, he, rfl⟩⟩
  · obtain ⟨more, t, es, hall⟩ := process_without_image F c himage
    exact iff_of_true ⟨0, _, hall 0⟩ fun hendless => himage hendless.1

theorem pollOnce_mono {r : Bool × FPGAFirmwareUpdater φ × List Action}
    (h : pollOnce F c m s = .ok r) (hmn : m ≤ n) : pollOnce F c n s = .ok r := by
  obtain ⟨more, t, es⟩ := r
  obtain ⟨u, fs, hu, rfl, rfl⟩ := pollOnce_ok h
  exact pollOnce_of_process (process_mono hu hmn)

theorem pollOnce_returns_iff :
    (∃ fuel r, pollOnce F c fuel s = .ok r) ↔ ¬ EndlessErase F c s := by
  rw [← process_returns_iff]
  constructor
  · rintro ⟨fuel, ⟨more, t, es⟩, h⟩
    obtain ⟨u, fs, hu, -, -⟩ := pollOnce_ok h
    exact ⟨fuel, _, hu⟩
  · rintro ⟨fuel, ⟨more, t, es⟩, h⟩
    exact ⟨fuel, _, pollOnce_of_process h⟩

/-- A call returns unless one of its polls is endless. -/
theorem onRxData_returns_iff (F : SpiFlash φ) (c : UpdaterConfig) (s : FPGAFirmwareUpdater φ)
    (data : List UInt8) : (∃ fuel t es, OnRxData F c fuel data s = .ok (t, es)) ↔
      ∀ fuel u, Polls F c fuel s data u → ¬ EndlessErase F c u := by
  unfold OnRxData Polls
  cases hpush : s.m_rxBuffer.push data with
  | none =>
    refine iff_of_true ⟨0, s, [.pushFailed], rfl⟩ ?_
    rintro fuel u ⟨q, hq, -⟩
    cases hq
  | some q =>
    have hloop := @rounds_returns_iff _ _ _ .polling (pollOnce F c) pollMeasure
      (fun m n s r h hmn => pollOnce_mono h hmn) (fun m s t es h => pollOnce_shrinks h)
      _ _ (pollMeasure_lt_pollFuel { s with m_rxBuffer := q })
    dsimp only at hloop ⊢
    rw [hloop]
    constructor
    · rintro h fuel u ⟨q', hq, hvisit⟩
      cases hq
      exact pollOnce_returns_iff.mp (h fuel u hvisit)
    · intro h fuel u hvisit
      exact pollOnce_returns_iff.mpr (h fuel u ⟨q, rfl, hvisit⟩)

/-! ## The inner loops -/

theorem syncWait_short (h : ¬ 4 < s.m_rxBuffer.items.length) (n : Nat) :
    syncWait n s = (false, s, []) := by
  cases n with
  | zero => rfl
  | succ n =>
    unfold syncWait
    dsimp only
    rw [if_neg h]

/-- More rounds than there are bytes make no difference to the search for the sync word. -/
theorem syncWait_rounds (hm : s.m_rxBuffer.items.length ≤ m) (hn : s.m_rxBuffer.items.length ≤ n) :
    syncWait m s = syncWait n s := by
  induction m generalizing n s with
  | zero => rw [syncWait_short (by omega), syncWait_short (by omega)]
  | succ m ih =>
    by_cases hlen : 4 < s.m_rxBuffer.items.length
    · obtain ⟨n, rfl⟩ : ∃ k, n = k + 1 := ⟨n - 1, by omega⟩
      unfold syncWait
      dsimp only
      rw [if_pos hlen, if_pos hlen]
      split
      · rfl
      · have hshorter : ((s.pushWrite (s.m_rxBuffer.items.take 1)).2.1.popRx 1).m_rxBuffer.items.length =
            s.m_rxBuffer.items.length - 1 := by
          simp only [popRx, BoundedQueue.items_pop, List.length_drop, pushWrite_m_rxBuffer]
        rw [@ih n ((s.pushWrite (s.m_rxBuffer.items.take 1)).2.1.popRx 1) (by omega) (by omega)]
    · rw [syncWait_short hlen, syncWait_short hlen]

/-- It ends with the sync word, or when there is nothing left to search. -/
theorem syncWait_exit (h : s.m_rxBuffer.items.length ≤ n) :
    (syncWait n s).1 = true ∨ (syncWait n s).2.1.m_rxBuffer.items.length ≤ 4 := by
  induction n generalizing s with
  | zero => exact .inr (by unfold syncWait; dsimp only; omega)
  | succ n ih =>
    unfold syncWait
    dsimp only
    split
    · split
      · exact .inl rfl
      · refine ih ?_
        simp only [popRx, BoundedQueue.items_pop, List.length_drop, pushWrite_m_rxBuffer]
        omega
    · rename_i hlen
      exact .inr (Nat.le_of_not_lt hlen)

/-- More rounds than there are bytes make no difference to the loop of `PushWriteData`. -/
theorem writeBlocks_rounds (hm : s.m_writeBuffer.items.length ≤ m)
    (hn : s.m_writeBuffer.items.length ≤ n) :
    writeBlocks F F.GetMaxWriteBlockSize m s = writeBlocks F F.GetMaxWriteBlockSize n s := by
  have hpos := F.writeBlock_pos
  induction m generalizing n s with
  | zero => rw [writeBlocks_short (by omega), writeBlocks_short (by omega)]
  | succ m ih =>
    by_cases hlen : s.m_writeBuffer.items.length < F.GetMaxWriteBlockSize.toNat
    · rw [writeBlocks_short hlen, writeBlocks_short hlen]
    · obtain ⟨n, rfl⟩ : ∃ k, n = k + 1 := ⟨n - 1, by omega⟩
      unfold writeBlocks
      dsimp only
      rw [if_neg hlen, if_neg hlen]
      rcases hv : writeVerify F F.GetMaxWriteBlockSize.toNat s with ⟨ok, t, es⟩
      obtain ⟨f, ⟨rfl, rfl, rfl⟩ | ⟨rfl, rfl, rfl⟩⟩ := writeVerify_cases hv
      · have hrest := @ih n { s with
          g_fpgaFlash := f
          m_writeBuffer := s.m_writeBuffer.pop F.GetMaxWriteBlockSize.toNat
          m_wptr := s.m_wptr + F.GetMaxWriteBlockSize }
        simp only [BoundedQueue.items_pop, List.length_drop] at hrest
        dsimp only
        rw [hrest (by omega) (by omega)]
      · rfl

/-! ## The call -/

/-- The call returns, and all that it repeats ends: a poll that asks for another shrinks
a measure of the receive buffer and the state, writing in between does not raise it, and
neither inner loop depends on a bound on its rounds. -/
structure LoopsEnd (F : SpiFlash φ) (c : UpdaterConfig) (s : FPGAFirmwareUpdater φ)
    (data : List UInt8) : Prop where
  returns : ∃ fuel t es, OnRxData F c fuel data s = .ok (t, es)
  poll_shrinks : ∀ fuel u v es, ProcessDataFromBuffer F c fuel u = .ok (true, v, es) →
    pollMeasure v < pollMeasure u
  write_measure : ∀ u, pollMeasure (PushWriteData F u).1 ≤ pollMeasure u
  syncWait_ends : ∀ (u : FPGAFirmwareUpdater φ) n, u.m_rxBuffer.items.length ≤ n →
    syncWait n u = syncWait u.m_rxBuffer.items.length u ∧
      ((syncWait n u).1 = true ∨ (syncWait n u).2.1.m_rxBuffer.items.length ≤ 4)
  writeBlocks_ends : ∀ u n, u.m_writeBuffer.items.length ≤ n →
    writeBlocks F F.GetMaxWriteBlockSize n u =
        writeBlocks F F.GetMaxWriteBlockSize u.m_writeBuffer.items.length u ∧
      ((writeBlocks F F.GetMaxWriteBlockSize n u).1.m_state = .FAILED ∨
        (writeBlocks F F.GetMaxWriteBlockSize n u).1.m_writeBuffer.items.length <
          F.GetMaxWriteBlockSize.toNat)

/-- **All loops end**, except for a blank check that goes on for ever. -/
theorem receive_ends_iff (F : SpiFlash φ) (c : UpdaterConfig) (s : FPGAFirmwareUpdater φ)
    (data : List UInt8) :
    LoopsEnd F c s data ↔ ∀ fuel u, Polls F c fuel s data u → ¬ EndlessErase F c u := by
  rw [← onRxData_returns_iff]
  constructor
  · exact LoopsEnd.returns
  · intro h
    exact {
      returns := h
      poll_shrinks := fun fuel u v es hu => process_shrinks hu
      write_measure := pushWriteData_measure F
      syncWait_ends := fun u n hn => ⟨syncWait_rounds hn (Nat.le_refl _), syncWait_exit hn⟩
      writeBlocks_ends := fun u n hn =>
        ⟨writeBlocks_rounds hn (Nat.le_refl _), writeBlocks_drained F hn⟩ }

/-- A chip that erases and then reads as blank. -/
def vastFlash : SpiFlash Unit where
  GetEraseBlockSize := 256
  GetMaxWriteBlockSize := 256
  EraseSector _ f := (true, f)
  WriteData _ _ f := (true, f)
  ReadData _ n f := (.replicate n 0xff, f)
  eraseBlock_pos := Nat.succ_pos 255
  writeBlock_pos := Nat.succ_pos 255

/-- A partition of one byte less than 4 GiB. -/
def vastConfig : UpdaterConfig := ⟨[0x78], 0, 0xffffffff⟩

theorem vastFlash_erases (ptrs : List UInt32) : (eraseSectors vastFlash ptrs ()).1 = true := by
  induction ptrs with
  | nil => rfl
  | cons ptr ptrs ih => exact ih

theorem vastFlash_blank (n : Nat) (addr : UInt32) (f : Unit) : ReadsBlank vastFlash n addr f := by
  induction n generalizing addr with
  | zero => trivial
  | succ n ih => exact ⟨Vector.toList_replicate, ih _⟩

/-- A whole header in one call, after which the chip is checked for ever. -/
theorem receive_never_returns : ¬ ∃ fuel t es, OnRxData vastFlash vastConfig fuel
    (magic ++ [charE, 0, 0, 0, 0]) (OnDeviceOpened vastConfig (.init 0 ())).1 = .ok (t, es) := by
  rw [onRxData_returns_iff]
  intro h
  refine h 0 _ ⟨_, rfl, .round rfl (.start _)⟩ ⟨⟨rfl, ?_, ?_⟩, vastFlash_erases _, ?_, ?_⟩
  · decide
  · decide
  · decide
  · exact fun n => vastFlash_blank n 0 _

end EmbeddedPlatform.Fpga
