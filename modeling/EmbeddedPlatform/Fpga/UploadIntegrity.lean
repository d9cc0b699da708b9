import EmbeddedPlatform.Fpga.Loss
import EmbeddedPlatform.Fpga.PacketFraming
import EmbeddedPlatform.Fpga.ErasePartition

/-! # What is in the flash behind an upload

Nothing is taken for granted here about what a write leaves in the chip, or what
an erasure does: only that neither reaches beyond the bytes it is about. Every
block is read back behind its write, and no later write comes near it. So a
session that does not end in failure leaves the image in the flash, and the rest
of the chip as it was. -/
namespace EmbeddedPlatform.Fpga

open Lib FPGAFirmwareUpdater

variable {φ : Type} {F : SpiFlash φ} {c : UpdaterConfig} {fuel : Nat}
  {s t : FPGAFirmwareUpdater φ} {es log : List Action} {more : Bool} {content : φ → UInt32 → UInt8}
  {f : φ}

/-- `content` is what the chip reads as, and a write of a block or an erasure, at the
addresses of the updater's blocks and sectors, leaves alone what it is not about. What
it does to the rest, and what it answers, is open. -/
structure SpiFlash.Confines (F : SpiFlash φ) (c : UpdaterConfig)
    (content : φ → UInt32 → UInt8) : Prop where
  read : ∀ addr n f, (F.ReadData addr n f).1.toList =
    (List.range n).map fun i => content f (addr + .ofNat i)
  read_keeps : ∀ addr n f, content (F.ReadData addr n f).2 = content f
  write : ∀ k addr data f a, addr = c.m_imageOffset + .ofNat (F.GetMaxWriteBlockSize.toNat * k) →
    data.length ≤ F.GetMaxWriteBlockSize.toNat → data.length ≤ (a - addr).toNat →
    content (F.WriteData addr data f).2 a = content f a
  erase : ∀ ptr ∈ sectorsToErase F c, ∀ f a, ¬ a - ptr < F.GetEraseBlockSize →
    content (F.EraseSector ptr f).2 a = content f a

/-- An address in one of the sectors that are erased. -/
def Erasable (F : SpiFlash φ) (c : UpdaterConfig) (a : UInt32) : Prop :=
  ∃ ptr ∈ sectorsToErase F c, a - ptr < F.GetEraseBlockSize

/-- The flash holds what has been written, from the start of the partition on; it is
otherwise as it was in `f`, apart from the sectors that are erased. -/
structure Holds (F : SpiFlash φ) (c : UpdaterConfig) (content : φ → UInt32 → UInt8) (f : φ)
    (s : FPGAFirmwareUpdater φ) (log : List Action) : Prop where
  bytes : (flashed log).length ≤ 4294967296 → ∀ i (hi : i < (flashed log).length),
    content s.g_fpgaFlash (c.m_imageOffset + .ofNat i) = (flashed log)[i]
  outside : ∀ a, (flashed log).length ≤ (a - c.m_imageOffset).toNat → ¬ Erasable F c a →
    content s.g_fpgaFlash a = content f a
  header : inHeader s → flashed log = []

/-! ## Addresses -/

/-- How far the byte after the next `n` ones is from where they start. -/
theorem toNat_sub_ofNat {x : UInt32} {l : Nat} (h : l ≤ x.toNat) :
    (x - .ofNat l).toNat = x.toNat - l := by
  have hx := x.toNat_lt
  have hl : (UInt32.ofNat l).toNat = l := UInt32.toNat_ofNat_of_lt' (Nat.lt_of_le_of_lt h hx)
  rw [UInt32.toNat_sub_of_le _ _ (UInt32.le_iff_toNat_le.mpr (by rw [hl]; exact h)), hl]

/-- The bytes before `l` are not among the `n` from there on. -/
theorem le_toNat_ofNat_sub {i l n : Nat} (hi : i < l) (hn : l + n ≤ 4294967296) (offset : UInt32) :
    n ≤ (offset + .ofNat i - (offset + .ofNat l)).toNat := by
  have ho := offset.toNat_lt
  rw [UInt32.toNat_sub, UInt32.toNat_add, UInt32.toNat_add, UInt32.toNat_ofNat', UInt32.toNat_ofNat']
  omega

/-! ## Writing -/

/-- What is written goes on from where the last write stopped. -/
theorem written_place {data : List UInt8} (h : written log = place c.m_imageOffset data) :
    flashed log = data := by
  unfold flashed
  rw [h, map_snd_place]

/-- A verified write: the chip behind it, and what was read back. -/
theorem writeVerify_verified {n : Nat} (hv : writeVerify F n s = (true, t, es)) :
    let wbuf := s.m_writeBuffer.items.take n
    let back := F.ReadData s.m_wptr n (F.WriteData s.m_wptr wbuf s.g_fpgaFlash).2
    t.g_fpgaFlash = back.2 ∧ back.1.toList = wbuf ∧ t.m_state = s.m_state ∧
      es = [.WriteData s.m_wptr wbuf] := by
  unfold Fpga.writeVerify at hv
  dsimp only at hv
  split at hv
  · cases hv
  · split at hv
    · cases hv
    · rename_i hne
      cases hv
      refine ⟨rfl, ?_, rfl, rfl⟩
      simpa using hne

/-- After a verified write the chip holds what was written. -/
theorem verified_content (hF : F.Confines c content) {n : Nat}
    (hn : n ≤ s.m_writeBuffer.items.length) (hv : writeVerify F n s = (true, t, es))
    {i : Nat} (hi : i < (s.m_writeBuffer.items.take n).length) :
    content t.g_fpgaFlash (s.m_wptr + .ofNat i) = (s.m_writeBuffer.items.take n)[i] := by
  obtain ⟨hchip, hback, -, -⟩ := writeVerify_verified hv
  have hlen : (s.m_writeBuffer.items.take n).length = n := List.length_take_of_le hn
  have hi' : i < n := hlen ▸ hi
  have hall := hF.read s.m_wptr n
    (F.WriteData s.m_wptr (s.m_writeBuffer.items.take n) s.g_fpgaFlash).2
  rw [hback] at hall
  have hget := List.getElem_of_eq hall hi
  rw [List.getElem_map, List.getElem_range] at hget
  rw [hget, hchip, hF.read_keeps]

/-- **One block.** A write that is read back as it was keeps what has been written. -/
theorem Holds.writeVerify (hF : F.Confines c content) (h : Holds F c content f s log)
    (hwptr : s.m_wptr = c.m_imageOffset + .ofNat (flashed log).length)
    (hdvd : F.GetMaxWriteBlockSize.toNat ∣ (flashed log).length) (hin : ¬ inHeader s) {n : Nat}
    (hn : n ≤ s.m_writeBuffer.items.length) (hblock : n ≤ F.GetMaxWriteBlockSize.toNat)
    (hv : writeVerify F n s = (true, t, es)) :
    Holds F c content f t (log ++ es) := by
  let wbuf := s.m_writeBuffer.items.take n
  have hlen : wbuf.length = n := List.length_take_of_le hn
  obtain ⟨hchip, -, hst, hes⟩ := writeVerify_verified hv
  have hcontent : content t.g_fpgaFlash =
      content (F.WriteData s.m_wptr wbuf s.g_fpgaFlash).2 := by
    rw [hchip, hF.read_keeps]
  obtain ⟨k, hk⟩ := hdvd
  have hkeeps (a : UInt32) (ha : n ≤ (a - s.m_wptr).toNat) :
      content t.g_fpgaFlash a = content s.g_fpgaFlash a := by
    rw [hcontent]
    exact hF.write k _ _ _ _ (by rw [hwptr, hk]) (by rw [hlen]; exact hblock) (by rw [hlen]; exact ha)
  have hdata : flashed (log ++ es) = flashed log ++ wbuf := by
    rw [flashed_append, hes]
    refine congrArg (flashed log ++ ·) ?_
    show List.map _ (place s.m_wptr wbuf ++ []) = wbuf
    rw [List.append_nil, map_snd_place]
  refine ⟨fun hfits i hi => ?_, fun a ha hno => ?_, fun hin' => ?_⟩
  · rw [hdata, List.length_append, hlen] at hfits
    simp only [hdata] at hi ⊢
    by_cases hold : i < (flashed log).length
    · rw [List.getElem_append_left hold, ← h.bytes (by omega) i hold]
      refine hkeeps _ ?_
      rw [hwptr]
      exact le_toNat_ofNat_sub hold hfits _
    · rw [List.getElem_append_right (Nat.le_of_not_lt hold)]
      rw [List.length_append] at hi
      have hrange : i - (flashed log).length < wbuf.length := by omega
      have hnew := verified_content hF hn hv hrange
      rw [hwptr, UInt32.add_assoc, ← UInt32.ofNat_add,
        Nat.add_sub_cancel' (Nat.le_of_not_lt hold)] at hnew
      exact hnew
  · rw [hdata, List.length_append, hlen] at ha
    rw [← h.outside a (by omega) hno]
    refine hkeeps _ ?_
    rw [hwptr, sub_add_eq, toNat_sub_ofNat (by omega)]
    omega
  · exact absurd hin' (by rw [inHeader, hst]; exact hin)

/-- `StoredAs` with what the flash holds of it. -/
def HoldsStored (F : SpiFlash φ) (c : UpdaterConfig) (content : φ → UInt32 → UInt8) (f : φ)
    (stored : List UInt8) (s : FPGAFirmwareUpdater φ) (log : List Action) : Prop :=
  StoredAs F c s log stored ∧ Holds F c content f s log

theorem StoredAs.blocks {stored : List UInt8} (h : StoredAs F c s log stored) :
    F.GetMaxWriteBlockSize.toNat ∣ (flashed log).length := by
  obtain ⟨data, -, hwritten, -, hdvd⟩ := h
  rw [written_place hwritten]
  exact hdvd

theorem StoredAs.wptr {stored : List UInt8} (h : StoredAs F c s log stored) :
    s.m_wptr = c.m_imageOffset + .ofNat (flashed log).length ∧
      stored = flashed log ++ s.m_writeBuffer.items := by
  obtain ⟨data, hstored, hwritten, hwptr, -⟩ := h
  rw [written_place hwritten]
  exact ⟨hwptr, hstored⟩

theorem HoldsStored.writeVerify (hF : F.Confines c content) {stored : List UInt8}
    (h : HoldsStored F c content f stored s log) (hin : ¬ inHeader s)
    (hn : F.GetMaxWriteBlockSize.toNat ≤ s.m_writeBuffer.items.length)
    (hv : writeVerify F F.GetMaxWriteBlockSize.toNat s = (true, t, es)) :
    HoldsStored F c content f stored (afterBlock F.GetMaxWriteBlockSize true t) (log ++ es) ∧
      t.m_state = s.m_state := by
  obtain ⟨hs, hh⟩ := h
  have hholds := hh.writeVerify hF hs.wptr.1 hs.blocks hin hn (Nat.le_refl _) hv
  obtain ⟨g, ⟨-, rfl, rfl⟩ | ⟨hfalse, -⟩⟩ := writeVerify_cases hv
  · obtain ⟨data, hstored, hwritten, hwptr, hdvd⟩ := hs
    have hlen := List.length_take_of_le hn
    refine ⟨⟨⟨data ++ s.m_writeBuffer.items.take F.GetMaxWriteBlockSize.toNat, ?_, ?_, ?_, ?_⟩,
      hholds.bytes, hholds.outside, hholds.header⟩, rfl⟩
    · show stored = data ++ _ ++ (s.m_writeBuffer.pop _).items
      rw [BoundedQueue.items_pop, List.append_assoc, List.take_append_drop]
      exact hstored
    · rw [written_append, hwritten, place_append, hwptr]
      exact congrArg (place _ _ ++ ·) (List.append_nil _)
    · show s.m_wptr + _ = _
      rw [hwptr, List.length_append, hlen, UInt32.ofNat_add, UInt32.ofNat_toNat, UInt32.add_assoc]
    · rw [List.length_append, hlen]
      exact Nat.dvd_add hdvd (Nat.dvd_refl _)
  · cases hfalse

/-- **All blocks.** Either one of them fails or the flash holds them. -/
theorem pushWriteData_holds (hF : F.Confines c content) {stored : List UInt8}
    (h : HoldsStored F c content f stored s log) (hin : ¬ inHeader s) :
    (PushWriteData F s).1.m_state = .FAILED ∨
      HoldsStored F c content f stored (PushWriteData F s).1 (log ++ (PushWriteData F s).2) ∧
        (PushWriteData F s).1.m_state = s.m_state := by
  refine pushWriteData_rule (J := fun t l => t.m_state = .FAILED ∨
    HoldsStored F c content f stored t l ∧ t.m_state = s.m_state) ?_ ?_ (.inr ⟨h, rfl⟩)
  · intro u l _ _ _
    exact .inl rfl
  · rintro u l ok v fs hJ hst - hn hv
    obtain ⟨hu, heq⟩ := hJ.resolve_left hst
    obtain ⟨g, ⟨rfl, -, -⟩ | ⟨rfl, rfl, -⟩⟩ := writeVerify_cases hv
    · have hin' : ¬ inHeader u := by
        rw [inHeader, heq]
        exact hin
      obtain ⟨hholds, hst'⟩ := hu.writeVerify hF hin' hn hv
      exact .inr ⟨hholds, hst'.trans heq⟩
    · exact .inl rfl

/-! ## Polling -/

/-- The erase loop and the blank check leave alone what is not erased. -/
theorem eraseSectors_outside (hF : F.Confines c content) {a : UInt32} {ptrs : List UInt32} (f : φ)
    (hsectors : ∀ ptr ∈ ptrs, ptr ∈ sectorsToErase F c)
    (h : ∀ ptr ∈ ptrs, ¬ a - ptr < F.GetEraseBlockSize) :
    content (eraseSectors F ptrs f).2.1 a = content f a := by
  induction ptrs generalizing f with
  | nil => rfl
  | cons ptr ptrs ih =>
    obtain ⟨hptr, hptrs⟩ := List.forall_mem_cons.mp h
    obtain ⟨hsector, hrest⟩ := List.forall_mem_cons.mp hsectors
    unfold eraseSectors
    dsimp only
    split
    · exact hF.erase ptr hsector f a hptr
    · exact (ih _ hrest hptrs).trans (hF.erase ptr hsector f a hptr)

theorem blankCheck_content (hF : F.Confines c content) {addr : UInt32} {f g : φ} {blank : Bool}
    (h : blankCheck F c fuel addr f = .ok (blank, g)) : content g = content f := by
  induction fuel generalizing addr f with
  | zero => cases h
  | succ fuel ih =>
    unfold blankCheck at h
    dsimp only at h
    split at h
    · split at h
      · cases h
        exact hF.read_keeps _ _ _
      · exact (ih h).trans (hF.read_keeps _ _ _)
    · cases h
      rfl

theorem eraseOutcome_outside (hF : F.Confines c content) {g : φ} {ok : Bool} {a : UInt32}
    (h : eraseOutcome F c fuel f = .ok (ok, g, es)) (hno : ¬ Erasable F c a) :
    content g a = content f a := by
  have hsectors := eraseSectors_outside hF (a := a) f (fun _ hptr => hptr)
    fun ptr hptr hlt => hno ⟨ptr, hptr, hlt⟩
  unfold eraseOutcome at h
  dsimp only at h
  split at h
  · cases h
    exact hsectors
  · split at h
    · cases h
    · rename_i blank g' hcheck
      cases h
      rw [blankCheck_content hF hcheck]
      exact hsectors

@[simp] theorem pushWrite_g_fpgaFlash (s : FPGAFirmwareUpdater φ) (data : List UInt8) :
    (s.pushWrite data).2.1.g_fpgaFlash = s.g_fpgaFlash := by
  unfold pushWrite
  split <;> rfl

theorem syncWait_flash {n : Nat} (h : syncWait n s = (more, t, es)) :
    t.g_fpgaFlash = s.g_fpgaFlash := by
  induction n generalizing s es with
  | zero => cases h; rfl
  | succ n ih =>
    unfold syncWait at h
    dsimp only at h
    split at h
    · split at h
      · cases h
        exact pushWrite_g_fpgaFlash _ _
      · rcases hr : syncWait n ((s.pushWrite (s.m_rxBuffer.items.take 1)).2.1.popRx 1) with ⟨_, u, fs⟩
        rw [hr] at h
        cases h
        exact (ih hr).trans (pushWrite_g_fpgaFlash _ _)
    · cases h; rfl

theorem bitstream_flash (h : bitstream s = (more, t, es)) : t.g_fpgaFlash = s.g_fpgaFlash := by
  unfold bitstream at h
  dsimp only at h
  split at h
  · split at h
    · split at h
      · cases h; rfl
      · cases hd : isDesync s.m_rxBuffer.items <;> rw [hd] at h <;> cases h <;>
          exact pushWrite_g_fpgaFlash _ _
    · split at h
      · cases h
        exact pushWrite_g_fpgaFlash _ _
      · cases h; rfl
  · cases h; rfl

theorem bigWrite_flash (h : bigWrite s = (more, t, es)) : t.g_fpgaFlash = s.g_fpgaFlash := by
  unfold bigWrite at h
  dsimp only at h
  split at h
  · generalize (if s.m_bigWordLen ≤ .ofNat (s.m_rxBuffer.items.length / 4) then s.m_bigWordLen
      else .ofNat (s.m_rxBuffer.items.length / 4)) = wordcount at h
    have hflash := pushWrite_g_fpgaFlash s (s.m_rxBuffer.items.take (4 * wordcount.toNat))
    rcases hp : s.pushWrite (s.m_rxBuffer.items.take (4 * wordcount.toNat)) with ⟨ok, u, fs⟩
    rw [hp] at hflash h
    cases ok with
    | true =>
      simp only [if_true] at h
      split at h <;> cases h <;> exact hflash
    | false =>
      simp only [Bool.false_eq_true, if_false] at h
      split at h <;> cases h <;> exact hflash
  · cases h; rfl

/-- Reading on touches the flash only where the header ends, to erase it. -/
theorem process_flash (h : ProcessDataFromBuffer F c fuel s = .ok (more, t, es)) :
    t.g_fpgaFlash = s.g_fpgaFlash ∨
      inHeader s ∧ ∃ ok fs, eraseOutcome F c fuel s.g_fpgaFlash = .ok (ok, t.g_fpgaFlash, fs) := by
  unfold ProcessDataFromBuffer at h
  split at h
  · refine .inl ?_
    have h : readBitHeader s = (more, t, es) := by simpa using h
    unfold readBitHeader at h
    split at h
    · split at h <;> cases h <;> rfl
    · cases h; rfl
  · rename_i hs
    unfold readBitHeaderRecords at h
    dsimp only at h
    split at h
    · split at h
      · split at h
        · cases h
        · rename_i u fs he
          cases h
          obtain ⟨ok, g, gs, hout, ⟨-, rfl, -⟩ | ⟨-, rfl, -⟩⟩ := eraseFlashPartition_ok he
          · exact .inr ⟨.inr hs, ok, gs, hout⟩
          · exact .inr ⟨.inr hs, ok, gs, hout⟩
      · split at h
        · split at h <;> cases h <;> exact .inl rfl
        · cases h; exact .inl rfl
    · cases h; exact .inl rfl
  · exact .inl (syncWait_flash (by simpa using h))
  · exact .inl (bitstream_flash (by simpa using h))
  · exact .inl (bigWrite_flash (by simpa using h))
  · cases h; exact .inl rfl
  · cases h; exact .inl rfl

theorem process_inHeader (h : ProcessDataFromBuffer F c fuel s = .ok (more, t, es))
    (hin : inHeader t) : inHeader s := by
  have hspec : PollSpec F c fuel true s more t es := process_spec (fun _ _ _ _ _ => .inr rfl) h
  rcases hspec.result with ⟨out, hp⟩ | hdrop
  · exact (hp.flash hin).1
  · rcases hdrop.cause with hs | hs | hs | ⟨hst, -⟩
    · rw [process_finished (.inl hs)] at h
      cases h
      exact hin
    · rw [process_finished (.inr hs)] at h
      cases h
      exact hin
    · exact .inr hs.1
    · exact absurd hin (not_inHeader_of_failed hst)

theorem Holds.process (hF : F.Confines c content) (h : Holds F c content f s log)
    (ht : ProcessDataFromBuffer F c fuel s = .ok (more, t, es)) :
    Holds F c content f t (log ++ es) := by
  have hnothing : flashed (log ++ es) = flashed log := by
    rw [flashed_append, flashed_of_written (process_budget ht).2, List.append_nil]
  have hheader (hin : inHeader t) : flashed (log ++ es) = [] :=
    hnothing.trans (h.header (process_inHeader ht hin))
  rcases process_flash ht with hflash | ⟨hin, ok, fs, hout⟩
  · refine ⟨?_, ?_, hheader⟩
    · rw [hnothing, hflash]
      exact h.bytes
    · rw [hnothing, hflash]
      exact h.outside
  · have hempty := hnothing.trans (h.header hin)
    refine ⟨fun _ i hi => ?_, fun a _ hno => ?_, hheader⟩
    · rw [hempty] at hi
      cases hi
    · rw [eraseOutcome_outside hF hout hno]
      refine h.outside a ?_ hno
      rw [h.header hin]
      exact Nat.zero_le _

variable {received buf stored data : List UInt8}

/-- `PushWriteData` moves waiting bytes to the flash, or fails. -/
theorem Delivering.pushHolds (hF : F.Confines c content)
    (h : Delivering F c fuel f received s log buf stored) (hh : Holds F c content f s log) :
    (PushWriteData F s).1.m_state = .FAILED ∨
      Delivering F c fuel f received (PushWriteData F s).1 (log ++ (PushWriteData F s).2) buf stored ∧
        Holds F c content f (PushWriteData F s).1 (log ++ (PushWriteData F s).2) ∧
        phase (PushWriteData F s).1 = phase s := by
  by_cases hw : F.GetMaxWriteBlockSize.toNat ≤ 512
  · by_cases hin : inHeader s
    · rw [pushWriteData_short hw (by rw [(h.header hin).1]; exact F.writeBlock_pos), List.append_nil]
      exact .inr ⟨h, hh, rfl⟩
    · refine (pushWriteData_holds hF ⟨h.stores, hh⟩ hin).imp_right fun ⟨⟨hstores, hholds⟩, hst⟩ => ?_
      obtain ⟨hrx, hbig, -⟩ := pushWriteData_frame F s
      have hphase : phase (PushWriteData F s).1 = phase s := by simp [phase, hst, hbig]
      refine ⟨⟨?_, ?_, hstores, fun hin' => ?_, ?_⟩, hholds, hphase⟩
      · rw [hrx, Finished, hst]
        exact h.reads
      · rw [hphase]
        exact h.rest
      · rw [inHeader, hst] at hin'
        exact absurd hin' hin
      · rw [CountsWords, hst, hbig]
        exact h.words
  · exact .inl (pushWriteData_big (Nat.lt_of_not_le hw) s)

/-- What holds between two polls of a call that keeps its data. -/
def FailedOrHolds (F : SpiFlash φ) (c : UpdaterConfig) (content : φ → UInt32 → UInt8) (fuel : Nat)
    (f : φ) (received : List UInt8) (s : FPGAFirmwareUpdater φ) (log : List Action) : Prop :=
  s.m_state = .FAILED ∨
    ∃ buf stored, Ready F c fuel f received s log buf stored ∧ Holds F c content f s log

theorem pollOnce_holds (hF : F.Confines c content)
    (hs : FailedOrHolds F c content fuel f received s log) (hl : Lossless s)
    (h : pollOnce F c fuel s = .ok (more, t, es)) :
    t.m_state = .FAILED ∨ ∃ buf stored, Ready F c fuel f received t (log ++ es) buf stored ∧
      Holds F c content f t (log ++ es) ∧
        (more = false → (phase t).read c.m_deviceName (erases F c fuel f) buf = none) := by
  rcases hs with hfail | ⟨buf, stored, hready, hholds⟩
  · exact .inl (pollOnce_failed hfail h)
  · obtain ⟨u, fs, hu, rfl, rfl⟩ := pollOnce_ok h
    rcases process_lossless hl hu with hfail | hno
    · exact .inl (by rw [pushWriteData_failed hfail]; exact hfail)
    · obtain ⟨buf', stored', hd, -, hwait⟩ := process_delivering hready hu hl.1 hno
      rcases hd.pushHolds hF (hholds.process hF hu) with hfail | ⟨hd', hholds', hphase⟩
      · exact .inl hfail
      · rw [← List.append_assoc]
        rcases pushWriteData_drained F u with hfail | hshort
        · exact .inl hfail
        · exact .inr ⟨buf', stored', ⟨hd', hshort⟩, hholds', by rw [hphase]; exact hwait⟩

/-! ## Sessions -/

theorem Holds.nothing (h : Holds F c content f s log) :
    Holds F c content f s (log ++ [.pushFailed]) := by
  have hnothing : flashed (log ++ [.pushFailed]) = flashed log := by
    rw [flashed_append]
    exact List.append_nil _
  exact ⟨by rw [hnothing]; exact h.bytes, by rw [hnothing]; exact h.outside,
    by rw [hnothing]; exact h.header⟩

theorem receive_holds (hF : F.Confines c content)
    (hs : s.m_state = .FAILED ∨ AtRest F c fuel f received s log ∧ Holds F c content f s log)
    (hk : KeepsAll F c fuel s data) (h : receive F c fuel s data = .ok (t, es)) :
    t.m_state = .FAILED ∨
      AtRest F c fuel f (received ++ data) t (log ++ es) ∧ Holds F c content f t (log ++ es) := by
  unfold receive OnRxData at h
  split at h
  · rename_i hfull
    cases h
    rcases hk.1 with hst | hst | hfits
    · exact hs.imp_right fun ⟨hrest, hholds⟩ => ⟨hrest.refused hst, hholds.nothing⟩
    · exact .inl hst
    · have := BoundedQueue.push_eq_none_iff.mp hfull
      omega
  · rename_i q hq
    have hstart :
        FailedOrHolds F c content fuel f (received ++ data) { s with m_rxBuffer := q } log := by
      refine hs.imp_right fun ⟨hrest, hholds⟩ => ?_
      obtain ⟨buf, stored, hready⟩ := hrest.extend hq
      exact ⟨buf, stored, hready, hholds.bytes, hholds.outside, hholds.header⟩
    refine rounds_rule (J := FailedOrHolds F c content fuel f (received ++ data)) (C := Lossless)
      (Q := fun t log => t.m_state = .FAILED ∨
        AtRest F c fuel f (received ++ data) t log ∧ Holds F c content f t log)
      ?_ ?_ hstart (fun u hu => hk.2 u ⟨q, hq, hu⟩) h
    · intro s log t es hJ hC hb
      exact (pollOnce_holds hF hJ hC hb).imp_right fun ⟨buf, stored, hready, hholds, _⟩ =>
        ⟨buf, stored, hready, hholds⟩
    · intro s log t es hJ hC hb
      exact (pollOnce_holds hF hJ hC hb).imp_right fun ⟨_, _, hready, hholds, hwait⟩ =>
        ⟨hready.atRest (hwait rfl), hholds⟩

/-- **Closing.** What waits is written and read back as well. -/
theorem flushWriteData_holds (hF : F.Confines c content) (h : StoredAs F c s log stored)
    (hh : Holds F c content f s log) (hin : ¬ inHeader s) (hs : s.m_state ≠ .FAILED)
    (hshort : s.m_writeBuffer.items.length < F.GetMaxWriteBlockSize.toNat)
    (hclosed : (FlushWriteData F s).1.m_state ≠ .FAILED) :
    Holds F c content f (FlushWriteData F s).1 (log ++ (FlushWriteData F s).2) ∧
      flashed (log ++ (FlushWriteData F s).2) = stored := by
  have hw : F.GetMaxWriteBlockSize.toNat ≤ 512 := by
    refine Nat.le_of_not_lt fun hbig => hclosed ?_
    unfold FlushWriteData
    rw [if_neg hs]
    rcases hv : writeVerify F (PushWriteData F s).1.m_writeBuffer.items.length (PushWriteData F s).1
      with ⟨ok, t, es⟩
    dsimp only
    rw [hv]
    obtain ⟨g, ⟨-, rfl, -⟩ | ⟨-, rfl, -⟩⟩ := writeVerify_cases hv
    · exact pushWriteData_big hbig s
    · rfl
  unfold FlushWriteData at hclosed ⊢
  rw [if_neg hs] at hclosed ⊢
  rw [pushWriteData_short hw hshort] at hclosed ⊢
  rcases hv : writeVerify F s.m_writeBuffer.items.length s with ⟨ok, t, es⟩
  dsimp only at hclosed ⊢
  rw [hv] at hclosed ⊢
  obtain ⟨g, ⟨rfl, ht, hes⟩ | ⟨-, rfl, -⟩⟩ := writeVerify_cases hv
  · refine ⟨hh.writeVerify hF h.wptr.1 h.blocks hin (Nat.le_refl _) (Nat.le_of_lt hshort) hv, ?_⟩
    show flashed (log ++ es) = stored
    rw [h.wptr.2, flashed_append, hes, List.take_length]
    refine congrArg (flashed log ++ ·) ?_
    show List.map _ (place _ _ ++ []) = _
    rw [List.append_nil, map_snd_place]
  · exact absurd rfl hclosed

theorem afterRecords_length_le {buf rest : List UInt8} (h : afterRecords buf = some rest) :
    rest.length ≤ buf.length := by
  fun_induction afterRecords buf with
  | case1 buf htype hlen =>
    cases h
    rw [List.length_drop]
    exact Nat.sub_le _ _
  | case2 => cases h
  | case3 buf htype hlen ih =>
    refine Nat.le_trans (ih h) ?_
    rw [List.length_drop]
    exact Nat.sub_le _ _
  | case4 => cases h

theorem afterHeader_length_le {buf rest : List UInt8} (h : afterHeader buf = some rest) :
    rest.length ≤ buf.length := by
  unfold afterHeader at h
  split at h
  · refine Nat.le_trans (afterRecords_length_le h) ?_
    rw [List.length_drop]
    exact Nat.sub_le _ _
  · cases h

/-- **Verified upload.** Whatever the chip stores and answers: if a session has read
its bit file to the end, and closing it does not fail, then the flash holds what the
file has for it, at the start of the partition, and outside of it and of the sectors
that are erased the chip is as it was. -/
theorem upload_verified (c : UpdaterConfig) (hF : F.Confines c content) (fuel : Nat)
    (s₀ s : FPGAFirmwareUpdater φ) (chunks : List (List UInt8)) (log : List Action)
    (hkeep : AllSteps (receive F c fuel) (KeepsAll F c fuel) (OnDeviceOpened c s₀).1 chunks)
    (hr : run (receive F c fuel) (OnDeviceOpened c s₀).1 chunks = .ok (s, log))
    (hdone : s.m_state = .DONE) (hlen : chunks.flatten.length ≤ 4294967296)
    (hclosed : (OnDeviceClosed F s).1.m_state ≠ .FAILED) :
    ∃ rest image tail, afterHeader chunks.flatten = some rest ∧
      (bitFile c.m_deviceName true).settle .sync rest = ⟨.done, tail, image⟩ ∧
      (∀ i (hi : i < image.length), content (OnDeviceClosed F s).1.g_fpgaFlash
        (c.m_imageOffset + .ofNat i) = image[i]) ∧
      ∀ a, image.length ≤ (a - c.m_imageOffset).toNat → ¬ Erasable F c a →
        content (OnDeviceClosed F s).1.g_fpgaFlash a = content s₀.g_fpgaFlash a := by
  have hJ := run_rule (C := KeepsAll F c fuel) (l := []) (b := [])
    (J := fun s log chunks => s.m_state = .FAILED ∨
      AtRest F c fuel s₀.g_fpgaFlash chunks.flatten s log ∧ Holds F c content s₀.g_fpgaFlash s log)
    (fun s log as data t es hJ hC ht => by
      have hstep := receive_holds hF hJ hC ht
      rwa [← List.flatten_singleton (l := data), ← List.flatten_append] at hstep)
    (.inr ⟨opened_atRest F c fuel s₀, fun _ i hi => (nomatch hi), fun _ _ _ => rfl, fun _ => rfl⟩)
    hkeep hr
  simp only [List.nil_append] at hJ
  have hs : s.m_state ≠ .FAILED := by
    rw [hdone]
    decide
  have hin : ¬ inHeader s := by
    rintro (h | h) <;> cases hdone.symm.trans h
  obtain ⟨hrest, hholds⟩ := hJ.resolve_left hs
  obtain ⟨rest, flash, hafter, hwritten, hwptr, -, hend⟩ := hrest.accounted hin hs
  obtain ⟨pre, pkt, tail, hflash, hfile, -, -, hsettle⟩ := hend hdone
  obtain ⟨buf, stored, ⟨hd, hshort⟩, -⟩ := hrest
  have hstored : stored = pre ++ pkt := by
    rw [hd.stores.wptr.2, written_place hwritten, hflash]
  obtain ⟨hfinal, himage⟩ := flushWriteData_holds hF hd.stores hholds hin hs hshort hclosed
  have hfits : (pre ++ pkt).length ≤ 4294967296 := by
    have hle := afterHeader_length_le hafter
    rw [hfile, List.length_append] at hle
    omega
  have hbytes := hfinal.bytes
  have houtside := hfinal.outside
  simp only [himage, hstored] at hbytes houtside
  exact ⟨rest, pre ++ pkt, tail, hafter, hsettle, hbytes hfits, houtside⟩

theorem contentsFlash_confines {e w : UInt32} (he : 0 < e.toNat) (hw : 0 < w.toNat)
    (c : UpdaterConfig) : (contentsFlash e w he hw).Confines c id where
  read _ _ _ := rfl
  read_keeps _ _ _ := rfl
  write _ addr data f a _ _ h := by
    show data.getD (a - addr).toNat (f a) = f a
    rw [List.getD_eq_getElem?_getD, List.getElem?_eq_none h]
    rfl
  erase _ _ _ _ h := if_neg h

/-- A session on a chip that has data in it behind the partition. -/
theorem upload_verified_short :
    ∃ s log, run (receive sampleFlash sampleConfig 2)
        (OnDeviceOpened sampleConfig (.init 0 (usedFrom 256))).1 [shortFile] = .ok (s, log) ∧
      ∃ rest image tail, afterHeader shortFile = some rest ∧
        (bitFile [0x78] true).settle .sync rest = ⟨.done, tail, image⟩ ∧
        (∀ i (hi : i < image.length),
          (OnDeviceClosed sampleFlash s).1.g_fpgaFlash (0 + .ofNat i) = image[i]) ∧
        ∀ a, image.length ≤ (a - 0).toNat → ¬ Erasable sampleFlash sampleConfig a →
          (OnDeviceClosed sampleFlash s).1.g_fpgaFlash a = usedFrom 256 a := by
  let s₀ := FPGAFirmwareUpdater.init 0 (usedFrom 256)
  obtain ⟨⟨s, log⟩, hr, hend⟩ := exists_of_returns
    (P := fun r : FPGAFirmwareUpdater (UInt32 → UInt8) × List Action =>
      decide (r.1.m_state = .DONE ∧ (OnDeviceClosed sampleFlash r.1).1.m_state ≠ .FAILED))
    (r := run (receive sampleFlash sampleConfig 2) (OnDeviceOpened sampleConfig s₀).1 [shortFile])
    (by decide +kernel)
  obtain ⟨hdone, hclosed⟩ := of_decide_eq_true hend
  have hkeep : KeepsAll sampleFlash sampleConfig 2 (OnDeviceOpened sampleConfig s₀).1 shortFile := by
    refine ⟨.inr (.inr (by decide)), fun u hu => ?_⟩
    obtain ⟨t, es, ht⟩ := onRxData_total sampleFlash sampleConfig_ends
      (OnDeviceOpened sampleConfig s₀).1 shortFile
    have hall : ∀ u ∈ polledStates sampleFlash sampleConfig 2
        (OnDeviceOpened sampleConfig s₀).1 shortFile, Lossless u := by
      decide +kernel
    exact hall u (mem_polledStates ht hu)
  have hflat : [shortFile].flatten = shortFile := List.flatten_singleton
  have h := upload_verified sampleConfig (contentsFlash_confines _ _ _) 2 s₀ s [shortFile] log
    ⟨hkeep, fun _ _ _ => trivial⟩ hr hdone (by rw [hflat]; decide) hclosed
  rw [hflat] at h
  exact ⟨s, log, hr, h⟩

end EmbeddedPlatform.Fpga
