import EmbeddedPlatform.Fpga.Bitstream
import EmbeddedPlatform.Fpga.Operations

/-! # One poll

What `ProcessDataFromBuffer` makes of the receive buffer, compared with what the
bit file says: either it reads on as the bit file does (`Polled`), or it leaves
data behind, and then for one of a few causes (`Dropped`). -/
namespace EmbeddedPlatform.Fpga

open Lib FPGAFirmwareUpdater

variable {φ : Type} {F : SpiFlash φ} {c : UpdaterConfig} {fuel : Nat}
  {s t : FPGAFirmwareUpdater φ} {es : List Action}

/-- Where the updater is in the bit file. -/
def phase (s : FPGAFirmwareUpdater φ) : Phase :=
  match s.m_state with
  | .READ_BITHDR => .magic
  | .READ_BITHDR_RECORDS => .records
  | .SYNC_WAIT => .sync
  | .BITSTREAM => .packets
  | .BIG_WRITE => .words s.m_bigWordLen.toNat
  | .DONE => .done
  | .FAILED => .failed

/-- The updater has not got past the header records. -/
def inHeader (s : FPGAFirmwareUpdater φ) : Prop :=
  s.m_state = .READ_BITHDR ∨ s.m_state = .READ_BITHDR_RECORDS

/-- The words left of a type 2 packet are counted in `STATE_BIG_WRITE` only. -/
def CountsWords (s : FPGAFirmwareUpdater φ) : Prop := s.m_state = .BIG_WRITE ∨ s.m_bigWordLen = 0

/-- The record that starts the image is there, but not all five bytes of it. -/
def ShortHeader (s : FPGAFirmwareUpdater φ) : Prop :=
  s.m_state = .READ_BITHDR_RECORDS ∧ recordType s.m_rxBuffer.items = charE ∧
    3 ≤ s.m_rxBuffer.items.length ∧ s.m_rxBuffer.items.length < 5

theorem pushWrite_cases (s : FPGAFirmwareUpdater φ) (data : List UInt8) :
    (∃ q, s.pushWrite data = (true, { s with m_writeBuffer := q }, []) ∧
        q.items = s.m_writeBuffer.items ++ data) ∨
      (s.pushWrite data = (false, s, [.pushFailed]) ∧
        BIT_RX_BUFFER_SIZE < s.m_writeBuffer.items.length + data.length) := by
  unfold pushWrite
  cases h : s.m_writeBuffer.push data with
  | some q => exact .inl ⟨q, rfl, BoundedQueue.items_of_push h⟩
  | none => exact .inr ⟨rfl, BoundedQueue.push_eq_none_iff.mp h⟩

theorem pushWrite_true {data : List UInt8} (h : s.pushWrite data = (true, t, es)) :
    es = [] ∧ ∃ q, t = { s with m_writeBuffer := q } ∧ q.items = s.m_writeBuffer.items ++ data := by
  rcases pushWrite_cases s data with ⟨q, hp, hq⟩ | ⟨hp, -⟩
  · rw [hp] at h
    cases h
    exact ⟨rfl, q, rfl, hq⟩
  · rw [hp] at h
    cases h

theorem pushWrite_false {data : List UInt8} (h : s.pushWrite data = (false, t, es)) :
    t = s ∧ es = [.pushFailed] ∧
      BIT_RX_BUFFER_SIZE < s.m_writeBuffer.items.length + data.length := by
  rcases pushWrite_cases s data with ⟨q, hp, -⟩ | ⟨hp, hfull⟩
  · rw [hp] at h
    cases h
  · rw [hp] at h
    cases h
    exact ⟨rfl, rfl, hfull⟩

@[simp] theorem pushWrite_m_state (s : FPGAFirmwareUpdater φ) (data : List UInt8) :
    (s.pushWrite data).2.1.m_state = s.m_state := by unfold pushWrite; split <;> rfl

@[simp] theorem pushWrite_m_rxBuffer (s : FPGAFirmwareUpdater φ) (data : List UInt8) :
    (s.pushWrite data).2.1.m_rxBuffer = s.m_rxBuffer := by unfold pushWrite; split <;> rfl

@[simp] theorem pushWrite_m_wptr (s : FPGAFirmwareUpdater φ) (data : List UInt8) :
    (s.pushWrite data).2.1.m_wptr = s.m_wptr := by unfold pushWrite; split <;> rfl

@[simp] theorem pushWrite_m_bigWordLen (s : FPGAFirmwareUpdater φ) (data : List UInt8) :
    (s.pushWrite data).2.1.m_bigWordLen = s.m_bigWordLen := by unfold pushWrite; split <;> rfl

@[simp] theorem written_pushWrite (s : FPGAFirmwareUpdater φ) (data : List UInt8) :
    written (s.pushWrite data).2.2 = [] := by unfold pushWrite; split <;> rfl

/-! ## Reading on -/

/-- From `s` to `t` the updater took `out` from the bit file for the flash, all
of which it stored unless a push failed. -/
structure Polled (M : StreamMachine Phase UInt8 UInt8) (s t : FPGAFirmwareUpdater φ)
    (es : List Action) (out : List UInt8) : Prop where
  wptr : t.m_wptr = s.m_wptr
  writes : written es = []
  stored : .pushFailed ∉ es → t.m_writeBuffer.items = s.m_writeBuffer.items ++ out
  bound : t.m_writeBuffer.items.length ≤ s.m_writeBuffer.items.length + out.length
  flash : inHeader t → inHeader s ∧ t.g_fpgaFlash = s.g_fpgaFlash
  words : CountsWords s → CountsWords t
  image : out = [] ∨ (phase t).inImage = true
  rest : M.settle (phase s) s.m_rxBuffer.items =
    (M.settle (phase t) t.m_rxBuffer.items).after out

theorem Polled.refl (M : StreamMachine Phase UInt8 UInt8) (s : FPGAFirmwareUpdater φ) :
    Polled M s s [] [] :=
  ⟨rfl, rfl, fun _ => by simp, by simp, fun h => ⟨h, rfl⟩, id, .inl rfl, rfl⟩

theorem Polled.trans {M : StreamMachine Phase UInt8 UInt8} {u : FPGAFirmwareUpdater φ}
    {fs : List Action} {o o' : List UInt8} (h : Polled M s t es o) (h' : Polled M t u fs o')
    (hu : (phase u).inImage = true) : Polled M s u (es ++ fs) (o ++ o') where
  wptr := h'.wptr.trans h.wptr
  writes := by rw [written_append, h.writes, h'.writes]; rfl
  stored hno := by
    rw [List.mem_append, not_or] at hno
    rw [h'.stored hno.2, h.stored hno.1, List.append_assoc]
  bound := by
    have h₁ := h.bound
    have h₂ := h'.bound
    rw [List.length_append]
    omega
  flash hu := by
    obtain ⟨ht, hf'⟩ := h'.flash hu
    obtain ⟨hs, hf⟩ := h.flash ht
    exact ⟨hs, hf'.trans hf⟩
  words hs := h'.words (h.words hs)
  image := .inr hu
  rest := by rw [h.rest, h'.rest, Rest.after_after]

/-- Data is left behind, and no more of this buffer goes to the flash. -/
structure Dropped (F : SpiFlash φ) (c : UpdaterConfig) (fuel : Nat) (erased : Bool)
    (s t : FPGAFirmwareUpdater φ) (es : List Action) : Prop where
  wptr : t.m_wptr = s.m_wptr
  writes : written es = []
  buffer : t.m_writeBuffer = s.m_writeBuffer
  rest : ((bitFile c.m_deviceName erased).settle (phase t) t.m_rxBuffer.items).out = []
  cause : s.m_state = .DONE ∨ s.m_state = .FAILED ∨ ShortHeader s ∨
    t.m_state = .FAILED ∧ (.pushFailed ∈ es ∨ s.m_state = .READ_BITHDR_RECORDS ∧
      erased = true ∧ ∃ f fs, eraseOutcome F c fuel s.g_fpgaFlash = .ok (false, f, fs))

/-- What a poll comes to. One that asks for no more leaves a buffer from which
nothing can be read. -/
structure PollSpec (F : SpiFlash φ) (c : UpdaterConfig) (fuel : Nat) (erased : Bool)
    (s : FPGAFirmwareUpdater φ) (more : Bool) (t : FPGAFirmwareUpdater φ) (es : List Action) :
    Prop where
  result : (∃ out, Polled (bitFile c.m_deviceName erased) s t es out) ∨
    Dropped F c fuel erased s t es
  waits : more = false → (phase t).read c.m_deviceName erased t.m_rxBuffer.items = none

section

variable {erased more : Bool}

theorem PollSpec.idle (h : (phase s).read c.m_deviceName erased s.m_rxBuffer.items = none) :
    PollSpec F c fuel erased s false s [] :=
  ⟨.inl ⟨[], .refl _ s⟩, fun _ => h⟩

/-- A poll that reads one element and stores nothing of it. -/
theorem Polled.skip {n : Nat}
    (hread : Reads c.m_deviceName erased s.m_rxBuffer.items (phase s) (phase t) n [])
    (hrx : t.m_rxBuffer.items = s.m_rxBuffer.items.drop n)
    (hwb : t.m_writeBuffer = s.m_writeBuffer) (hwptr : t.m_wptr = s.m_wptr)
    (hflash : inHeader t → inHeader s ∧ t.g_fpgaFlash = s.g_fpgaFlash)
    (hwords : CountsWords s → CountsWords t) (hw : written es = []) :
    Polled (bitFile c.m_deviceName erased) s t es [] where
  wptr := hwptr
  writes := hw
  stored _ := by rw [hwb, List.append_nil]
  bound := by rw [hwb]; exact Nat.le_refl _
  flash := hflash
  words := hwords
  image := .inl rfl
  rest := by rw [settle_read hread, hrx]

theorem not_inHeader_of_inImage (h : (phase s).inImage = true) : ¬ inHeader s := by
  rintro (hs | hs)
  · simp [phase, hs, Phase.inImage] at h
  · simp [phase, hs, Phase.inImage] at h

/-- A poll that reads on and pushes what it reads. `u` is the updater at the
push. -/
theorem Polled.push {M : StreamMachine Phase UInt8 UInt8} {u : FPGAFirmwareUpdater φ}
    {data : List UInt8} (hu : u.m_writeBuffer = s.m_writeBuffer)
    (hwb : t.m_writeBuffer = (u.pushWrite data).2.1.m_writeBuffer)
    (hlog : ∀ e ∈ (u.pushWrite data).2.2, e ∈ es)
    (hwptr : t.m_wptr = s.m_wptr) (himage : (phase t).inImage = true)
    (hwords : CountsWords s → CountsWords t) (hw : written es = [])
    (hrest : M.settle (phase s) s.m_rxBuffer.items =
      (M.settle (phase t) t.m_rxBuffer.items).after data) :
    Polled M s t es data := by
  rcases pushWrite_cases u data with ⟨q, hp, hq⟩ | ⟨hp, -⟩
  · rw [hp] at hwb
    rw [hu, ← show t.m_writeBuffer = q from hwb] at hq
    refine ⟨hwptr, hw, fun _ => hq, ?_, fun h => absurd h (not_inHeader_of_inImage himage), hwords,
      .inr himage, hrest⟩
    exact Nat.le_of_eq (by rw [hq, List.length_append])
  · rw [hp] at hwb hlog
    refine ⟨hwptr, hw, fun h => absurd (hlog _ (List.mem_singleton.mpr rfl)) h, ?_,
      fun h => absurd h (not_inHeader_of_inImage himage), hwords, .inr himage, hrest⟩
    rw [hwb, hu]
    exact Nat.le_add_right _ _

theorem CountsWords.keep (hs : s.m_state ≠ .BIG_WRITE) (ht : t.m_bigWordLen = s.m_bigWordLen)
    (h : CountsWords s) : CountsWords t := by
  rcases h with h | h
  · exact absurd h hs
  · exact .inr (ht.trans h)

theorem not_inHeader_of_failed (h : s.m_state = .FAILED) : ¬ inHeader s := by
  rintro (hs | hs)
  · cases h.symm.trans hs
  · cases h.symm.trans hs

theorem readBitHeader_spec (hs : s.m_state = .READ_BITHDR) (h : readBitHeader s = (more, t, es)) :
    PollSpec F c fuel erased s more t es := by
  have hphase : phase s = .magic := by simp [phase, hs]
  have hwords : s.m_state ≠ .BIG_WRITE := by simp [hs]
  unfold readBitHeader at h
  split at h
  · rename_i hlen
    split at h
    · rename_i hm
      cases h
      have hread : Reads c.m_deviceName erased s.m_rxBuffer.items (phase s) .failed 0 [] := by
        rw [hphase]; exact .badMagic hlen hm
      exact ⟨.inl ⟨[], .skip hread rfl rfl rfl
        (fun h => absurd h (not_inHeader_of_failed rfl)) (.keep hwords rfl) rfl⟩,
        fun h => Bool.noConfusion h⟩
    · rename_i hm
      cases h
      have hread : Reads c.m_deviceName erased s.m_rxBuffer.items (phase s) .records 13 [] := by
        rw [hphase]; exact .magic hlen (Decidable.not_not.mp hm)
      exact ⟨.inl ⟨[], .skip hread rfl rfl rfl (fun _ => ⟨.inl hs, rfl⟩) (.keep hwords rfl) rfl⟩,
        fun h => Bool.noConfusion h⟩
  · rename_i hlen
    cases h
    exact .idle (by simp [hphase, Phase.read]; omega)

/-- The record that starts the image, with or without all its five bytes. -/
theorem startImage_spec (hs : s.m_state = .READ_BITHDR_RECORDS)
    (hlen : 3 ≤ s.m_rxBuffer.items.length) (htype : recordType s.m_rxBuffer.items = charE)
    (herased : ∀ ok f fs, eraseOutcome F c fuel s.g_fpgaFlash = .ok (ok, f, fs) →
      ok = erased ∨ erased = true)
    (h : EraseFlashPartition F c fuel ((s.popRx 5).setState .SYNC_WAIT).1 = .ok (t, es)) :
    PollSpec F c fuel erased s true t (.setState .SYNC_WAIT :: es) := by
  obtain ⟨ok, f, fs, hout, hres⟩ := eraseFlashPartition_ok h
  have hlog : written fs = [] := written_erases (eraseOutcome_log hout)
  have hphase : phase s = .records := by simp [phase, hs]
  have hwords : s.m_state ≠ .BIG_WRITE := by simp [hs]
  refine ⟨?_, fun h => Bool.noConfusion h⟩
  have hcommon : t.m_wptr = s.m_wptr ∧ t.m_writeBuffer = s.m_writeBuffer ∧
      t.m_rxBuffer.items = s.m_rxBuffer.items.drop 5 ∧ t.m_bigWordLen = s.m_bigWordLen ∧
      written (.setState .SYNC_WAIT :: es) = [] ∧
      phase t = if ok then .sync else .failed := by
    rcases hres with ⟨rfl, rfl, rfl⟩ | ⟨rfl, rfl, rfl⟩
    · exact ⟨rfl, rfl, rfl, rfl, hlog, rfl⟩
    · exact ⟨rfl, rfl, rfl, rfl, by simp [hlog], rfl⟩
  obtain ⟨hwptr, hwb, hrx, hbig, hw, hpt⟩ := hcommon
  by_cases h5 : 5 ≤ s.m_rxBuffer.items.length
  · by_cases hok : ok = erased
    · have hread : Reads c.m_deviceName erased s.m_rxBuffer.items (phase s) (phase t) 5 [] := by
        rw [hphase, hpt, hok]; exact .image h5 htype
      refine .inl ⟨[], .skip hread hrx hwb hwptr (fun ht => ?_) (.keep hwords hbig) hw⟩
      cases ok <;> rcases ht with ht | ht <;> simp [phase, ht] at hpt
    · have hfalse : ok = false ∧ erased = true := by
        rcases herased ok f fs hout with h | h
        · exact absurd h hok
        · subst h; exact ⟨by simpa using hok, rfl⟩
      obtain ⟨rfl, rfl⟩ := hfalse
      rcases hres with ⟨hok, -⟩ | ⟨-, rfl, -⟩
      · cases hok
      · exact .inr ⟨hwptr, hw, hwb, by simp [hpt],
          .inr (.inr (.inr ⟨rfl, .inr ⟨hs, rfl, f, fs, hout⟩⟩))⟩
  · refine .inr ⟨hwptr, hw, hwb, ?_, .inr (.inr (.inl ⟨hs, htype, hlen, by omega⟩))⟩
    rw [hrx, List.drop_eq_nil_of_le (by omega), hpt]
    cases ok with
    | true => rw [if_pos rfl, settle_wait rfl]
    | false => simp

theorem readBitHeaderRecords_spec (hs : s.m_state = .READ_BITHDR_RECORDS)
    (herased : ∀ ok f fs, eraseOutcome F c fuel s.g_fpgaFlash = .ok (ok, f, fs) →
      ok = erased ∨ erased = true)
    (h : readBitHeaderRecords F c fuel s = .ok (more, t, es)) :
    PollSpec F c fuel erased s more t es := by
  have hphase : phase s = .records := by simp [phase, hs]
  have hwords : s.m_state ≠ .BIG_WRITE := by simp [hs]
  unfold readBitHeaderRecords at h
  dsimp only at h
  split at h
  · rename_i hlen
    split at h
    · rename_i htype
      split at h
      · cases h
      · rename_i u fs he
        cases h
        exact startImage_spec hs hlen htype herased he
    · rename_i htype
      split at h
      · rename_i hblock
        have hread : Reads c.m_deviceName erased s.m_rxBuffer.items (phase s)
            (if wrongDevice c.m_deviceName s.m_rxBuffer.items then .failed else .records)
            (3 + recordLen s.m_rxBuffer.items) [] := by
          rw [hphase]; exact .record hblock htype
        split at h
        · rename_i hdevice
          cases h
          rw [if_pos (by simpa [wrongDevice] using hdevice)] at hread
          exact ⟨.inl ⟨[], .skip hread rfl rfl rfl
            (fun h => absurd h (not_inHeader_of_failed rfl)) (.keep hwords rfl) rfl⟩,
            fun h => Bool.noConfusion h⟩
        · rename_i hdevice
          cases h
          rw [if_neg (by simpa [wrongDevice] using hdevice),
            ← show phase (s.popRx (3 + recordLen s.m_rxBuffer.items)) = .records from hphase] at hread
          exact ⟨.inl ⟨[], .skip hread rfl rfl rfl (fun _ => ⟨.inr hs, rfl⟩) id rfl⟩,
            fun h => Bool.noConfusion h⟩
      · rename_i hblock
        cases h
        exact .idle (by simp [hphase, Phase.read, htype]; omega)
  · rename_i hlen
    cases h
    exact .idle (by simp [hphase, Phase.read]; omega)

/-- One time round the loop of `STATE_SYNC_WAIT` without a sync word. -/
theorem padding_polled (hs : s.m_state = .SYNC_WAIT) (hlen : 4 < s.m_rxBuffer.items.length)
    (hsync : s.m_rxBuffer.items.take 4 ≠ g_syncword) :
    Polled (bitFile c.m_deviceName erased) s
      ((s.pushWrite (s.m_rxBuffer.items.take 1)).2.1.popRx 1)
      (s.pushWrite (s.m_rxBuffer.items.take 1)).2.2 (s.m_rxBuffer.items.take 1) := by
  have hphase : phase s = .sync := by simp [phase, hs]
  refine .push rfl rfl (fun e he => he) ?_ ?_ ?_ ?_ ?_
  · simp [popRx]
  · simp [phase, popRx, hs, Phase.inImage]
  · simp [CountsWords, popRx]
  · simp
  · rw [hphase, settle_read (.padding hlen hsync)]
    simp [phase, popRx, hs]

theorem syncWord_polled (hs : s.m_state = .SYNC_WAIT) (hlen : 4 < s.m_rxBuffer.items.length)
    (hsync : s.m_rxBuffer.items.take 4 = g_syncword) {fs : List Action} (hw : written fs = []) :
    Polled (bitFile c.m_deviceName erased) s
      (((s.pushWrite (s.m_rxBuffer.items.take 4)).2.1.popRx 4).setState .BITSTREAM).1
      ((s.pushWrite (s.m_rxBuffer.items.take 4)).2.2 ++ fs) (s.m_rxBuffer.items.take 4) := by
  have hphase : phase s = .sync := by simp [phase, hs]
  refine .push rfl rfl (fun e he => List.mem_append_left _ he) ?_ ?_ ?_ ?_ ?_
  · simp [setState, popRx]
  · rfl
  · exact .keep (by simp [hs]) (by simp [setState, popRx])
  · simp [hw]
  · rw [hphase, settle_read (.syncWord hlen hsync)]
    simp [phase, setState, popRx]

theorem syncWait_spec {n : Nat} (hs : s.m_state = .SYNC_WAIT)
    (hn : s.m_rxBuffer.items.length ≤ n) (h : syncWait n s = (more, t, es)) :
    (∃ out, Polled (bitFile c.m_deviceName erased) s t es out) ∧ (phase t).inImage = true ∧
      (more = false → (phase t).read c.m_deviceName erased t.m_rxBuffer.items = none) := by
  induction n generalizing s es with
  | zero =>
    cases h
    exact ⟨⟨[], .refl _ _⟩, by simp [phase, hs, Phase.inImage],
      fun _ => by simp [phase, hs, Phase.read]; omega⟩
  | succ n ih =>
    unfold syncWait at h
    dsimp only at h
    split at h
    · rename_i hlen
      split at h
      · rename_i hsync
        cases h
        exact ⟨⟨_, syncWord_polled hs hlen hsync rfl⟩, rfl, fun h => Bool.noConfusion h⟩
      · rename_i hsync
        rcases hr : syncWait n ((s.pushWrite (s.m_rxBuffer.items.take 1)).2.1.popRx 1)
          with ⟨more', u, fs⟩
        rw [hr] at h
        cases h
        have hbyte := @padding_polled _ c s erased hs hlen hsync
        obtain ⟨⟨out, hout⟩, himage, hwait⟩ := ih (by simpa [popRx] using hs)
          (by simp [popRx]; omega) hr
        exact ⟨⟨_, hbyte.trans hout himage⟩, himage, hwait⟩
    · rename_i hlen
      cases h
      exact ⟨⟨[], .refl _ _⟩, by simp [phase, hs, Phase.inImage],
        fun _ => by simp [phase, hs, Phase.read]; omega⟩

/-- A type 1 packet that is there as a whole. -/
theorem packet_spec {u : FPGAFirmwareUpdater φ} {fs : List Action} {n : Nat}
    (hs : s.m_state = .BITSTREAM)
    (hread : Reads c.m_deviceName erased s.m_rxBuffer.items .packets (phase u) n
      (s.m_rxBuffer.items.take n))
    (hu : u.m_writeBuffer = s.m_writeBuffer ∧ u.m_rxBuffer = s.m_rxBuffer ∧ u.m_wptr = s.m_wptr ∧
      (CountsWords s → CountsWords u) ∧ (phase u).inImage = true ∧ written fs = []) :
    PollSpec F c fuel erased s true
      ((u.pushWrite (s.m_rxBuffer.items.take n)).2.1.popRx n)
      (fs ++ (u.pushWrite (s.m_rxBuffer.items.take n)).2.2) := by
  obtain ⟨hwb, hrx, hwptr, hwords, himage, hw⟩ := hu
  have hphase : phase s = .packets := by simp [phase, hs]
  have hpt : phase ((u.pushWrite (s.m_rxBuffer.items.take n)).2.1.popRx n) = phase u := by
    simp [phase, popRx]
  refine ⟨.inl ⟨_, .push hwb rfl (fun e he => List.mem_append_right _ he) ?_ ?_ ?_ ?_ ?_⟩,
    fun h => Bool.noConfusion h⟩
  · simpa [popRx] using hwptr
  · rwa [hpt]
  · simpa [CountsWords, popRx] using hwords
  · simpa using hw
  · rw [hphase, hpt, settle_read hread]
    simp [popRx, hrx]

theorem bitstream_spec (hs : s.m_state = .BITSTREAM) (h : bitstream s = (more, t, es)) :
    PollSpec F c fuel erased s more t es := by
  have hphase : phase s = .packets := by simp [phase, hs]
  have hwords : s.m_state ≠ .BIG_WRITE := by simp [hs]
  unfold bitstream at h
  dsimp only at h
  split at h
  · rename_i hlen
    split at h
    · rename_i htype
      split at h
      · rename_i hsize
        cases h
        exact .idle (by simp [hphase, Phase.read, htype, hsize])
      · rename_i hsize
        have hread := @Reads.packet c.m_deviceName erased _ hlen htype (Nat.le_of_not_lt hsize)
        cases hd : isDesync s.m_rxBuffer.items with
        | true =>
          simp only [hd, if_true] at h hread
          cases h
          exact packet_spec hs hread ⟨rfl, rfl, rfl, .keep hwords rfl, rfl, rfl⟩
        | false =>
          simp only [hd, Bool.false_eq_true, if_false] at h hread
          cases h
          rw [← hphase] at hread
          exact packet_spec hs (hphase ▸ hread) ⟨rfl, rfl, rfl, id, by rw [hphase]; rfl, rfl⟩
    · rename_i h1
      split at h
      · rename_i h2
        cases h
        exact packet_spec hs (.bigHeader hlen h2) ⟨rfl, rfl, rfl, fun _ => .inl rfl, rfl, rfl⟩
      · rename_i h2
        cases h
        have hread : Reads c.m_deviceName erased s.m_rxBuffer.items (phase s) .failed 0 [] := by
          rw [hphase]; exact .badPacket hlen h1 h2
        exact ⟨.inl ⟨[], .skip hread rfl rfl rfl
          (fun h => absurd h (not_inHeader_of_failed rfl))
          (.keep hwords rfl) rfl⟩, fun h => Bool.noConfusion h⟩
  · rename_i hlen
    cases h
    exact .idle (by simp [hphase, Phase.read]; omega)

/-- The words a poll takes from a packet. -/
def wordsTaken (s : FPGAFirmwareUpdater φ) : Nat :=
  min s.m_bigWordLen.toNat (s.m_rxBuffer.items.length / 4)

theorem wordcount_toNat (s : FPGAFirmwareUpdater φ) :
    (if s.m_bigWordLen ≤ .ofNat (s.m_rxBuffer.items.length / 4) then s.m_bigWordLen
      else .ofNat (s.m_rxBuffer.items.length / 4)).toNat = wordsTaken s := by
  have hle : s.m_rxBuffer.items.length ≤ 4096 := s.m_rxBuffer.items_le
  have havail : (UInt32.ofNat (s.m_rxBuffer.items.length / 4)).toNat =
      s.m_rxBuffer.items.length / 4 := by
    rw [UInt32.toNat_ofNat']
    exact Nat.mod_eq_of_lt (by omega)
  unfold wordsTaken
  split
  · rename_i h
    rw [UInt32.le_iff_toNat_le, havail] at h
    omega
  · rename_i h
    rw [UInt32.le_iff_toNat_le, havail] at h
    omega

theorem settle_wordsTaken (hlen : 4 ≤ s.m_rxBuffer.items.length) :
    (bitFile c.m_deviceName erased).settle (.words s.m_bigWordLen.toNat) s.m_rxBuffer.items =
      ((bitFile c.m_deviceName erased).settle
        (if s.m_bigWordLen.toNat = wordsTaken s then .packets
          else .words (s.m_bigWordLen.toNat - wordsTaken s))
        (s.m_rxBuffer.items.drop (4 * wordsTaken s))).after
          (s.m_rxBuffer.items.take (4 * wordsTaken s)) := by
  by_cases hn : s.m_bigWordLen.toNat = 0
  · have hk : wordsTaken s = 0 := by rw [wordsTaken, hn, Nat.zero_min]
    rw [hn, hk, settle_read (.noWords hlen)]
    rfl
  · refine settle_words hn (Nat.min_le_left _ _) ?_
    have := Nat.min_le_right s.m_bigWordLen.toNat (s.m_rxBuffer.items.length / 4)
    rw [← wordsTaken] at this
    omega

theorem wordsTaken_le (s : FPGAFirmwareUpdater φ) : wordsTaken s ≤ s.m_bigWordLen.toNat :=
  Nat.min_le_left _ _

/-- What the check of the push adds to the log. -/
def overflowLog (ok : Bool) : List Action := if ok then [] else [.setState .FAILED]

/-- What a poll makes of a word or more of data: the push may fail either way,
and the packet may be complete or not. -/
theorem bigWrite_cases (hlen : 4 ≤ s.m_rxBuffer.items.length) (h : bigWrite s = (more, t, es)) :
    ∃ ok u fs, s.pushWrite (s.m_rxBuffer.items.take (4 * wordsTaken s)) = (ok, u, fs) ∧
      t.m_writeBuffer = u.m_writeBuffer ∧ t.m_wptr = s.m_wptr ∧
      t.m_rxBuffer.items = s.m_rxBuffer.items.drop (4 * wordsTaken s) ∧
      t.m_bigWordLen.toNat = s.m_bigWordLen.toNat - wordsTaken s ∧
      (s.m_bigWordLen.toNat = wordsTaken s ∧ more = true ∧ t.m_state = .BITSTREAM ∧
          es = fs ++ overflowLog ok ++ [.setState .BITSTREAM] ∨
        s.m_bigWordLen.toNat ≠ wordsTaken s ∧ more = false ∧
          t.m_state = (if ok then s.m_state else .FAILED) ∧ es = fs ++ overflowLog ok) := by
  unfold bigWrite at h
  dsimp only at h
  rw [if_pos hlen, wordcount_toNat] at h
  generalize hw : (if s.m_bigWordLen ≤ .ofNat (s.m_rxBuffer.items.length / 4) then s.m_bigWordLen
    else .ofNat (s.m_rxBuffer.items.length / 4)) = wordcount at h
  have hcount : wordcount.toNat = wordsTaken s := by rw [← hw]; exact wordcount_toNat s
  have hle := wordsTaken_le s
  have hleft : (s.m_bigWordLen - wordcount).toNat = s.m_bigWordLen.toNat - wordsTaken s := by
    rw [UInt32.toNat_sub_of_le _ _ (by rw [UInt32.le_iff_toNat_le, hcount]; exact hle), hcount]
  have hzero : s.m_bigWordLen - wordcount = 0 ↔ s.m_bigWordLen.toNat = wordsTaken s := by
    rw [← UInt32.toNat_inj, hleft, UInt32.toNat_zero]
    omega
  have hrx := pushWrite_m_rxBuffer s (s.m_rxBuffer.items.take (4 * wordsTaken s))
  have hwptr := pushWrite_m_wptr s (s.m_rxBuffer.items.take (4 * wordsTaken s))
  have hbig := pushWrite_m_bigWordLen s (s.m_rxBuffer.items.take (4 * wordsTaken s))
  have hstate := pushWrite_m_state s (s.m_rxBuffer.items.take (4 * wordsTaken s))
  rcases hp : s.pushWrite (s.m_rxBuffer.items.take (4 * wordsTaken s)) with ⟨ok, u, fs⟩
  rw [hp] at h hrx hwptr hbig hstate
  dsimp only at h hrx hwptr hbig hstate
  refine ⟨ok, u, fs, rfl, ?_⟩
  cases ok with
  | true =>
    simp only [if_true, hbig, hzero] at h
    split at h
    · rename_i hdone
      cases h
      exact ⟨rfl, hwptr, by simp [setState, popRx, hrx], hleft,
        .inl ⟨hdone, rfl, rfl, rfl⟩⟩
    · rename_i hdone
      cases h
      exact ⟨rfl, hwptr, by simp [popRx, hrx], hleft, .inr ⟨hdone, rfl, hstate, rfl⟩⟩
  | false =>
    simp only [Bool.false_eq_true, if_false, setState, hbig, hzero] at h
    split at h
    · rename_i hdone
      cases h
      exact ⟨rfl, hwptr, by simp [popRx, hrx], hleft, .inl ⟨hdone, rfl, rfl, rfl⟩⟩
    · rename_i hdone
      cases h
      exact ⟨rfl, hwptr, by simp [popRx, hrx], hleft, .inr ⟨hdone, rfl, rfl, rfl⟩⟩

theorem bigWrite_spec (hs : s.m_state = .BIG_WRITE) (h : bigWrite s = (more, t, es)) :
    PollSpec F c fuel erased s more t es := by
  have hphase : phase s = .words s.m_bigWordLen.toNat := by simp [phase, hs]
  by_cases hlen : 4 ≤ s.m_rxBuffer.items.length
  · obtain ⟨ok, u, fs, hp, hwb, hwptr, hrx, hbig, hcase⟩ := bigWrite_cases hlen h
    have hw : written fs = [] := by
      have := written_pushWrite s (s.m_rxBuffer.items.take (4 * wordsTaken s))
      rwa [hp] at this
    have hfs : ∀ e ∈ (s.pushWrite (s.m_rxBuffer.items.take (4 * wordsTaken s))).2.2, e ∈ es := by
      rw [hp]
      rcases hcase with ⟨-, -, -, rfl⟩ | ⟨-, -, -, rfl⟩
      · simp +contextual
      · simp +contextual
    have hwrites : written es = [] := by
      rcases hcase with ⟨-, -, -, rfl⟩ | ⟨-, -, -, rfl⟩
      · cases ok <;> simp [overflowLog, hw]
      · cases ok <;> simp [overflowLog, hw]
    have hpushed : t.m_writeBuffer =
        (s.pushWrite (s.m_rxBuffer.items.take (4 * wordsTaken s))).2.1.m_writeBuffer := by
      rw [hp]; exact hwb
    rcases hcase with ⟨hdone, rfl, hst, -⟩ | ⟨hdone, rfl, hst, hes⟩
    · refine ⟨.inl ⟨_, .push rfl hpushed hfs hwptr ?_ ?_ hwrites ?_⟩, fun h => Bool.noConfusion h⟩
      · simp [phase, hst, Phase.inImage]
      · exact fun _ => .inr (UInt32.toNat_inj.mp (by rw [hbig, hdone, Nat.sub_self]; rfl))
      · rw [hphase, settle_wordsTaken hlen, if_pos hdone, hrx]
        simp [phase, hst]
    · cases ok with
      | true =>
        have hst : t.m_state = .BIG_WRITE := by rw [hst, if_pos rfl, hs]
        refine ⟨.inl ⟨_, .push rfl hpushed hfs hwptr ?_ (fun _ => .inl hst) hwrites ?_⟩, fun _ => ?_⟩
        · simp [phase, hst, Phase.inImage]
        · rw [hphase, settle_wordsTaken hlen, if_neg hdone, hrx, ← hbig]
          simp [phase, hst]
        · have hshort : t.m_rxBuffer.items.length < 4 := by
            rw [hrx, List.length_drop]
            unfold wordsTaken at hdone ⊢
            omega
          simp [phase, hst, Phase.read, hshort]
      | false =>
        obtain ⟨rfl, rfl, -⟩ := pushWrite_false hp
        have hst : t.m_state = .FAILED := hst
        refine ⟨.inr ⟨hwptr, hwrites, hwb, by simp [phase, hst],
          .inr (.inr (.inr ⟨hst, .inl ?_⟩))⟩, fun _ => by simp [phase, hst, Phase.read]⟩
        rw [hes]
        exact List.mem_cons_self
  · unfold bigWrite at h
    dsimp only at h
    rw [if_neg hlen] at h
    cases h
    exact .idle (by simp [hphase, Phase.read]; omega)

theorem process_spec {b : Bool}
    (herased : s.m_state = .READ_BITHDR_RECORDS →
      ∀ ok f fs, eraseOutcome F c fuel s.g_fpgaFlash = .ok (ok, f, fs) → ok = erased ∨ erased = true)
    (h : ProcessDataFromBuffer F c fuel s = .ok (b, t, es)) :
    PollSpec F c fuel erased s b t es := by
  unfold ProcessDataFromBuffer at h
  split at h
  · rename_i hs
    exact readBitHeader_spec hs (by simpa using h)
  · rename_i hs
    exact readBitHeaderRecords_spec hs (herased hs) h
  · rename_i hs
    obtain ⟨hout, -, hwait⟩ := syncWait_spec hs (Nat.le_refl _) (by simpa using h)
    exact ⟨.inl hout, hwait⟩
  · rename_i hs
    exact bitstream_spec hs (by simpa using h)
  · rename_i hs
    exact bigWrite_spec hs (by simpa using h)
  · rename_i hs
    cases h
    exact ⟨.inr ⟨rfl, rfl, rfl, by simp [phase, hs], .inl hs⟩,
      fun _ => by simp [phase, hs, Phase.read]⟩
  · rename_i hs
    cases h
    exact ⟨.inr ⟨rfl, rfl, rfl, by simp [phase, hs], .inr (.inl hs)⟩,
      fun _ => by simp [phase, hs, Phase.read]⟩

end

theorem pollOnce_ok {more : Bool} (h : pollOnce F c fuel s = .ok (more, t, es)) :
    ∃ u fs, ProcessDataFromBuffer F c fuel s = .ok (more, u, fs) ∧ t = (PushWriteData F u).1 ∧
      es = fs ++ (PushWriteData F u).2 := by
  unfold pollOnce at h
  split at h
  · cases h
  · rename_i u fs hu
    cases h
    exact ⟨u, fs, hu, rfl, rfl⟩

/-- During the `OnRxData` call with `data` the buffer is polled in state `t`. -/
def Polls (F : SpiFlash φ) (c : UpdaterConfig) (fuel : Nat) (s : FPGAFirmwareUpdater φ)
    (data : List UInt8) (t : FPGAFirmwareUpdater φ) : Prop :=
  ∃ q, s.m_rxBuffer.push data = some q ∧ Visits (pollOnce F c fuel) { s with m_rxBuffer := q } t

end EmbeddedPlatform.Fpga
