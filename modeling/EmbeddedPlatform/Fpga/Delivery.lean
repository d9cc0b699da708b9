import EmbeddedPlatform.Fpga.Polling

/-! # What becomes of the bytes received

A session opens the device and receives chunks. `Delivering` ties the updater to
the bit file received so far: what the file has for the flash is written, in
order from the start of the partition, or waits in the write buffer. It is kept
by every poll that stores what it takes. -/
namespace EmbeddedPlatform.Fpga

open Lib FPGAFirmwareUpdater

variable {φ : Type} {F : SpiFlash φ} {c : UpdaterConfig} {fuel : Nat}
  {s t : FPGAFirmwareUpdater φ} {es log : List Action} {more : Bool}

/-- `OnRxData` as the step of a session. -/
def receive (F : SpiFlash φ) (c : UpdaterConfig) (fuel : Nat) (s : FPGAFirmwareUpdater φ)
    (data : List UInt8) : Except Hang (FPGAFirmwareUpdater φ × List Action) :=
  OnRxData F c fuel data s

/-- Whether a chip can be erased for the image; a blank check that does not end
counts as yes. -/
def erases (F : SpiFlash φ) (c : UpdaterConfig) (fuel : Nat) (f : φ) : Bool :=
  match eraseOutcome F c fuel f with
  | .ok (ok, _) => ok
  | .error _ => true

/-- The bit file as a session finds it that starts on the chip `f`. -/
def sessionFile (F : SpiFlash φ) (c : UpdaterConfig) (fuel : Nat) (f : φ) :
    StreamMachine Phase UInt8 UInt8 :=
  bitFile c.m_deviceName (erases F c fuel f)

/-- The polls are over: nothing more is read from the buffer. -/
def Finished (s : FPGAFirmwareUpdater φ) : Prop := s.m_state = .DONE ∨ s.m_state = .FAILED

/-- `stored` is written in whole blocks from the start of the partition to
`m_wptr`, and the rest of it waits. -/
def StoredAs (F : SpiFlash φ) (c : UpdaterConfig) (s : FPGAFirmwareUpdater φ) (log : List Action)
    (stored : List UInt8) : Prop :=
  ∃ data, stored = data ++ s.m_writeBuffer.items ∧ written log = place c.m_imageOffset data ∧
    s.m_wptr = c.m_imageOffset + .ofNat data.length ∧ F.GetMaxWriteBlockSize.toNat ∣ data.length

/-- The updater has stored what `received` has for the flash up to where it
reads on in `buf`. -/
structure Delivering (F : SpiFlash φ) (c : UpdaterConfig) (fuel : Nat) (f : φ)
    (received : List UInt8) (s : FPGAFirmwareUpdater φ) (log : List Action)
    (buf stored : List UInt8) : Prop where
  reads : buf = s.m_rxBuffer.items ∨ Finished s
  rest : (sessionFile F c fuel f).settle .magic received =
    ((sessionFile F c fuel f).settle (phase s) buf).after stored
  stores : StoredAs F c s log stored
  header : inHeader s → s.m_writeBuffer.items = [] ∧ s.g_fpgaFlash = f
  words : CountsWords s

/-! ## Writing -/

/-- Unless it fails, `PushWriteData` moves waiting bytes to the flash. -/
theorem pushWriteData_stored (hst : (PushWriteData F s).1.m_state = s.m_state) {stored : List UInt8}
    (h : StoredAs F c s log stored) :
    StoredAs F c (PushWriteData F s).1 (log ++ (PushWriteData F s).2) stored := by
  by_cases hs : s.m_state = .FAILED
  · rw [pushWriteData_failed hs, List.append_nil]
    exact h
  have hrule : (PushWriteData F s).1.m_state = .FAILED ∨
      StoredAs F c (PushWriteData F s).1 (log ++ (PushWriteData F s).2) stored := by
    refine pushWriteData_rule (J := fun t l => t.m_state = .FAILED ∨ StoredAs F c t l stored)
      ?_ ?_ (.inr h)
    · intro t l _ _ _
      exact .inl rfl
    · rintro t l ok u es hJ ht _ hn hv
      obtain ⟨data, hstored, hwritten, hwptr, hdvd⟩ := hJ.resolve_left ht
      obtain ⟨f, ⟨rfl, rfl, rfl⟩ | ⟨rfl, rfl, rfl⟩⟩ := writeVerify_cases hv
      · have hlen := List.length_take_of_le hn
        refine .inr ⟨data ++ t.m_writeBuffer.items.take F.GetMaxWriteBlockSize.toNat, ?_, ?_, ?_, ?_⟩
        · simp [afterBlock, hstored]
        · simp [hwritten, place_append, hwptr]
        · simp only [afterBlock, if_true, hwptr, List.length_append, hlen, UInt32.ofNat_add,
            UInt32.ofNat_toNat, UInt32.add_assoc]
        · rw [List.length_append, hlen]
          exact Nat.dvd_add hdvd (Nat.dvd_refl _)
      · exact .inl rfl
  exact hrule.resolve_left fun hfail => hs (hst.symm.trans hfail)

variable {f : φ} {received buf stored : List UInt8}

theorem Finished.phase (h : Finished s) : phase s = .done ∨ phase s = .failed := by
  rcases h with h | h
  · exact .inl (by simp [Fpga.phase, h])
  · exact .inr (by simp [Fpga.phase, h])

theorem pushWriteData_le (hst : (PushWriteData F s).1.m_state = s.m_state)
    (hs : s.m_state ≠ .FAILED) : F.GetMaxWriteBlockSize.toNat ≤ 512 :=
  Nat.le_of_not_lt fun hbig => hs (hst.symm.trans (pushWriteData_big hbig s))

/-- So it keeps what has been delivered. -/
theorem Delivering.push (hst : (PushWriteData F s).1.m_state = s.m_state)
    (h : Delivering F c fuel f received s log buf stored) :
    Delivering F c fuel f received (PushWriteData F s).1 (log ++ (PushWriteData F s).2) buf stored := by
  obtain ⟨hrx, hbig, -⟩ := pushWriteData_frame F s
  have hstored := pushWriteData_stored hst h.stores
  have hphase : phase (PushWriteData F s).1 = phase s := by simp [phase, hst, hbig]
  refine ⟨?_, ?_, hstored, ?_, ?_⟩
  · rw [hrx, Finished, hst]; exact h.reads
  · rw [hphase]; exact h.rest
  · intro hin
    rw [inHeader, hst] at hin
    have hempty := (h.header hin).1
    have hw := pushWriteData_le hst (by rcases hin with hs | hs <;> rw [hs] <;> decide)
    rw [pushWriteData_short hw (by rw [hempty]; exact F.writeBlock_pos)]
    exact h.header hin
  · rw [CountsWords, hst, hbig]; exact h.words

/-- A poll that stores what it takes. -/
theorem Delivering.polled {out : List UInt8}
    (h : Delivering F c fuel f received s log s.m_rxBuffer.items stored)
    (hp : Polled (sessionFile F c fuel f) s t es out) (hno : .pushFailed ∉ es) :
    Delivering F c fuel f received t (log ++ es) t.m_rxBuffer.items (stored ++ out) := by
  obtain ⟨data, hstored, hwritten, hwptr, hdvd⟩ := h.stores
  refine ⟨.inl rfl, ?_, ⟨data, ?_, ?_, ?_, hdvd⟩, ?_, hp.words h.words⟩
  · rw [h.rest, hp.rest, Rest.after_after]
  · rw [hstored, hp.stored hno, List.append_assoc]
  · rw [written_append, hp.writes, List.append_nil, hwritten]
  · rw [hp.wptr, hwptr]
  · intro hin
    obtain ⟨hs, hflash⟩ := hp.flash hin
    obtain ⟨hwb, hf⟩ := h.header hs
    have hout : out = [] := hp.image.resolve_right fun him => not_inHeader_of_inImage him hin
    exact ⟨by rw [hp.stored hno, hwb, hout]; rfl, hflash.trans hf⟩

/-- A poll behind the end throws away what has been received since. -/
theorem Delivering.discard (h : Delivering F c fuel f received s log buf stored)
    (hs : Finished s) :
    Delivering F c fuel f received { s with m_rxBuffer := .empty } log buf stored :=
  ⟨.inr hs, h.rest, h.stores, h.header, h.words⟩

theorem process_finished (hs : Finished s) :
    ProcessDataFromBuffer F c fuel s = .ok (false, { s with m_rxBuffer := .empty }, []) := by
  unfold ProcessDataFromBuffer
  rcases hs with hs | hs
  · rw [hs]
  · rw [hs]

/-- What holds between two polls. -/
def Ready (F : SpiFlash φ) (c : UpdaterConfig) (fuel : Nat) (f : φ) (received : List UInt8)
    (s : FPGAFirmwareUpdater φ) (log : List Action) (buf stored : List UInt8) : Prop :=
  Delivering F c fuel f received s log buf stored ∧
    s.m_writeBuffer.items.length < F.GetMaxWriteBlockSize.toNat

/-- `ProcessDataFromBuffer` alone, when it stores what it takes. -/
theorem process_delivering (h : Ready F c fuel f received s log buf stored)
    (ht : ProcessDataFromBuffer F c fuel s = .ok (more, t, es))
    (hshort : ¬ ShortHeader s) (hno : .pushFailed ∉ es) :
    ∃ buf' stored', Delivering F c fuel f received t (log ++ es) buf' stored' ∧
      ((phase t).inImage = true ∨ t.m_writeBuffer.items.length < F.GetMaxWriteBlockSize.toNat) ∧
      (more = false → (phase t).read c.m_deviceName (erases F c fuel f) buf' = none) := by
  obtain ⟨hd, hlen⟩ := h
  by_cases hfin : Finished s
  · rw [process_finished hfin] at ht
    cases ht
    refine ⟨buf, stored, ?_, .inr hlen, fun _ => ?_⟩
    · rw [List.append_nil]; exact hd.discard hfin
    · have hphase : phase { s with m_rxBuffer := .empty } = phase s := rfl
      rcases hfin.phase with hp | hp
      · rw [hphase, hp]; rfl
      · rw [hphase, hp]; rfl
  · obtain rfl : buf = s.m_rxBuffer.items := hd.reads.resolve_right hfin
    have herased : s.m_state = .READ_BITHDR_RECORDS → ∀ ok g fs,
        eraseOutcome F c fuel s.g_fpgaFlash = .ok (ok, g, fs) → ok = erases F c fuel f := by
      intro hs ok g fs ho
      rw [(hd.header (.inr hs)).2] at ho
      simp [erases, ho]
    have hspec : PollSpec F c fuel (erases F c fuel f) s more t es :=
      process_spec (fun hs ok g fs ho => .inl (herased hs ok g fs ho)) ht
    rcases hspec.result with ⟨out, hp⟩ | hdrop
    · refine ⟨_, _, hd.polled hp hno, ?_, hspec.waits⟩
      rcases hp.image with rfl | him
      · have := hp.stored hno
        rw [List.append_nil] at this
        exact .inr (by rw [this]; exact hlen)
      · exact .inl him
    · rcases hdrop.cause with hs | hs | hs | ⟨-, hs | ⟨hs, htrue, g, fs, ho⟩⟩
      · exact absurd (.inl hs) hfin
      · exact absurd (.inr hs) hfin
      · exact absurd hs hshort
      · exact absurd hs hno
      · cases (herased hs _ _ _ ho).trans htrue

/-- A poll with the write behind it, if that does not fail. -/
theorem poll_ready (h : Ready F c fuel f received s log buf stored)
    (ht : ProcessDataFromBuffer F c fuel s = .ok (more, t, es))
    (hst : (PushWriteData F t).1.m_state = t.m_state)
    (hshort : ¬ ShortHeader s) (hno : .pushFailed ∉ es) :
    ∃ buf' stored',
      Ready F c fuel f received (PushWriteData F t).1 (log ++ (es ++ (PushWriteData F t).2))
        buf' stored' ∧
      (more = false →
        (phase (PushWriteData F t).1).read c.m_deviceName (erases F c fuel f) buf' = none) := by
  obtain ⟨buf', stored', hd, hlen, hwait⟩ := process_delivering h ht hshort hno
  obtain ⟨-, hbig, -⟩ := pushWriteData_frame F t
  have hphase : phase (PushWriteData F t).1 = phase t := by simp [phase, hst, hbig]
  refine ⟨buf', stored', ⟨?_, ?_⟩, by rw [hphase]; exact hwait⟩
  · rw [← List.append_assoc]; exact hd.push hst
  · rcases pushWriteData_drained F t with hfail | hshort
    · rw [hst] at hfail
      rw [pushWriteData_failed hfail]
      exact hlen.resolve_left (by simp [phase, hfail, Phase.inImage])
    · exact hshort

/-! ## Sessions -/

/-- What holds between two calls: as `Ready`, and nothing more can be read. -/
def AtRest (F : SpiFlash φ) (c : UpdaterConfig) (fuel : Nat) (f : φ) (received : List UInt8)
    (s : FPGAFirmwareUpdater φ) (log : List Action) : Prop :=
  ∃ buf stored, Ready F c fuel f received s log buf stored ∧
    (sessionFile F c fuel f).settle .magic received = ⟨phase s, buf, stored⟩

theorem opened_atRest (F : SpiFlash φ) (c : UpdaterConfig) (fuel : Nat)
    (s : FPGAFirmwareUpdater φ) :
    AtRest F c fuel s.g_fpgaFlash [] (OnDeviceOpened c s).1 [] := by
  have hwait : (sessionFile F c fuel s.g_fpgaFlash).settle .magic [] = ⟨.magic, [], []⟩ :=
    settle_wait rfl
  refine ⟨[], [], ⟨⟨.inl rfl, rfl, ⟨[], rfl, rfl, ?_, Nat.dvd_zero _⟩, fun _ => ⟨rfl, rfl⟩,
    .inr rfl⟩, F.writeBlock_pos⟩, hwait⟩
  simp [OnDeviceOpened]

/-- A chunk that fits into the receive buffer is read on from where the last one
stopped. -/
theorem AtRest.extend (h : AtRest F c fuel f received s log) {data : List UInt8} {q : CircularFIFO}
    (hq : s.m_rxBuffer.push data = some q) :
    ∃ buf stored,
      Ready F c fuel f (received ++ data) { s with m_rxBuffer := q } log buf stored := by
  obtain ⟨buf, stored, ⟨hd, hlen⟩, hrest⟩ := h
  have hitems := BoundedQueue.items_of_push hq
  refine ⟨buf ++ data, stored, ⟨?_, ?_, hd.stores, hd.header, hd.words⟩, hlen⟩
  · rcases hd.reads with hbuf | hfin
    · exact .inl (by rw [hbuf]; exact hitems.symm)
    · exact .inr hfin
  · rw [StreamMachine.settle_append, hrest]
    rfl

theorem Ready.atRest (h : Ready F c fuel f received s log buf stored)
    (hwait : (phase s).read c.m_deviceName (erases F c fuel f) buf = none) :
    AtRest F c fuel f received s log := by
  refine ⟨buf, stored, h, ?_⟩
  have hsettle : (sessionFile F c fuel f).settle (phase s) buf = ⟨phase s, buf, []⟩ :=
    settle_wait hwait
  rw [h.1.rest, hsettle]
  simp [Rest.after]

end EmbeddedPlatform.Fpga
