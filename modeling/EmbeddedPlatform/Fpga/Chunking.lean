import EmbeddedPlatform.Fpga.Containment
import EmbeddedPlatform.Fpga.Delivery

/-! # How a bit file is cut into calls

Two sessions that receive the same bytes in different pieces end alike, unless
one of them is cut at a place where the updater goes on too early: behind the
third or fourth of the five bytes that start the image. -/
namespace EmbeddedPlatform.Fpga

open Lib FPGAFirmwareUpdater

variable {φ : Type} {F : SpiFlash φ} {c : UpdaterConfig} {fuel : Nat}
  {s t : FPGAFirmwareUpdater φ} {es log : List Action} {more : Bool}

/-! ## Where a header may not be cut -/

/-- The header records break off behind the third or fourth byte of the record
that starts the image. -/
def cutsRecords (deviceName : List UInt8) (buf : List UInt8) : Bool :=
  if buf.length < 3 then false
  else if recordType buf = charE then decide (buf.length < 5)
  else if 3 + recordLen buf ≤ buf.length ∧ wrongDevice deviceName buf = false then
    cutsRecords deviceName (buf.drop (3 + recordLen buf))
  else false
termination_by buf.length
decreasing_by rw [List.length_drop]; omega

/-- The bytes received break off there. -/
def cutsHeader (deviceName : List UInt8) (received : List UInt8) : Bool :=
  received.take 13 == magic && cutsRecords deviceName (received.drop 13)

/-- No call of the session ends there. -/
def LeavesHeaderWhole (c : UpdaterConfig) (chunks : List (List UInt8)) : Prop :=
  ∀ pre, pre <+: chunks → cutsHeader c.m_deviceName pre.flatten = false

theorem cutsRecords_of_settle {deviceName buf rx out : List UInt8} {erased : Bool}
    (h : (bitFile deviceName erased).settle .records buf = ⟨.records, rx, out⟩)
    (htype : recordType rx = charE) (h3 : 3 ≤ rx.length) (h5 : rx.length < 5) :
    cutsRecords deviceName buf = true := by
  fun_induction cutsRecords deviceName buf generalizing out with
  | case1 buf hlen =>
    rw [settle_wait (by simp [Phase.read, hlen])] at h
    cases h
    omega
  | case2 buf hlen htype' =>
    by_cases hwhole : 5 ≤ buf.length
    · rw [settle_read (.image hwhole htype')] at h
      have hpast := @settle_past_records (buf.drop 5) deviceName erased
        (if erased then .sync else .failed) (by split <;> simp)
      exact absurd (congrArg Rest.state h) hpast
    · simpa using hwhole
  | case3 buf hlen htype' hrecord ih =>
    rw [settle_read (.record hrecord.1 htype'), hrecord.2] at h
    exact ih h
  | case4 buf hlen htype' hrecord =>
    by_cases hwhole : 3 + recordLen buf ≤ buf.length
    · have hwrong : wrongDevice deviceName buf = true := by
        simpa [hwhole] using hrecord
      rw [settle_read (.record hwhole htype'), hwrong] at h
      simp [Rest.after] at h
    · rw [settle_wait (by simp [Phase.read, htype']; omega)] at h
      cases h
      exact absurd htype htype'

theorem cutsHeader_of_settle {deviceName received rx out : List UInt8} {erased : Bool}
    (h : (bitFile deviceName erased).settle .magic received = ⟨.records, rx, out⟩)
    (htype : recordType rx = charE) (h3 : 3 ≤ rx.length) (h5 : rx.length < 5) :
    cutsHeader deviceName received = true := by
  by_cases hlen : 13 ≤ received.length
  · by_cases hm : received.take 13 = Fpga.magic
    · rw [settle_read (.magic hlen hm)] at h
      simp only [cutsHeader, hm, beq_self_eq_true, Bool.true_and]
      exact cutsRecords_of_settle h htype h3 h5
    · rw [settle_read (.badMagic hlen hm)] at h
      simp [Rest.after] at h
  · rw [settle_wait (by simp [Phase.read]; omega)] at h
    cases h

variable {f : φ} {received data buf stored : List UInt8}

/-- The updater sees a header record too short only where the file is cut so. -/
theorem Ready.not_shortHeader (h : Ready F c fuel f received s log buf stored)
    (hcut : cutsHeader c.m_deviceName received = false) : ¬ ShortHeader s := by
  rintro ⟨hs, htype, h3, h5⟩
  have hphase : phase s = .records := by simp [phase, hs]
  have hbuf : buf = s.m_rxBuffer.items :=
    h.1.reads.resolve_right (by rintro (h | h) <;> cases hs.symm.trans h)
  have hwait : Phase.records.read c.m_deviceName (erases F c fuel f) s.m_rxBuffer.items = none := by
    simp [Phase.read, htype, h5]
  have hrest := h.1.rest
  rw [hphase, hbuf, sessionFile, settle_wait hwait] at hrest
  rw [cutsHeader_of_settle hrest htype h3 h5] at hcut
  cases hcut

/-! ## Sessions whose pushes and writes succeed -/

/-- No write that the call makes fails. -/
def CallSucceeds (F : SpiFlash φ) (c : UpdaterConfig) (fuel : Nat) (s : FPGAFirmwareUpdater φ)
    (data : List UInt8) : Prop :=
  ∀ t, Polls F c fuel s data t → ∀ more u es,
    ProcessDataFromBuffer F c fuel t = .ok (more, u, es) → WritesSucceed F u

/-- No write of a session fails, up to and with those of closing the device. -/
structure SessionSucceeds (F : SpiFlash φ) (c : UpdaterConfig) (fuel : Nat)
    (s : FPGAFirmwareUpdater φ) (chunks : List (List UInt8)) (t : FPGAFirmwareUpdater φ) :
    Prop where
  calls : AllSteps (receive F c fuel) (CallSucceeds F c fuel) (OnDeviceOpened c s).1 chunks
  close : CloseSucceeds F t

theorem receive_atRest (hw : F.GetMaxWriteBlockSize.toNat ≤ 512)
    (hs : AtRest F c fuel f received s log)
    (hcut : cutsHeader c.m_deviceName (received ++ data) = false)
    (hwrites : CallSucceeds F c fuel s data) (h : receive F c fuel s data = .ok (t, es)) :
    .pushFailed ∈ es ∨ AtRest F c fuel f (received ++ data) t (log ++ es) := by
  unfold receive OnRxData at h
  split at h
  · cases h
    exact .inl (by simp)
  · rename_i q hq
    have hpoll : ∀ s l more t es,
        (.pushFailed ∈ l ∨ ∃ buf stored, Ready F c fuel f (received ++ data) s (log ++ l) buf stored) →
        (∀ more u es, ProcessDataFromBuffer F c fuel s = .ok (more, u, es) → WritesSucceed F u) →
        pollOnce F c fuel s = .ok (more, t, es) →
        .pushFailed ∈ l ++ es ∨ ∃ buf stored,
          Ready F c fuel f (received ++ data) t (log ++ (l ++ es)) buf stored ∧
            (more = false → (phase t).read c.m_deviceName (erases F c fuel f) buf = none) := by
      rintro s l more t es (hin | ⟨buf, stored, hready⟩) hC hb
      · exact .inl (List.mem_append_left _ hin)
      · obtain ⟨u, fs, hu, rfl, rfl⟩ := pollOnce_ok hb
        by_cases hno : .pushFailed ∈ fs
        · exact .inl (by simp [hno])
        · rw [← List.append_assoc log]
          exact .inr (poll_ready hready hu (pushWriteData_succeeds hw (hC _ _ _ hu))
            (hready.not_shortHeader hcut) hno)
    refine rounds_rule (l := [])
      (C := fun s => ∀ more u es, ProcessDataFromBuffer F c fuel s = .ok (more, u, es) →
        WritesSucceed F u)
      (J := fun s l => .pushFailed ∈ l ∨
        ∃ buf stored, Ready F c fuel f (received ++ data) s (log ++ l) buf stored)
      (Q := fun s l => .pushFailed ∈ l ∨ AtRest F c fuel f (received ++ data) s (log ++ l))
      ?_ ?_ (.inr ?_) (fun t ht => hwrites t ⟨q, hq, ht⟩) h
    · intro s l t es hJ hC hb
      exact (hpoll s l true t es hJ hC hb).imp_right fun ⟨buf, stored, hready, _⟩ =>
        ⟨buf, stored, hready⟩
    · intro s l t es hJ hC hb
      exact (hpoll s l false t es hJ hC hb).imp_right fun ⟨_, _, hready, hwait⟩ =>
        hready.atRest (hwait rfl)
    · rw [List.append_nil]
      exact hs.extend hq

theorem session_atRest (hw : F.GetMaxWriteBlockSize.toNat ≤ 512)
    {chunks : List (List UInt8)} (hcut : LeavesHeaderWhole c chunks)
    (hcalls : AllSteps (receive F c fuel) (CallSucceeds F c fuel) (OnDeviceOpened c s).1 chunks)
    (hr : run (receive F c fuel) (OnDeviceOpened c s).1 chunks = .ok (t, log))
    (hno : .pushFailed ∉ log) : AtRest F c fuel s.g_fpgaFlash chunks.flatten t log := by
  have hJ := run_rule (C := CallSucceeds F c fuel) (l := []) (b := [])
    (J := fun t log chunks => .pushFailed ∈ log ∨
      (∃ pre, pre <+: chunks ∧ cutsHeader c.m_deviceName pre.flatten = true) ∨
        AtRest F c fuel s.g_fpgaFlash chunks.flatten t log)
    (fun t log chunks data u es hJ hC ht => by
      rcases hJ with hin | ⟨pre, hpre, hcut⟩ | hrest
      · exact .inl (List.mem_append_left _ hin)
      · exact .inr (.inl ⟨pre, hpre.trans (List.prefix_append _ _), hcut⟩)
      · cases hcut : cutsHeader c.m_deviceName (chunks ++ [data]).flatten with
        | true => exact .inr (.inl ⟨_, List.prefix_refl _, hcut⟩)
        | false =>
          rw [List.flatten_append, List.flatten_singleton] at hcut ⊢
          rcases receive_atRest hw hrest hcut hC ht with hin | hrest
          · exact .inl (List.mem_append_right _ hin)
          · exact .inr (.inr hrest))
    (.inr (.inr (opened_atRest F c fuel s))) hcalls hr
  simp only [List.nil_append] at hJ
  rcases hJ with hin | ⟨pre, hpre, hcuts⟩ | hrest
  · exact absurd hin hno
  · cases (hcut pre hpre).symm.trans hcuts
  · exact hrest

/-! ## Flash whose blocks are too large -/

theorem written_pushWriteData_big (hw : 512 < F.GetMaxWriteBlockSize.toNat)
    (s : FPGAFirmwareUpdater φ) : written (PushWriteData F s).2 = [] := by
  unfold PushWriteData
  split
  · rfl
  · rfl

theorem process_m_bigWordLen (hs : s.m_state = .READ_BITHDR ∨ s.m_state = .FAILED)
    (h : ProcessDataFromBuffer F c fuel s = .ok (more, t, es)) :
    t.m_bigWordLen = s.m_bigWordLen := by
  rcases hs with hs | hs
  · simp only [ProcessDataFromBuffer, hs] at h
    have h : readBitHeader s = (more, t, es) := by simpa using h
    unfold readBitHeader at h
    split at h
    · split at h
      · cases h; rfl
      · cases h; rfl
    · cases h; rfl
  · rw [process_finished (.inr hs)] at h
    cases h
    rfl

/-- Nothing is read or written for such a flash. -/
def Refused (s : FPGAFirmwareUpdater φ) (log : List Action) : Prop :=
  s.m_state = .FAILED ∧ s.m_bigWordLen = 0 ∧ written log = []

theorem pollOnce_refused (hw : 512 < F.GetMaxWriteBlockSize.toNat)
    (hs : (s.m_state = .READ_BITHDR ∨ s.m_state = .FAILED) ∧ s.m_bigWordLen = 0 ∧ written log = [])
    (h : pollOnce F c fuel s = .ok (more, t, es)) : Refused t (log ++ es) := by
  obtain ⟨hst, hbig, hlog⟩ := hs
  obtain ⟨u, fs, hu, rfl, rfl⟩ := pollOnce_ok h
  refine ⟨pushWriteData_big hw u, ?_, ?_⟩
  · rw [(pushWriteData_frame F u).2.1, process_m_bigWordLen hst hu, hbig]
  · rw [written_append, written_append, hlog, (process_budget hu).2, written_pushWriteData_big hw]
    rfl

theorem receive_refused (hw : 512 < F.GetMaxWriteBlockSize.toNat)
    (hs : (s.m_state = .READ_BITHDR ∨ s.m_state = .FAILED) ∧ s.m_bigWordLen = 0 ∧ written log = [])
    (h : receive F c fuel s data = .ok (t, es)) :
    .pushFailed ∈ es ∨ Refused t (log ++ es) := by
  unfold receive OnRxData at h
  split at h
  · cases h
    exact .inl (by simp)
  · rename_i q hq
    refine .inr (rounds_rule (C := fun _ => True) (Q := Refused)
      (J := fun s log => (s.m_state = .READ_BITHDR ∨ s.m_state = .FAILED) ∧
        s.m_bigWordLen = 0 ∧ written log = [])
      ?_ ?_ ?_ (fun _ _ => trivial) h)
    · intro s log t es hJ _ hb
      obtain ⟨hst, hrest⟩ := pollOnce_refused hw hJ hb
      exact ⟨.inr hst, hrest⟩
    · intro s log t es hJ _ hb
      exact pollOnce_refused hw hJ hb
    · exact hs

theorem session_refused (hw : 512 < F.GetMaxWriteBlockSize.toNat) {chunks : List (List UInt8)}
    (hne : chunks ≠ []) (hr : run (receive F c fuel) (OnDeviceOpened c s).1 chunks = .ok (t, log))
    (hno : .pushFailed ∉ log) : Refused t log := by
  have hJ := run_rule (C := fun _ _ => True) (l := []) (b := [])
    (J := fun t log chunks => .pushFailed ∈ log ∨
      (chunks = [] ∧ t.m_state = .READ_BITHDR ∧ t.m_bigWordLen = 0 ∧ written log = []) ∨
        Refused t log)
    (fun t log chunks data u es hJ _ ht => by
      rcases hJ with hin | ⟨-, hst, hrest⟩ | ⟨hst, hrest⟩
      · exact .inl (List.mem_append_left _ hin)
      · exact (receive_refused hw ⟨.inl hst, hrest⟩ ht).imp (List.mem_append_right _) .inr
      · exact (receive_refused hw ⟨.inr hst, hrest⟩ ht).imp (List.mem_append_right _) .inr)
    (.inr (.inl ⟨rfl, rfl, rfl, rfl⟩)) (allSteps_true _ _) hr
  simp only [List.nil_append] at hJ
  rcases hJ with hin | ⟨hnil, -⟩ | hrefused
  · exact absurd hin hno
  · exact absurd hnil hne
  · exact hrefused

/-! ## Two sessions -/

/-- The sessions end in the same state, and closing the device leaves the same
bytes written at the same addresses. -/
def EndsAlike (F : SpiFlash φ) (s₁ s₂ : FPGAFirmwareUpdater φ) (log₁ log₂ : List Action) : Prop :=
  s₁.m_state = s₂.m_state ∧ s₁.m_bigWordLen = s₂.m_bigWordLen ∧
    (OnDeviceClosed F s₁).1.m_state = (OnDeviceClosed F s₂).1.m_state ∧
    (OnDeviceClosed F s₁).1.m_bigWordLen = (OnDeviceClosed F s₂).1.m_bigWordLen ∧
    written (log₁ ++ (OnDeviceClosed F s₁).2) = written (log₂ ++ (OnDeviceClosed F s₂).2)

theorem close_failed (hs : s.m_state = .FAILED) : OnDeviceClosed F s = (s, []) := by
  unfold OnDeviceClosed FlushWriteData
  rw [if_pos hs]

/-- Closing writes what waits and changes nothing else. -/
theorem close_ready (hw : F.GetMaxWriteBlockSize.toNat ≤ 512)
    (hlen : s.m_writeBuffer.items.length < F.GetMaxWriteBlockSize.toNat)
    (hs : s.m_state ≠ .FAILED) (hclose : CloseSucceeds F s) :
    (OnDeviceClosed F s).1.m_state = s.m_state ∧
      (OnDeviceClosed F s).1.m_bigWordLen = s.m_bigWordLen ∧
      written (OnDeviceClosed F s).2 = place s.m_wptr s.m_writeBuffer.items := by
  have hok := writeVerify_succeeds (hclose hs).2
  rw [pushWriteData_short hw hlen] at hok
  unfold OnDeviceClosed FlushWriteData
  rw [if_neg hs, pushWriteData_short hw hlen]
  dsimp only
  rcases hv : writeVerify F s.m_writeBuffer.items.length s with ⟨ok, t, es⟩
  rw [hv] at hok
  obtain ⟨f, ⟨-, rfl, rfl⟩ | ⟨hfalse, -⟩⟩ := writeVerify_cases hv
  · simp
  · cases hok.symm.trans hfalse

theorem state_eq_of_phase {u : FPGAFirmwareUpdater φ} (h : phase s = phase u) (hs : CountsWords s)
    (hu : CountsWords u) : s.m_state = u.m_state ∧ s.m_bigWordLen = u.m_bigWordLen := by
  unfold CountsWords at hs hu
  unfold phase at h
  cases hst : s.m_state <;> cases hut : u.m_state <;> simp_all [UInt32.toNat_inj]

/-- Blocks written and a rest shorter than a block: the bytes stored say which is
which. -/
theorem StoredAs.unique {u : FPGAFirmwareUpdater φ} {log' : List Action}
    (h : StoredAs F c s log stored) (h' : StoredAs F c u log' stored)
    (hlen : s.m_writeBuffer.items.length < F.GetMaxWriteBlockSize.toNat)
    (hlen' : u.m_writeBuffer.items.length < F.GetMaxWriteBlockSize.toNat) :
    s.m_writeBuffer.items = u.m_writeBuffer.items ∧ s.m_wptr = u.m_wptr ∧
      written log = written log' := by
  obtain ⟨data, hstored, hwritten, hwptr, k, hk⟩ := h
  obtain ⟨data', hstored', hwritten', hwptr', k', hk'⟩ := h'
  have htotal := congrArg List.length hstored
  have htotal' := congrArg List.length hstored'
  rw [List.length_append, hk] at htotal
  rw [List.length_append, hk'] at htotal'
  have hblocks : stored.length / F.GetMaxWriteBlockSize.toNat = k := by
    rw [htotal, Nat.mul_add_div F.writeBlock_pos, Nat.div_eq_of_lt hlen, Nat.add_zero]
  have hblocks' : stored.length / F.GetMaxWriteBlockSize.toNat = k' := by
    rw [htotal', Nat.mul_add_div F.writeBlock_pos, Nat.div_eq_of_lt hlen', Nat.add_zero]
  have hsame : data.length = data'.length := by
    rw [hk, hk', ← hblocks, ← hblocks']
  obtain ⟨rfl, hwait⟩ := List.append_inj (hstored.symm.trans hstored') hsame
  exact ⟨hwait, hwptr.trans hwptr'.symm, hwritten.trans hwritten'.symm⟩

/-- What rests behind the same bytes ends alike. -/
theorem AtRest.endsAlike {u : FPGAFirmwareUpdater φ} {log' : List Action}
    (hw : F.GetMaxWriteBlockSize.toNat ≤ 512) (h : AtRest F c fuel f received s log)
    (h' : AtRest F c fuel f received u log') (hclose : CloseSucceeds F s)
    (hclose' : CloseSucceeds F u) : EndsAlike F s u log log' := by
  obtain ⟨buf, stored, ⟨hd, hlen⟩, hrest⟩ := h
  obtain ⟨buf', stored', ⟨hd', hlen'⟩, hrest'⟩ := h'
  have heq := hrest.symm.trans hrest'
  obtain rfl : stored = stored' := congrArg Rest.out heq
  obtain ⟨hst, hbig⟩ := state_eq_of_phase (congrArg Rest.state heq) hd.words hd'.words
  obtain ⟨hwait, hwptr, hwritten⟩ := hd.stores.unique hd'.stores hlen hlen'
  by_cases hs : s.m_state = .FAILED
  · rw [EndsAlike, close_failed hs, close_failed (hst.symm.trans hs), List.append_nil,
      List.append_nil]
    exact ⟨hst, hbig, hst, hbig, hwritten⟩
  · obtain ⟨hst₁, hbig₁, hclose₁⟩ := close_ready hw hlen hs hclose
    obtain ⟨hst₂, hbig₂, hclose₂⟩ := close_ready hw hlen' (by rwa [← hst]) hclose'
    refine ⟨hst, hbig, by rw [hst₁, hst₂, hst], by rw [hbig₁, hbig₂, hbig], ?_⟩
    rw [written_append, written_append, hclose₁, hclose₂, hwritten, hwptr, hwait]

theorem Refused.endsAlike {u : FPGAFirmwareUpdater φ} {log' : List Action} (h : Refused s log)
    (h' : Refused u log') : EndsAlike F s u log log' := by
  obtain ⟨hst, hbig, hwritten⟩ := h
  obtain ⟨hst', hbig', hwritten'⟩ := h'
  rw [EndsAlike, close_failed hst, close_failed hst', List.append_nil, List.append_nil,
    hst, hst', hbig, hbig', hwritten, hwritten']
  exact ⟨rfl, rfl, rfl, rfl, rfl⟩

theorem eq_nil_of_flatten {chunks : List (List UInt8)} (hne : [] ∉ chunks)
    (h : chunks.flatten = []) : chunks = [] := by
  cases chunks with
  | nil => rfl
  | cons chunk chunks =>
    obtain rfl := List.flatten_eq_nil_iff.mp h chunk List.mem_cons_self
    exact absurd List.mem_cons_self hne

/-- **Chunking independence.** Two sessions that start on the same contents and
receive the same bytes in whatever pieces end alike, if no push and no write of
theirs fails and no call ends inside the record that starts the image. A flash
whose blocks are too large is refused before that matters. -/
theorem chunking_independent (F : SpiFlash φ) (c : UpdaterConfig) (fuel : Nat)
    (u₁ u₂ s₁ s₂ : FPGAFirmwareUpdater φ) (chunks₁ chunks₂ : List (List UInt8))
    (log₁ log₂ : List Action) (hflash : u₁.g_fpgaFlash = u₂.g_fpgaFlash)
    (hsame : chunks₁.flatten = chunks₂.flatten) (hne₁ : [] ∉ chunks₁) (hne₂ : [] ∉ chunks₂)
    (hwhole₁ : F.GetMaxWriteBlockSize.toNat ≤ 512 → LeavesHeaderWhole c chunks₁)
    (hwhole₂ : F.GetMaxWriteBlockSize.toNat ≤ 512 → LeavesHeaderWhole c chunks₂)
    (hr₁ : run (receive F c fuel) (OnDeviceOpened c u₁).1 chunks₁ = .ok (s₁, log₁))
    (hr₂ : run (receive F c fuel) (OnDeviceOpened c u₂).1 chunks₂ = .ok (s₂, log₂))
    (hno₁ : .pushFailed ∉ log₁) (hno₂ : .pushFailed ∉ log₂)
    (hok₁ : SessionSucceeds F c fuel u₁ chunks₁ s₁)
    (hok₂ : SessionSucceeds F c fuel u₂ chunks₂ s₂) : EndsAlike F s₁ s₂ log₁ log₂ := by
  by_cases hw : F.GetMaxWriteBlockSize.toNat ≤ 512
  · have hrest₁ := session_atRest hw (hwhole₁ hw) hok₁.calls hr₁ hno₁
    have hrest₂ := session_atRest hw (hwhole₂ hw) hok₂.calls hr₂ hno₂
    rw [hsame, hflash] at hrest₁
    exact hrest₁.endsAlike hw hrest₂ hok₁.close hok₂.close
  · have hw : 512 < F.GetMaxWriteBlockSize.toNat := Nat.lt_of_not_le hw
    by_cases hnil : chunks₁ = []
    · have hnil₂ : chunks₂ = [] := eq_nil_of_flatten hne₂ (by rw [← hsame, hnil]; rfl)
      have hopened : (OnDeviceOpened c u₁).1 = (OnDeviceOpened c u₂).1 := by
        simp [OnDeviceOpened, hflash]
      rw [hnil, hopened] at hr₁
      rw [hnil₂] at hr₂
      cases hr₁
      cases hr₂
      exact ⟨rfl, rfl, rfl, rfl, rfl⟩
    · have hnil₂ : chunks₂ ≠ [] := fun h => hnil (eq_nil_of_flatten hne₁ (by rw [hsame, h]; rfl))
      exact (session_refused hw hnil hr₁ hno₁).endsAlike (session_refused hw hnil₂ hr₂ hno₂)

/-- On a chip as its contents every session succeeds. -/
theorem contentsFlash_sessionSucceeds {e w : UInt32} (he : 0 < e.toNat) (hw : 0 < w.toNat)
    (c : UpdaterConfig) (fuel : Nat) (s : FPGAFirmwareUpdater (UInt32 → UInt8))
    (chunks : List (List UInt8)) (t : FPGAFirmwareUpdater (UInt32 → UInt8)) :
    SessionSucceeds (contentsFlash e w he hw) c fuel s chunks t where
  calls := (allSteps_true _ chunks).imp fun _ _ _ _ _ _ _ _ _ _ _ hn =>
    contentsFlash_writeSucceeds he hw hn
  close _ := ⟨fun _ _ hn => contentsFlash_writeSucceeds he hw hn,
    contentsFlash_writeSucceeds he hw (Nat.le_refl _)⟩

theorem chunking_independent_short :
    ∃ s₁ s₂ log₁ log₂,
      run (receive sampleFlash sampleConfig 2) (OnDeviceOpened sampleConfig (.init 0 blankChip)).1
          [shortFile.take 7, shortFile.drop 7] = .ok (s₁, log₁) ∧
        run (receive sampleFlash sampleConfig 2) (OnDeviceOpened sampleConfig (.init 0 blankChip)).1
          [shortFile] = .ok (s₂, log₂) ∧
        s₁.m_state = .DONE ∧ EndsAlike sampleFlash s₁ s₂ log₁ log₂ := by
  obtain ⟨⟨s₁, log₁⟩, hr₁, hP₁⟩ := exists_of_returns
    (P := fun r : FPGAFirmwareUpdater (UInt32 → UInt8) × List Action =>
      decide (r.1.m_state = .DONE ∧ .pushFailed ∉ r.2))
    (r := run (receive sampleFlash sampleConfig 2)
      (OnDeviceOpened sampleConfig (.init 0 blankChip)).1 [shortFile.take 7, shortFile.drop 7])
    (by decide +kernel)
  obtain ⟨⟨s₂, log₂⟩, hr₂, hP₂⟩ := exists_of_returns
    (P := fun r : FPGAFirmwareUpdater (UInt32 → UInt8) × List Action => decide (.pushFailed ∉ r.2))
    (r := run (receive sampleFlash sampleConfig 2)
      (OnDeviceOpened sampleConfig (.init 0 blankChip)).1 [shortFile]) (by decide +kernel)
  obtain ⟨hdone, hno₁⟩ : s₁.m_state = .DONE ∧ .pushFailed ∉ log₁ := of_decide_eq_true hP₁
  have hno₂ : .pushFailed ∉ log₂ := of_decide_eq_true hP₂
  have hstart : cutsHeader sampleConfig.m_deviceName [] = false := by decide
  have hmagic : cutsHeader sampleConfig.m_deviceName (shortFile.take 7) = false := by decide
  have hfile : cutsHeader sampleConfig.m_deviceName shortFile = false := by
    simp [cutsHeader, cutsRecords, shortFile, magic, recordType, charE, g_syncword]
  refine ⟨s₁, s₂, log₁, log₂, hr₁, hr₂, hdone, ?_⟩
  refine chunking_independent sampleFlash sampleConfig 2 _ _ s₁ s₂
    [shortFile.take 7, shortFile.drop 7] [shortFile] log₁ log₂ rfl rfl (by decide) (by decide)
    ?_ ?_ hr₁ hr₂ hno₁ hno₂ (contentsFlash_sessionSucceeds ..) (contentsFlash_sessionSucceeds ..)
  · intro _ pre hpre
    rcases List.prefix_cons_iff.mp hpre with rfl | ⟨pre₁, rfl, hpre₁⟩
    · exact hstart
    · rcases List.prefix_cons_iff.mp hpre₁ with rfl | ⟨pre₂, rfl, hpre₂⟩
      · exact hmagic
      · rw [List.prefix_nil.mp hpre₂]
        exact hfile
  · intro _ pre hpre
    rcases List.prefix_cons_iff.mp hpre with rfl | ⟨pre₁, rfl, hpre₁⟩
    · exact hstart
    · rw [List.prefix_nil.mp hpre₁]
      exact hfile

/-- A call that ends behind the third byte of the record that starts the image:
the two bytes that follow are taken for the first of the image. -/
theorem header_cut :
    ∃ s₁ s₂ log₁ log₂,
      run (receive sampleFlash sampleConfig 2) (OnDeviceOpened sampleConfig (.init 0 blankChip)).1
          [shortFile.take 16, shortFile.drop 16] = .ok (s₁, log₁) ∧
        run (receive sampleFlash sampleConfig 2) (OnDeviceOpened sampleConfig (.init 0 blankChip)).1
          [shortFile] = .ok (s₂, log₂) ∧
        .pushFailed ∉ log₁ ∧ .pushFailed ∉ log₂ ∧
        SessionSucceeds sampleFlash sampleConfig 2 (.init 0 blankChip)
          [shortFile.take 16, shortFile.drop 16] s₁ ∧
        SessionSucceeds sampleFlash sampleConfig 2 (.init 0 blankChip) [shortFile] s₂ ∧
        ¬ EndsAlike sampleFlash s₁ s₂ log₁ log₂ := by
  obtain ⟨⟨s₁, log₁⟩, hr₁, hP₁⟩ := exists_of_returns
    (P := fun r : FPGAFirmwareUpdater (UInt32 → UInt8) × List Action =>
      decide (.pushFailed ∉ r.2 ∧
        (written (r.2 ++ (OnDeviceClosed sampleFlash r.1).2)).length = 16))
    (r := run (receive sampleFlash sampleConfig 2)
      (OnDeviceOpened sampleConfig (.init 0 blankChip)).1 [shortFile.take 16, shortFile.drop 16])
    (by decide +kernel)
  obtain ⟨⟨s₂, log₂⟩, hr₂, hP₂⟩ := exists_of_returns
    (P := fun r : FPGAFirmwareUpdater (UInt32 → UInt8) × List Action =>
      decide (.pushFailed ∉ r.2 ∧
        (written (r.2 ++ (OnDeviceClosed sampleFlash r.1).2)).length = 14))
    (r := run (receive sampleFlash sampleConfig 2)
      (OnDeviceOpened sampleConfig (.init 0 blankChip)).1 [shortFile]) (by decide +kernel)
  obtain ⟨hno₁, hlen₁⟩ : .pushFailed ∉ log₁ ∧
      (written (log₁ ++ (OnDeviceClosed sampleFlash s₁).2)).length = 16 := of_decide_eq_true hP₁
  obtain ⟨hno₂, hlen₂⟩ : .pushFailed ∉ log₂ ∧
      (written (log₂ ++ (OnDeviceClosed sampleFlash s₂).2)).length = 14 := of_decide_eq_true hP₂
  refine ⟨s₁, s₂, log₁, log₂, hr₁, hr₂, hno₁, hno₂, contentsFlash_sessionSucceeds ..,
    contentsFlash_sessionSucceeds .., fun halike => ?_⟩
  rw [halike.2.2.2.2, hlen₂] at hlen₁
  cases hlen₁

end EmbeddedPlatform.Fpga
