import EmbeddedPlatform.Fpga.Termination

/-! # Whether a failure lasts

Once the updater has failed it should stay failed and leave the flash alone
until the device is opened again. A latch that follows the log says what is
allowed, and the runs that keep to it are exactly those that avoid two paths on
which the source goes on after a failure. -/
namespace EmbeddedPlatform.Fpga

open Lib FPGAFirmwareUpdater

variable {φ : Type} {F : SpiFlash φ} {c : UpdaterConfig} {fuel : Nat}
  {s t : FPGAFirmwareUpdater φ} {es : List Action} {more : Bool}

/-- Set by a failure, cleared by `OnDeviceOpened`. -/
def latch (failed : Bool) : Action → Bool
  | .opened => false
  | .setState .FAILED => true
  | _ => failed

/-- Behind a failure the flash is not touched and no other state is entered. -/
def LatchAllows (failed : Bool) : Action → Prop
  | .EraseSector _ | .WriteData _ _ => failed = false
  | .setState st => failed = true → st = .FAILED
  | .opened | .pushFailed => True

/-- A poll that completes a type 2 packet whose last words do not fit into the
write buffer. -/
def OverflowsLast (s : FPGAFirmwareUpdater φ) : Prop :=
  s.m_state = .BIG_WRITE ∧ 4 ≤ s.m_rxBuffer.items.length ∧
    s.m_bigWordLen.toNat ≤ s.m_rxBuffer.items.length / 4 ∧
    BIT_RX_BUFFER_SIZE < s.m_writeBuffer.items.length + 4 * s.m_bigWordLen.toNat

/-! ## Logs with one failure at most -/

/-- No failure is logged and the updater has not failed, or one is logged last
and it has. -/
def LogsFailure (es : List Action) (t : FPGAFirmwareUpdater φ) : Prop :=
  (.setState .FAILED ∉ es ∧ t.m_state ≠ .FAILED) ∨
    ∃ pre, .setState .FAILED ∉ pre ∧ es = pre ++ [.setState .FAILED] ∧ t.m_state = .FAILED

theorem complies_of_no_failure (h : .setState .FAILED ∉ es) :
    Complies latch LatchAllows false es ∧ replay latch false es = false := by
  induction es with
  | nil => exact ⟨trivial, rfl⟩
  | cons e es ih =>
    obtain ⟨he, hes⟩ := not_or.mp (List.mem_cons.not.mp h)
    obtain ⟨hc, hr⟩ := ih hes
    have hnext : latch false e = false := by
      unfold latch
      split
      · rfl
      · exact absurd rfl he
      · rfl
    refine ⟨⟨?_, by rwa [hnext]⟩, by rwa [replay_cons, hnext]⟩
    unfold LatchAllows
    split
    · rfl
    · rfl
    · exact fun h => (nomatch h)
    · trivial
    · trivial

theorem LogsFailure.complies (h : LogsFailure es t) :
    Complies latch LatchAllows false es ∧
      replay latch false es = decide (t.m_state = .FAILED) := by
  rcases h with ⟨hno, ht⟩ | ⟨pre, hno, rfl, ht⟩
  · obtain ⟨hc, hr⟩ := complies_of_no_failure hno
    exact ⟨hc, by rw [hr, decide_eq_false ht]⟩
  · obtain ⟨hc, hr⟩ := complies_of_no_failure hno
    refine ⟨complies_append.mpr ⟨hc, ?_⟩, ?_⟩
    · rw [hr]; exact ⟨fun h => (nomatch h), trivial⟩
    · rw [replay_append, hr, decide_eq_true ht]; rfl

/-! ## A poll -/

theorem pushWrite_no_failure (s : FPGAFirmwareUpdater φ) (data : List UInt8) :
    .setState .FAILED ∉ (s.pushWrite data).2.2 := by
  rcases pushWrite_cases s data with ⟨q, hp, -⟩ | ⟨hp, -⟩
  · rw [hp]; simp
  · rw [hp]; simp

theorem eraseOutcome_no_failure {f g : φ} {ok : Bool}
    (h : eraseOutcome F c fuel f = .ok (ok, g, es)) : .setState .FAILED ∉ es := by
  intro he
  obtain ⟨ptr, hptr⟩ := eraseOutcome_log h _ he
  cases hptr

theorem readBitHeader_logs (hs : s.m_state = .READ_BITHDR) (h : readBitHeader s = (more, t, es)) :
    LogsFailure es t := by
  unfold readBitHeader at h
  split at h
  · split at h
    · cases h; exact .inr ⟨[], by simp, rfl, rfl⟩
    · cases h; exact .inl ⟨List.mem_singleton.not.mpr (by decide), by simp⟩
  · cases h; exact .inl ⟨by simp, by simp [hs]⟩

theorem readBitHeaderRecords_logs (hs : s.m_state = .READ_BITHDR_RECORDS)
    (h : readBitHeaderRecords F c fuel s = .ok (more, t, es)) : LogsFailure es t := by
  unfold readBitHeaderRecords at h
  dsimp only at h
  split at h
  · split at h
    · split at h
      · cases h
      · rename_i u fs he
        cases h
        obtain ⟨ok, f, gs, hout, ⟨-, rfl, rfl⟩ | ⟨-, rfl, rfl⟩⟩ := eraseFlashPartition_ok he
        · exact .inl ⟨by simpa [setState] using eraseOutcome_no_failure hout, by simp [setState]⟩
        · refine .inr ⟨.setState .SYNC_WAIT :: gs, ?_, rfl, rfl⟩
          simpa using eraseOutcome_no_failure hout
    · split at h
      · split at h
        · cases h; exact .inr ⟨[], by simp, rfl, rfl⟩
        · cases h; exact .inl ⟨by simp, by simp [popRx, hs]⟩
      · cases h; exact .inl ⟨by simp, by simp [hs]⟩
  · cases h; exact .inl ⟨by simp, by simp [hs]⟩

theorem syncWait_logs {n : Nat} (hs : s.m_state = .SYNC_WAIT) (h : syncWait n s = (more, t, es)) :
    .setState .FAILED ∉ es ∧ t.m_state ≠ .FAILED := by
  induction n generalizing s es with
  | zero => cases h; exact ⟨by simp, by simp [hs]⟩
  | succ n ih =>
    unfold syncWait at h
    dsimp only at h
    split at h
    · split at h
      · cases h
        refine ⟨?_, by simp [setState]⟩
        simpa [setState] using pushWrite_no_failure s _
      · rcases hr : syncWait n ((s.pushWrite (s.m_rxBuffer.items.take 1)).2.1.popRx 1)
          with ⟨more', u, fs⟩
        rw [hr] at h
        cases h
        obtain ⟨hno, ht⟩ := ih (by simpa [popRx] using hs) hr
        refine ⟨?_, ht⟩
        rw [List.mem_append, not_or]
        exact ⟨pushWrite_no_failure s _, hno⟩
    · cases h; exact ⟨by simp, by simp [hs]⟩

theorem bitstream_logs (hs : s.m_state = .BITSTREAM) (h : bitstream s = (more, t, es)) :
    LogsFailure es t := by
  unfold bitstream at h
  dsimp only at h
  split at h
  · split at h
    · split at h
      · cases h; exact .inl ⟨by simp, by simp [hs]⟩
      · cases hd : isDesync s.m_rxBuffer.items with
        | true =>
          simp only [hd, if_true] at h
          cases h
          refine .inl ⟨?_, by simp [popRx, setState]⟩
          simpa [setState] using pushWrite_no_failure _ _
        | false =>
          simp only [hd, Bool.false_eq_true, if_false] at h
          cases h
          refine .inl ⟨?_, by simp [popRx, hs]⟩
          simpa using pushWrite_no_failure s _
    · split at h
      · cases h
        refine .inl ⟨?_, by simp [popRx, setState]⟩
        simpa [setState] using pushWrite_no_failure _ _
      · cases h; exact .inr ⟨[], by simp, rfl, rfl⟩
  · cases h; exact .inl ⟨by simp, by simp [hs]⟩

theorem bigWrite_logs (hs : s.m_state = .BIG_WRITE) (h : bigWrite s = (more, t, es)) :
    ¬ OverflowsLast s ∧ LogsFailure es t ∨
      OverflowsLast s ∧ ∃ pre, es = pre ++ [.setState .FAILED, .setState .BITSTREAM] := by
  by_cases hlen : 4 ≤ s.m_rxBuffer.items.length
  · obtain ⟨ok, u, fs, hp, -, -, -, -, hcase⟩ := bigWrite_cases hlen h
    have hno : .setState .FAILED ∉ fs := by
      have := pushWrite_no_failure s (s.m_rxBuffer.items.take (4 * wordsTaken s))
      rwa [hp] at this
    have hwords := Nat.min_le_right s.m_bigWordLen.toNat (s.m_rxBuffer.items.length / 4)
    rw [← wordsTaken] at hwords
    have htake : (s.m_rxBuffer.items.take (4 * wordsTaken s)).length = 4 * wordsTaken s :=
      List.length_take_of_le (by omega)
    rcases hcase with ⟨hdone, -, hst, rfl⟩ | ⟨hdone, -, hst, rfl⟩
    · cases ok with
      | true =>
        refine .inl ⟨?_, .inl ⟨by simpa [overflowLog] using hno, by simp [hst]⟩⟩
        rintro ⟨-, -, -, hfull⟩
        obtain ⟨-, q, -, hq⟩ := pushWrite_true hp
        have hle := q.items_le
        rw [hq, List.length_append, htake, ← hdone] at hle
        omega
      | false =>
        refine .inr ⟨⟨hs, hlen, by omega, ?_⟩, fs, by simp [overflowLog]⟩
        obtain ⟨-, -, hfull⟩ := pushWrite_false hp
        rwa [htake, ← hdone] at hfull
    · refine .inl ⟨?_, ?_⟩
      · rintro ⟨-, -, hle, -⟩
        exact hdone (Nat.min_eq_left hle).symm
      · cases ok with
        | true => exact .inl ⟨by simpa [overflowLog] using hno, by simp [hst, hs]⟩
        | false => exact .inr ⟨fs, hno, rfl, hst⟩
  · unfold bigWrite at h
    dsimp only at h
    rw [if_neg hlen] at h
    cases h
    exact .inl ⟨fun h => hlen h.2.1, .inl ⟨by simp, by simp [hs]⟩⟩

theorem not_overflowsLast (h : s.m_state ≠ .BIG_WRITE) : ¬ OverflowsLast s := fun ho => h ho.1

theorem process_logs (hs : s.m_state ≠ .FAILED)
    (h : ProcessDataFromBuffer F c fuel s = .ok (more, t, es)) :
    ¬ OverflowsLast s ∧ LogsFailure es t ∨
      OverflowsLast s ∧ ∃ pre, es = pre ++ [.setState .FAILED, .setState .BITSTREAM] := by
  unfold ProcessDataFromBuffer at h
  split at h
  · rename_i hst
    exact .inl ⟨not_overflowsLast (by simp [hst]), readBitHeader_logs hst (by simpa using h)⟩
  · rename_i hst
    exact .inl ⟨not_overflowsLast (by simp [hst]), readBitHeaderRecords_logs hst h⟩
  · rename_i hst
    exact .inl ⟨not_overflowsLast (by simp [hst]), .inl (syncWait_logs hst (by simpa using h))⟩
  · rename_i hst
    exact .inl ⟨not_overflowsLast (by simp [hst]), bitstream_logs hst (by simpa using h)⟩
  · rename_i hst
    exact bigWrite_logs hst (by simpa using h)
  · rename_i hst
    cases h
    exact .inl ⟨not_overflowsLast (by simp [hst]), .inl ⟨by simp, hs⟩⟩
  · rename_i hst
    exact absurd hst hs

/-- The latch tells whether the updater has failed. -/
def Latched (s : FPGAFirmwareUpdater φ) (failed : Bool) : Prop := failed = decide (s.m_state = .FAILED)

theorem process_complies {failed : Bool} (hl : Latched s failed)
    (h : ProcessDataFromBuffer F c fuel s = .ok (more, t, es)) :
    (Complies latch LatchAllows failed es ↔ ¬ OverflowsLast s) ∧
      (Complies latch LatchAllows failed es → Latched t (replay latch failed es)) := by
  by_cases hs : s.m_state = .FAILED
  · unfold ProcessDataFromBuffer at h
    rw [hs] at h
    cases h
    exact ⟨iff_of_true trivial (not_overflowsLast (by simp [hs])),
      fun _ => hl.trans (decide_eq_true hs)⟩
  · obtain rfl : failed = false := hl.trans (decide_eq_false hs)
    rcases process_logs hs h with ⟨hno, hlogs⟩ | ⟨hover, pre, rfl⟩
    · obtain ⟨hc, hr⟩ := hlogs.complies
      exact ⟨iff_of_true hc hno, fun _ => hr⟩
    · have hbad : ¬ Complies latch LatchAllows false
          (pre ++ [.setState .FAILED, .setState .BITSTREAM]) := by
        intro hc
        cases (complies_append.mp hc).2.2.1 rfl
      exact ⟨iff_of_false hbad (fun h => h hover), fun hc => absurd hc hbad⟩

theorem pushWriteData_complies {failed : Bool} (hl : Latched s failed) :
    Complies latch LatchAllows failed (PushWriteData F s).2 ∧
      Latched (PushWriteData F s).1 (replay latch failed (PushWriteData F s).2) := by
  have h := pushWriteData_rule (F := F) (s := s) (l := [])
    (J := fun t l => Complies latch LatchAllows failed l ∧ Latched t (replay latch failed l))
    (fun t l ⟨hc, hr⟩ ht _ => by
      have hr : replay latch failed l = false := hr.trans (decide_eq_false ht)
      refine ⟨complies_append.mpr ⟨hc, ?_⟩, by rw [replay_append, hr]; rfl⟩
      rw [hr]; exact ⟨fun h => (nomatch h), trivial⟩)
    (fun t l ok u es ⟨hc, hr⟩ ht _ _ hv => by
      have hr : replay latch failed l = false := hr.trans (decide_eq_false ht)
      obtain ⟨f, ⟨rfl, rfl, rfl⟩ | ⟨rfl, rfl, rfl⟩⟩ := writeVerify_cases hv
      · refine ⟨complies_append.mpr ⟨hc, by rw [hr]; exact ⟨rfl, trivial⟩⟩, ?_⟩
        rw [replay_append, hr]
        exact (decide_eq_false ht).symm
      · refine ⟨complies_append.mpr ⟨hc, ?_⟩, by rw [replay_append, hr]; rfl⟩
        rw [hr]; exact ⟨rfl, fun h => (nomatch h), trivial⟩)
    ⟨trivial, hl⟩
  simpa using h

/-! ## Operations -/

/-- Less than a block waits in the write buffer, unless the updater has failed. -/
def Drained (F : SpiFlash φ) (s : FPGAFirmwareUpdater φ) : Prop :=
  s.m_state = .FAILED ∨ s.m_writeBuffer.items.length < F.GetMaxWriteBlockSize.toNat

theorem pollOnce_complies {failed : Bool} (hl : Latched s failed)
    (h : pollOnce F c fuel s = .ok (more, t, es)) :
    (Complies latch LatchAllows failed es ↔ ¬ OverflowsLast s) ∧
      (Complies latch LatchAllows failed es →
        Latched t (replay latch failed es) ∧ Drained F t) := by
  obtain ⟨u, fs, hu, rfl, rfl⟩ := pollOnce_ok h
  obtain ⟨hiff, hkeep⟩ := process_complies hl hu
  rw [complies_append, replay_append]
  constructor
  · rw [← hiff]
    exact ⟨And.left, fun hc => ⟨hc, (pushWriteData_complies (hkeep hc)).1⟩⟩
  · rintro ⟨hc, -⟩
    exact ⟨(pushWriteData_complies (hkeep hc)).2, pushWriteData_drained F u⟩

/-- The operation does not run into one of the two paths on which the source
goes on after a failure: completing an overflowing packet, and flushing behind
a `PushWriteData` that refused the flash's block size. -/
def FailsCleanly (F : SpiFlash φ) (c : UpdaterConfig) (fuel : Nat) (s : FPGAFirmwareUpdater φ) :
    Op → Prop
  | .OnDeviceOpened => True
  | .OnRxData data => ∀ t, Polls F c fuel s data t → ¬ OverflowsLast t
  | .OnDeviceClosed => s.m_state = .FAILED ∨ F.GetMaxWriteBlockSize.toNat ≤ 512

theorem onRxData_complies {failed : Bool} {data : List UInt8}
    (hl : Latched s failed ∧ Drained F s) (h : OnRxData F c fuel data s = .ok (t, es)) :
    (Complies latch LatchAllows failed es ↔ FailsCleanly F c fuel s (.OnRxData data)) ∧
      (Complies latch LatchAllows failed es →
        Latched t (replay latch failed es) ∧ Drained F t) := by
  unfold OnRxData at h
  split at h
  · rename_i hpush
    cases h
    refine ⟨iff_of_true ⟨trivial, trivial⟩ ?_, fun _ => hl⟩
    rintro u ⟨q, hq, -⟩
    cases hpush.symm.trans hq
  · rename_i q hpush
    have hstart : Latched { s with m_rxBuffer := q } failed ∧ Drained F { s with m_rxBuffer := q } :=
      hl
    have hloop := @rounds_complies_iff _ _ _ _ (pollOnce F c fuel) .polling latch LatchAllows
      (fun s => ¬ OverflowsLast s) (fun s failed => Latched s failed ∧ Drained F s)
      (fun _ _ _ _ _ hl hb => (pollOnce_complies hl.1 hb).1)
      (fun _ _ _ _ _ hl hb => (pollOnce_complies hl.1 hb).2) _ _ _ _ _ hstart h
    refine ⟨hloop.1.trans ⟨?_, ?_⟩, hloop.2⟩
    · rintro hall u ⟨q', hq', hv⟩
      cases hpush.symm.trans hq'
      exact hall u hv
    · exact fun hclean u hv => hclean u ⟨q, hpush, hv⟩

theorem onDeviceClosed_complies {failed : Bool} (hl : Latched s failed ∧ Drained F s) :
    (Complies latch LatchAllows failed (OnDeviceClosed F s).2 ↔
        FailsCleanly F c fuel s .OnDeviceClosed) ∧
      (Complies latch LatchAllows failed (OnDeviceClosed F s).2 →
        Latched (OnDeviceClosed F s).1 (replay latch failed (OnDeviceClosed F s).2) ∧
          Drained F (OnDeviceClosed F s).1) := by
  obtain ⟨hlatch, hdrained⟩ := hl
  unfold OnDeviceClosed FlushWriteData
  split
  · rename_i hs
    exact ⟨iff_of_true trivial (.inl hs), fun _ => ⟨hlatch, hdrained⟩⟩
  · rename_i hs
    obtain rfl : failed = false := hlatch.trans (decide_eq_false hs)
    have hshort := hdrained.resolve_left hs
    by_cases hw : F.GetMaxWriteBlockSize.toNat ≤ 512
    · rw [pushWriteData_short hw hshort]
      dsimp only
      rcases hv : writeVerify F s.m_writeBuffer.items.length s with ⟨ok, t, es⟩
      obtain ⟨f, ⟨rfl, rfl, rfl⟩ | ⟨rfl, rfl, rfl⟩⟩ := writeVerify_cases hv
      · refine ⟨iff_of_true ⟨rfl, trivial⟩ (.inr hw), fun _ => ⟨hlatch, .inr ?_⟩⟩
        simpa using F.writeBlock_pos
      · exact ⟨iff_of_true ⟨rfl, fun h => (nomatch h), trivial⟩ (.inr hw),
          fun _ => ⟨rfl, .inl rfl⟩⟩
    · have hbig : PushWriteData F s = s.setState .FAILED := by
        rw [PushWriteData, if_neg hs, if_pos (Nat.lt_of_not_le hw)]
      have hbad : ¬ FailsCleanly F c fuel s .OnDeviceClosed := fun h => h.elim hs hw
      rw [hbig]
      dsimp only
      rcases hv : writeVerify F (s.setState .FAILED).1.m_writeBuffer.items.length
        (s.setState .FAILED).1 with ⟨ok, t, es⟩
      have hcalls : ∃ addr data rest, es = .WriteData addr data :: rest := by
        obtain ⟨f, ⟨-, -, rfl⟩ | ⟨-, -, rfl⟩⟩ := writeVerify_cases hv
        · exact ⟨_, _, _, rfl⟩
        · exact ⟨_, _, _, rfl⟩
      obtain ⟨addr, data, rest, rfl⟩ := hcalls
      have hviolates : ¬ Complies latch LatchAllows false
          ((s.setState .FAILED).2 ++ .WriteData addr data :: rest) := by
        intro hc
        cases hc.2.1
      exact ⟨iff_of_false hviolates hbad, fun hc => absurd hc hviolates⟩

theorem step_complies {failed : Bool} {op : Op} (hl : Latched s failed ∧ Drained F s)
    (h : step F c fuel s op = .ok (t, es)) :
    (Complies latch LatchAllows failed es ↔ FailsCleanly F c fuel s op) ∧
      (Complies latch LatchAllows failed es →
        Latched t (replay latch failed es) ∧ Drained F t) := by
  cases op with
  | OnDeviceOpened =>
    cases h
    exact ⟨iff_of_true ⟨trivial, trivial⟩ trivial, fun _ => ⟨rfl, .inr F.writeBlock_pos⟩⟩
  | OnRxData data => exact onRxData_complies hl h
  | OnDeviceClosed =>
    obtain ⟨rfl, rfl⟩ := ok_eq h
    exact onDeviceClosed_complies hl

theorem init_latched (F : SpiFlash φ) (m_wptr : UInt32) (g_fpgaFlash : φ) :
    Latched (.init m_wptr g_fpgaFlash) false ∧ Drained F (.init m_wptr g_fpgaFlash) :=
  ⟨rfl, .inr F.writeBlock_pos⟩

/-- The log keeps to the latch, and an updater that failed is still failed. -/
def FailureLasts (log : List Action) (s : FPGAFirmwareUpdater φ) : Prop :=
  Complies latch LatchAllows false log ∧ (replay latch false log = true → s.m_state = .FAILED)

/-- **When failures last.** In a run with any data and any flash a failure lasts
exactly when every operation fails cleanly. -/
theorem failure_lasts_iff (F : SpiFlash φ) (c : UpdaterConfig) (fuel : Nat) (m_wptr : UInt32)
    (g_fpgaFlash : φ) (ops : List Op) (s : FPGAFirmwareUpdater φ) (log : List Action)
    (hr : run (step F c fuel) (.init m_wptr g_fpgaFlash) ops = .ok (s, log)) :
    FailureLasts log s ↔
      AllSteps (step F c fuel) (FailsCleanly F c fuel) (.init m_wptr g_fpgaFlash) ops := by
  obtain ⟨hiff, hkeep⟩ := run_complies_iff
    (J := fun s failed => Latched s failed ∧ Drained F s) (C := FailsCleanly F c fuel)
    (fun _ _ _ _ _ hl hs => (step_complies hl hs).1)
    (fun _ _ _ _ _ hl hs => (step_complies hl hs).2) (init_latched F m_wptr g_fpgaFlash) hr
  rw [← hiff]
  refine ⟨And.left, fun hc => ⟨hc, fun hfailed => ?_⟩⟩
  exact of_decide_eq_true ((hkeep hc).1.symm.trans hfailed)

/-! ## A packet that fills the write buffer -/

/-- The header of a bit file, the sync word and the header of a type 2 packet
of 1024 words. -/
def bigPacketHeader : List UInt8 :=
  magic ++ [charE, 0, 0, 0, 0] ++ g_syncword ++ [0x40, 0x00, 0x04, 0x00]

/-- A file that is not a bit file. -/
theorem failure_lasts_bad_magic :
    ∃ s log, run (step sampleFlash sampleConfig 2) (.init 0 blankChip)
        [.OnRxData (List.replicate 13 0x20), .OnDeviceClosed] = .ok (s, log) ∧
      (FailureLasts log s ↔ AllSteps (step sampleFlash sampleConfig 2)
        (FailsCleanly sampleFlash sampleConfig 2) (.init 0 blankChip)
        [.OnRxData (List.replicate 13 0x20), .OnDeviceClosed]) := by
  obtain ⟨s, log, hr⟩ := run_total (J := fun _ => True)
    (fun s op _ => by
      obtain ⟨t, es, ht⟩ := step_total sampleFlash sampleConfig_ends s op
      exact ⟨t, es, ht, trivial⟩)
    (s := FPGAFirmwareUpdater.init 0 blankChip) trivial
    [Op.OnRxData (List.replicate 13 0x20), Op.OnDeviceClosed]
  exact ⟨s, log, hr, failure_lasts_iff sampleFlash sampleConfig 2 0 blankChip _ s log hr⟩

theorem bigPacketHeader_read :
    ∃ s es, step sampleFlash sampleConfig 2 (OnDeviceOpened sampleConfig (.init 0 blankChip)).1
        (.OnRxData bigPacketHeader) = .ok (s, es) ∧
      (s.m_state = .BIG_WRITE ∧ s.m_rxBuffer.items = [] ∧ s.m_bigWordLen = 1024 ∧
        s.m_writeBuffer.items.length = 8 ∧ replay latch false (.opened :: es) = false) := by
  obtain ⟨⟨s, es⟩, hs, hP⟩ := exists_of_returns
    (P := fun r : FPGAFirmwareUpdater (UInt32 → UInt8) × List Action =>
      decide (r.1.m_state = .BIG_WRITE ∧ r.1.m_rxBuffer.items = [] ∧ r.1.m_bigWordLen = 1024 ∧
        r.1.m_writeBuffer.items.length = 8 ∧ replay latch false (.opened :: r.2) = false))
    (r := step sampleFlash sampleConfig 2 (OnDeviceOpened sampleConfig (.init 0 blankChip)).1
      (.OnRxData bigPacketHeader)) (by decide +kernel)
  exact ⟨s, es, hs, of_decide_eq_true hP⟩

/-- The data of the packet arrives in one piece, does not fit behind the eight
bytes waiting, and the failure is forgotten at once. -/
theorem overflow_forgotten :
    ∃ s log, run (step sampleFlash sampleConfig 2) (.init 0 blankChip)
        [.OnDeviceOpened, .OnRxData bigPacketHeader, .OnRxData (List.replicate 4096 0)] =
          .ok (s, log) ∧ ¬ FailureLasts log s := by
  obtain ⟨s, es, hs, hst, hrx, hbig, hwb, hlatch⟩ := bigPacketHeader_read
  obtain ⟨t, fs, ht⟩ := onRxData_total sampleFlash sampleConfig_ends s (List.replicate 4096 0)
  refine ⟨t, _, run_cons_of_ok rfl (run_cons_of_ok hs (run_cons_of_ok ht rfl)), ?_⟩
  rintro ⟨hc, -⟩
  have hl : Latched s false ∧ Drained sampleFlash s :=
    ⟨(decide_eq_false (by rw [hst]; decide)).symm, .inr (by rw [hwb]; decide)⟩
  have hfs : Complies latch LatchAllows false fs := by
    have h₂ := (complies_append.mp (complies_append.mp hc).2).2
    rw [List.append_nil, ← replay_append] at h₂
    exact hlatch ▸ h₂
  obtain ⟨q, hq, hitems⟩ := @BoundedQueue.push_of_fits _ _ s.m_rxBuffer (List.replicate 4096 0)
    (by rw [hrx, List.length_replicate]; exact Nat.le_refl _)
  have hlen : q.items.length = 4096 := by
    rw [hitems, hrx, List.nil_append, List.length_replicate]
  refine (onRxData_complies hl ht).1.mp hfs _ ⟨q, hq, .start _⟩ ⟨hst, ?_, ?_, ?_⟩
  · rw [hlen]; decide
  · rw [hlen, hbig]; decide
  · rw [hwb, hbig]; decide

end EmbeddedPlatform.Fpga
