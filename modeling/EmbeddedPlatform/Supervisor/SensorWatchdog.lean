import Mathlib.Data.List.DropRight
import EmbeddedPlatform.Supervisor.SensorIntegrity

/-! # The timeout of the rotation

`iLastUpdate` counts the calls since a reading of the first four states has been
completed. Those of the other states do not clear it, so that the time they take
is added up. -/
namespace EmbeddedPlatform.Supervisor
open EmbeddedPlatform.Lib

/-! ## A run, call by call -/

/-- The state that a call finds, and what it is told. -/
structure SensorCall where
  state : SensorPolling
  answers : SensorAnswers

namespace SensorCall

def log (b : SensorBuild) (c : SensorCall) : List SensorEvent :=
  let (ret, _, es) := c.state.PollIBCSensors b c.answers
  es ++ if ret then [.ReturnTrue] else []

def Resets (b : SensorBuild) (c : SensorCall) : Prop := .Reset ∈ c.log b

def Updates (b : SensorBuild) (c : SensorCall) : Prop :=
  ∃ sensor value, .Assign sensor value ∈ c.log b

end SensorCall

/-- How many calls without an update it takes. -/
def maxCalls : Nat := 30000

/-- The bus is reset only if none of the last calls has updated a sensor. -/
def Watchful (b : SensorBuild) (calls : List SensorCall) : Prop :=
  ∀ before c after, calls = before ++ c :: after → c.Resets b →
    maxCalls ≤ before.length ∧ ∀ d ∈ before.rtake maxCalls, ¬ d.Updates b

/-- A bus that keeps completing readings is never reset. -/
theorem Watchful.not_resets {b : SensorBuild} {calls before after : List SensorCall} {c : SensorCall}
    (h : Watchful b calls) (hcalls : calls = before ++ c :: after)
    (halive : ∃ d ∈ before.rtake maxCalls, d.Updates b) : ¬ c.Resets b := by
  intro hreset
  obtain ⟨d, hd, hupdates⟩ := halive
  exact (h before c after hcalls hreset).2 d hd hupdates

/-! ## One call -/

/-- The reader has got the first byte and the second one is there. -/
def Reader.ends (a : SensorAnswers) (r : Reader) : Bool :=
  r.m_state == .STATE_DATA_HI && a.IsReadReady

theorem Reader.readNonblocking_isSome (address regid : UInt8) (a : SensorAnswers) (r : Reader) :
    (r.ReadNonblocking address regid a).1.isSome = r.ends a := by
  obtain ⟨m_state, m_tmpval⟩ := r
  unfold ReadNonblocking Reader.ends
  cases m_state with
  | STATE_IDLE => rfl
  | STATE_ADDR_START => cases a.IsStartDone <;> rfl
  | STATE_REGID => cases a.IsWriteDone <;> rfl
  | STATE_DATA_LO | STATE_DATA_HI => cases a.IsReadReady <;> rfl

namespace SensorPolling

/-- The reading of the current state is completed. -/
def completes (b : SensorBuild) (a : SensorAnswers) (s : SensorPolling) : Bool :=
  match s.state with
  | 0 => s.tempreader.ends a
  | 1 | 2 | 3 | 4 | 5 | 6 | 7 => s.regreader.ends a
  | 8 => !b.STM32L431 || a.GetTemperatureNonblocking.isSome
  | 9 => true
  | _ => false

/-- What the rotation does to the count, and what it logs. -/
structure Counts (b : SensorBuild) (a : SensorAnswers) (s : SensorPolling) (o : Outcome) :
    Prop where
  iLastUpdate : o.2.1.iLastUpdate =
    if s.state < 4 ∧ s.completes b a = true then 0 else s.iLastUpdate
  updates : (∃ sensor value, .Assign sensor value ∈ o.2.2) ↔ s.completes b a = true
  noReset : .Reset ∉ o.2.2

section
variable {b : SensorBuild} {a : SensorAnswers} {s : SensorPolling}

theorem not_mem_of_onBus {es : List SensorEvent} (h : ∀ e ∈ es, e.OnBus) {e : SensorEvent}
    (he : ¬ e.OnBus) : e ∉ es := fun hmem => he (h e hmem)

/-- A reader counts as its reading does. -/
theorem counts_of_reads {source : UInt8 × UInt8} {r r' : Reader} {x : Option UInt16}
    {es : List SensorEvent} (hreads : r.Reads source (x, r', es))
    (hx : x.isSome = s.completes b a) (sensor : Sensor) {o : Outcome}
    (hwaits : x = none → o.2.1.iLastUpdate = s.iLastUpdate ∧ o.2.2 = es)
    (hends : ∀ y, x = some y → o.2.1.iLastUpdate = (if s.state < 4 then 0 else s.iLastUpdate) ∧
      o.2.2 = es ++ [.Assign sensor y]) : s.Counts b a o := by
  cases hreads with
  | waits hbus _ =>
    obtain ⟨hcount, hlog⟩ := hwaits rfl
    have hno : s.completes b a = false := hx.symm
    refine ⟨?_, ?_, ?_⟩
    · rw [hcount, if_neg (by simp [hno])]
    · rw [hlog, hno]
      refine ⟨fun ⟨sensor, value, he⟩ => ?_, fun hfalse => Bool.noConfusion hfalse⟩
      exact absurd he (not_mem_of_onBus hbus id)
    · rw [hlog]
      exact not_mem_of_onBus hbus id
  | @ends y _ _ _ _ hbus _ _ _ =>
    obtain ⟨hcount, hlog⟩ := hends y rfl
    have hyes : s.completes b a = true := hx.symm
    refine ⟨?_, ?_, ?_⟩
    · rw [hcount]
      simp only [hyes, and_true]
    · rw [hlog, hyes]
      exact ⟨fun _ => rfl, fun _ => ⟨sensor, y, by simp⟩⟩
    · rw [hlog, List.mem_append, List.mem_singleton]
      rintro (he | he)
      · exact not_mem_of_onBus hbus id he
      · cases he

theorem readTemp_counts (hs : s.state = 0) : s.Counts b a (s.readTemp a) := by
  have hreads := s.tempreader.readNonblocking_reads (g_tempI2cAddress, 0x00) a
  have hsome := s.tempreader.readNonblocking_isSome g_tempI2cAddress 0x00 a
  have hcompletes : s.completes b a = s.tempreader.ends a := by
    unfold completes
    rw [hs]
    rfl
  unfold readTemp Reader.ReadTempNonblocking
  rw [← hcompletes] at hsome
  generalize s.tempreader.ReadNonblocking g_tempI2cAddress 0x00 a = result at hreads hsome
  obtain ⟨x, r, es⟩ := result
  refine counts_of_reads hreads hsome .g_ibcTemp (fun hx => ?_) (fun y hx => ?_)
  · rw [hx]
    exact ⟨rfl, rfl⟩
  · rw [hx, hs]
    exact ⟨rfl, rfl⟩

theorem readRegister_counts {regid : UInt8} {sensor : Sensor} {updates : Bool}
    (hcompletes : s.completes b a = s.regreader.ends a) (hupdates : updates = decide (s.state < 4)) :
    s.Counts b a (s.readRegister regid sensor updates a) := by
  have hreads := s.regreader.readNonblocking_reads (g_ibcI2cAddress, regid) a
  have hsome := s.regreader.readNonblocking_isSome g_ibcI2cAddress regid a
  unfold readRegister Reader.ReadRegisterNonblocking
  rw [← hcompletes] at hsome
  generalize s.regreader.ReadNonblocking g_ibcI2cAddress regid a = result at hreads hsome
  obtain ⟨x, r, es⟩ := result
  refine counts_of_reads hreads hsome sensor (fun hx => ?_) (fun y hx => ?_)
  · rw [hx]
    exact ⟨rfl, rfl⟩
  · rw [hx, hupdates]
    refine ⟨?_, rfl⟩
    show (if decide (s.state < 4) = true then 0 else s.iLastUpdate) = _
    simp only [decide_eq_true_eq]

theorem measure_counts (hs : 4 ≤ s.state) (hcompletes : s.completes b a = true) (sensor : Sensor)
    (value : UInt16) : s.Counts b a (s.measure sensor value) := by
  refine ⟨?_, ?_, ?_⟩
  · rw [if_neg (by omega)]
    rfl
  · exact ⟨fun _ => hcompletes, fun _ => ⟨sensor, value, List.mem_singleton_self _⟩⟩
  · intro he
    cases List.mem_singleton.mp he

theorem quiet_counts {o : Outcome} (hcompletes : s.completes b a = false)
    (hcount : o.2.1.iLastUpdate = s.iLastUpdate) (hlog : o.2.2 = []) : s.Counts b a o := by
  refine ⟨?_, ?_, ?_⟩
  · rw [hcount, if_neg (by simp [hcompletes])]
  · rw [hlog, hcompletes]
    exact ⟨fun ⟨_, _, he⟩ => absurd he List.not_mem_nil, fun hfalse => Bool.noConfusion hfalse⟩
  · rw [hlog]
    exact List.not_mem_nil

/-- **What a state counts.** -/
theorem poll_counts (b : SensorBuild) (a : SensorAnswers) (s : SensorPolling) :
    s.Counts b a (s.poll b a) := by
  obtain ⟨regreader, tempreader, state, iLastUpdate, reading⟩ := s
  by_cases hs : state ≤ 9
  · interval_cases state
    · exact readTemp_counts rfl
    · exact readRegister_counts rfl rfl
    · exact readRegister_counts rfl rfl
    · exact readRegister_counts rfl rfl
    · exact readRegister_counts rfl rfl
    · exact readRegister_counts rfl rfl
    · exact readRegister_counts rfl rfl
    · exact readRegister_counts rfl rfl
    · unfold poll
      dsimp only
      by_cases hbuild : b.STM32L431 = true
      · rw [if_pos hbuild]
        cases hx : a.GetTemperatureNonblocking with
        | none =>
          refine quiet_counts ?_ rfl rfl
          unfold completes
          dsimp only
          rw [hbuild, hx]
          rfl
        | some x =>
          refine measure_counts (Nat.le_add_right 4 4) ?_ .g_mcutemp x
          unfold completes
          dsimp only
          rw [hbuild, hx]
          rfl
      · rw [if_neg hbuild]
        refine measure_counts (Nat.le_add_right 4 4) ?_ .g_mcutemp _
        unfold completes
        dsimp only
        rw [Bool.not_eq_true] at hbuild
        rw [hbuild]
        rfl
    · exact measure_counts (Nat.le_add_right 4 5) rfl .g_3v3Voltage _
  · obtain ⟨k, rfl⟩ := Nat.exists_eq_add_of_le' (Nat.lt_of_not_le hs)
    exact quiet_counts rfl rfl rfl

end

/-- The state after a call. -/
def after (b : SensorBuild) (s : SensorPolling) (a : SensorAnswers) : SensorPolling :=
  (s.PollIBCSensors b a).2.1

end SensorPolling

namespace SensorCall
open SensorPolling

variable {b : SensorBuild} {c : SensorCall}

theorem mem_log {e : SensorEvent} (he : e ≠ .ReturnTrue) :
    e ∈ c.log b ↔ e ∈ (c.state.PollIBCSensors b c.answers).2.2 := by
  have hlog : c.log b = (c.state.PollIBCSensors b c.answers).2.2 ++
      if (c.state.PollIBCSensors b c.answers).1 then [.ReturnTrue] else [] := rfl
  rw [hlog, List.mem_append]
  refine or_iff_left fun hmem => ?_
  cases hret : (c.state.PollIBCSensors b c.answers).1 with
  | true =>
    rw [hret] at hmem
    exact he (List.mem_singleton.mp hmem)
  | false =>
    rw [hret] at hmem
    exact absurd hmem List.not_mem_nil

theorem timeout_of_lt (h : c.state.iLastUpdate < maxCalls) :
    c.state.counted.timeout = (c.state.counted, []) :=
  if_neg (Nat.not_lt.mpr h)

/-- A call before the timeout. -/
theorem counts_of_lt (h : c.state.iLastUpdate < maxCalls) :
    ¬ c.Resets b ∧ (c.Updates b ↔ c.state.completes b c.answers = true) ∧
      (c.state.after b c.answers).iLastUpdate =
        if c.state.state < 4 ∧ c.state.completes b c.answers = true then 0
        else c.state.iLastUpdate + 1 := by
  have hcounts := poll_counts b c.answers c.state.counted
  have htimeout := timeout_of_lt h
  have hlog {e : SensorEvent} (he : e ≠ .ReturnTrue) :
      e ∈ c.log b ↔ e ∈ (c.state.counted.poll b c.answers).2.2 := by
    rw [mem_log he]
    show e ∈ c.state.counted.timeout.2 ++ (c.state.counted.timeout.1.poll b c.answers).2.2 ↔ _
    rw [htimeout, List.nil_append]
  have hafter : c.state.after b c.answers = (c.state.counted.poll b c.answers).2.1 := by
    show (c.state.counted.timeout.1.poll b c.answers).2.1 = _
    rw [htimeout]
  refine ⟨fun hreset => ?_, ?_, ?_⟩
  · exact hcounts.noReset ((hlog (by simp)).mp hreset)
  · unfold Updates
    simp only [hlog (e := .Assign _ _) (by simp)]
    exact hcounts.updates
  · rw [hafter]
    exact hcounts.iLastUpdate

/-- A call that finds the count at its end. -/
theorem counts_of_eq (h : c.state.iLastUpdate = maxCalls) :
    c.Resets b ∧ (c.state.after b c.answers).iLastUpdate = 0 := by
  let s := c.state.counted.timeout.1
  have htimeout : c.state.counted.timeout = (s, [.Reset]) ∧ s.state = 0 ∧ s.iLastUpdate = 0 ∧
      s.tempreader.m_state = .STATE_IDLE := by
    have hlt : 30000 < c.state.counted.iLastUpdate := by
      show maxCalls < c.state.iLastUpdate + 1
      omega
    have heq : c.state.counted.timeout = _ := if_pos hlt
    have hs : s = _ := congrArg Prod.fst heq
    rw [hs]
    exact ⟨heq, rfl, rfl, rfl⟩
  obtain ⟨heq, hstate, hcount, hidle⟩ := htimeout
  constructor
  · refine (mem_log (by simp)).mpr ?_
    show .Reset ∈ c.state.counted.timeout.2 ++ _
    rw [heq]
    exact List.mem_cons_self
  · have hcounts := (poll_counts b c.answers s).iLastUpdate
    rw [hcount, ite_self] at hcounts
    exact hcounts

/-- The call completes a reading that clears the count. -/
def Early (b : SensorBuild) (c : SensorCall) : Prop :=
  c.state.state < 4 ∧ c.state.completes b c.answers = true

/-- It completes one that does not. -/
def Late (b : SensorBuild) (c : SensorCall) : Prop :=
  4 ≤ c.state.state ∧ c.state.completes b c.answers = true

theorem updates_iff (h : c.state.iLastUpdate < maxCalls) : c.Updates b ↔ c.Early b ∨ c.Late b := by
  rw [(counts_of_lt h).2.1]
  unfold Early Late
  rw [← or_and_right]
  exact ⟨fun hc => ⟨Nat.lt_or_ge _ 4, hc⟩, And.right⟩

end SensorCall

/-! ## Runs -/

namespace SensorPolling

variable {b : SensorBuild}

/-- The calls of a run. -/
def calls (b : SensorBuild) : SensorPolling → List SensorAnswers → List SensorCall
  | _, [] => []
  | s, a :: as => ⟨s, a⟩ :: calls b (s.after b a) as

/-- The log of a run is what its calls log. -/
theorem run_calls (b : SensorBuild) (s : SensorPolling) (as : List SensorAnswers) :
    run (step b) s as = .ok (as.foldl (after b) s, (calls b s as).flatMap (SensorCall.log b)) := by
  induction as generalizing s with
  | nil => rfl
  | cons a as ih => exact run_cons_of_ok rfl (ih (s.after b a))

/-- The count is how many calls ago a reading was counted, or the bus reset. -/
structure SinceUpdate (b : SensorBuild) (before : List SensorCall) (s : SensorPolling) : Prop where
  le_max : s.iLastUpdate ≤ maxCalls
  le_length : s.iLastUpdate ≤ before.length
  since : ∀ d ∈ before.rtake s.iLastUpdate, d.state.iLastUpdate < maxCalls ∧ ¬ d.Early b

theorem sinceUpdate_zero {before : List SensorCall} {s : SensorPolling} (h : s.iLastUpdate = 0) :
    SinceUpdate b before s := by
  refine ⟨?_, ?_, ?_⟩
  · rw [h]
    exact Nat.zero_le _
  · rw [h]
    exact Nat.zero_le _
  · rw [h, List.rtake_zero]
    exact fun d hd => absurd hd List.not_mem_nil

/-- **Step lemma.** -/
theorem SinceUpdate.after {before : List SensorCall} {s : SensorPolling}
    (h : SinceUpdate b before s) (a : SensorAnswers) :
    SinceUpdate b (before ++ [⟨s, a⟩]) (s.after b a) := by
  let c : SensorCall := ⟨s, a⟩
  rcases Nat.lt_or_eq_of_le h.le_max with hlt | heq
  · have hcount := (SensorCall.counts_of_lt (b := b) (c := c) hlt).2.2
    by_cases hearly : c.Early b
    · exact sinceUpdate_zero (hcount.trans (if_pos hearly))
    · have hcount : (s.after b a).iLastUpdate = s.iLastUpdate + 1 := hcount.trans (if_neg hearly)
      refine ⟨?_, ?_, ?_⟩
      · rw [hcount]
        exact hlt
      · rw [hcount, List.length_append]
        exact Nat.succ_le_succ h.le_length
      · rw [hcount, List.rtake_concat_succ, List.forall_mem_append]
        exact ⟨h.since, List.forall_mem_singleton.mpr ⟨hlt, hearly⟩⟩
  · exact sinceUpdate_zero (SensorCall.counts_of_eq (b := b) (c := c) heq).2

theorem SinceUpdate.calls {before : List SensorCall} {s : SensorPolling} {as : List SensorAnswers}
    (h : SinceUpdate b before s) {front back : List SensorCall} {c : SensorCall}
    (hcalls : calls b s as = front ++ c :: back) : SinceUpdate b (before ++ front) c.state := by
  induction as generalizing before s front with
  | nil => exact absurd hcalls (by simp [SensorPolling.calls])
  | cons a as ih =>
    cases front with
    | nil =>
      obtain ⟨rfl, -⟩ := List.cons.inj hcalls
      rw [List.append_nil]
      exact h
    | cons d front =>
      obtain ⟨rfl, hrest⟩ := List.cons.inj hcalls
      rw [List.append_cons]
      exact ih (h.after a) hrest

/-- No reading that does not clear the count has been completed in the calls before
one that finds it at its end. -/
def NoneMissed (b : SensorBuild) (calls : List SensorCall) : Prop :=
  ∀ before c after, calls = before ++ c :: after → c.state.iLastUpdate = maxCalls →
    ∀ d ∈ before.rtake maxCalls, ¬ d.Late b

/-- **The watchdog is sound** in a run exactly when no reading was missed before a
timeout. The run logs what its calls log. -/
theorem watchful_iff (b : SensorBuild) (as : List SensorAnswers) :
    (∃ s, run (step b) .init as = .ok (s, (calls b .init as).flatMap (SensorCall.log b))) ∧
      (Watchful b (calls b .init as) ↔ NoneMissed b (calls b .init as)) := by
  refine ⟨⟨_, run_calls b .init as⟩, ?_⟩
  have hstart : SinceUpdate b [] .init := sinceUpdate_zero rfl
  have hsince {before after : List SensorCall} {c : SensorCall}
      (h : calls b .init as = before ++ c :: after) : SinceUpdate b before c.state :=
    hstart.calls h
  have hupdates {before after : List SensorCall} {c d : SensorCall}
      (h : calls b .init as = before ++ c :: after) (hmax : c.state.iLastUpdate = maxCalls)
      (hd : d ∈ before.rtake maxCalls) : d.Updates b ↔ d.Late b := by
    obtain ⟨hlt, hearly⟩ := (hsince h).since d (by rw [hmax]; exact hd)
    rw [SensorCall.updates_iff hlt]
    exact or_iff_right hearly
  constructor
  · intro hsound before c after h hmax d hd hlate
    have hreset := (SensorCall.counts_of_eq (b := b) hmax).1
    exact (hsound before c after h hreset).2 d hd ((hupdates h hmax hd).mpr hlate)
  · intro hnone before c after h hreset
    have hmax : c.state.iLastUpdate = maxCalls := by
      rcases Nat.lt_or_eq_of_le (hsince h).le_max with hlt | heq
      · exact absurd hreset (SensorCall.counts_of_lt hlt).1
      · exact heq
    refine ⟨?_, fun d hd hd' => ?_⟩
    · rw [← hmax]
      exact (hsince h).le_length
    · exact hnone before c after h hmax d hd ((hupdates h hmax hd).mp hd')

/-! ## A bus that is reset too soon -/

/-- The bus answers at once, and it hangs. -/
def prompt : SensorAnswers := ⟨true, true, true, 0, some 0, 0, 0⟩
def hung : SensorAnswers := ⟨false, false, false, 0, none, 0, 0⟩

theorem calls_append (b : SensorBuild) (s : SensorPolling) (as bs : List SensorAnswers) :
    calls b s (as ++ bs) = calls b s as ++ calls b (as.foldl (after b) s) bs := by
  induction as generalizing s with
  | nil => rfl
  | cons a as ih => exact congrArg (_ :: ·) (ih (s.after b a))

theorem length_calls (b : SensorBuild) (s : SensorPolling) (as : List SensorAnswers) :
    (calls b s as).length = as.length := by
  induction as generalizing s with
  | nil => rfl
  | cons a as ih => exact congrArg Nat.succ (ih (s.after b a))

/-- A reader of the converter that waits for the driver keeps waiting. -/
theorem foldl_hung (b : SensorBuild) {s : SensorPolling} (hs : s.state = 5)
    (hreader : s.regreader.m_state = .STATE_ADDR_START) {k : Nat}
    (hk : s.iLastUpdate + k ≤ maxCalls) :
    ((List.replicate k hung).foldl (after b) s).iLastUpdate = s.iLastUpdate + k := by
  induction k generalizing s with
  | zero => rfl
  | succ k ih =>
    have htimeout : s.counted.timeout = (s.counted, []) :=
      if_neg (Nat.not_lt.mpr (by show s.iLastUpdate + 1 ≤ maxCalls; omega))
    have hafter : s.after b hung = s.counted := by
      obtain ⟨⟨m_state, m_tmpval⟩, tempreader, state, iLastUpdate, reading⟩ := s
      obtain rfl : state = 5 := hs
      obtain rfl : m_state = .STATE_ADDR_START := hreader
      show (SensorPolling.poll b hung (counted _).timeout.1).2.1 = _
      rw [htimeout]
      rfl
    rw [List.replicate_succ, List.foldl_cons, hafter, ih (s := s.counted) hs hreader]
    · show s.iLastUpdate + 1 + k = _
      omega
    · show s.iLastUpdate + 1 + k ≤ _
      omega

def board : SensorBuild := ⟨⟨0x10, 0x11, 0x12, 0x13, 0x14, 0x15, 0x16⟩, true⟩

/-- Five readings at once, then the bus hangs. -/
def firstCalls : List SensorAnswers := List.replicate 25 prompt ++ [hung]

theorem firstCalls_end : (firstCalls.foldl (after board) .init).state = 5 ∧
    (firstCalls.foldl (after board) .init).regreader.m_state = .STATE_ADDR_START ∧
    (firstCalls.foldl (after board) .init).iLastUpdate = 6 := by decide +kernel

/-- The fifth reading counts for nothing. -/
theorem reset_after_update :
    ¬ Watchful board (calls board .init (firstCalls ++ (List.replicate 29994 hung ++ [hung]))) := by
  let s := firstCalls.foldl (after board) .init
  let before := calls board .init firstCalls ++ calls board s (List.replicate 29994 hung)
  let c : SensorCall := ⟨(List.replicate 29994 hung).foldl (after board) s, hung⟩
  have hcalls : calls board .init (firstCalls ++ (List.replicate 29994 hung ++ [hung])) =
      before ++ c :: [] := by
    rw [calls_append, calls_append, ← List.append_assoc]
    rfl
  obtain ⟨hstate, hreader, hcount⟩ := firstCalls_end
  have hend : c.state.iLastUpdate = maxCalls := by
    have hmax : s.iLastUpdate + 29994 = maxCalls := congrArg (· + 29994) hcount
    rw [← hmax]
    exact foldl_hung board hstate hreader (Nat.le_of_eq hmax)
  have hreset : c.Resets board := (SensorCall.counts_of_eq hend).1
  have hlength : before.length = 30020 := by
    rw [List.length_append, length_calls, length_calls, List.length_replicate]
    rfl
  have hrecent : before.rtake maxCalls =
      (calls board .init firstCalls).drop 20 ++ calls board s (List.replicate 29994 hung) := by
    unfold List.rtake
    rw [hlength]
    exact List.drop_append_of_le_length (by rw [length_calls]; decide)
  obtain ⟨d, hd, hupdates⟩ : ∃ d ∈ (calls board .init firstCalls).drop 20,
      .Assign .g_iin 0 ∈ d.log board := by
    have hany : ((calls board .init firstCalls).drop 20).any
      (fun d => decide (.Assign .g_iin 0 ∈ d.log board)) = true := by decide +kernel
    obtain ⟨d, hd, hd'⟩ := List.any_eq_true.mp hany
    exact ⟨d, hd, of_decide_eq_true hd'⟩
  intro h
  refine h.not_resets hcalls ⟨d, ?_, _, _, hupdates⟩ hreset
  rw [hrecent]
  exact List.mem_append_left _ hd

end SensorPolling

end EmbeddedPlatform.Supervisor
