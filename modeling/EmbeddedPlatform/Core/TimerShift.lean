import EmbeddedPlatform.Core.MainLoop

/-! # Timers whose counter is moved back

The counter and the targets are moved back together, so that a timer should not
notice. What it should do is said by an ideal timer, whose counter has no end.
`OnTimerShift` leaves a target alone that is not above the shift: it is overdue
then, and fires in the same pass only if the moved counter has passed it too. -/
namespace EmbeddedPlatform.Core
open EmbeddedPlatform.Lib

variable {n : Nat}

/-! ## The ideal timers -/

structure IdealTimer where
  target : Nat
  period : Nat

/-- Timers on a counter that is never moved back and never wraps. -/
structure IdealLoop (n : Nat) where
  time : Nat
  timers : Fin n → IdealTimer

namespace IdealLoop

/-- The time when the `k`-th timer has its turn. -/
def now (l : IdealLoop n) (p : Pass) (k : Fin n) : Nat := l.time + p.idle + p.ticks (k + 1)

def fires (l : IdealLoop n) (p : Pass) (k : Fin n) : Bool :=
  decide ((l.timers k).target ≤ l.now p k)

/-- One pass. -/
def act (l : IdealLoop n) (r : Ran n) : IdealLoop n where
  time := l.time + r.pass.idle + r.pass.ticks n
  timers k := if l.fires r.pass k then
      { l.timers k with target := l.now r.pass k + (l.timers k).period }
    else l.timers k

/-- The pass called `OnTimer` of exactly the tasks whose ideal timers fire. -/
def OnTime (l : IdealLoop n) (r : Ran n) : Prop := r.fired = l.fires r.pass

end IdealLoop

/-! ## Counts far from the wrap -/

/-- Neither the counter nor a new target reaches 2^32 in the pass. -/
def FarFromWrap (m : MainLoop n) (p : Pass) : Prop :=
  m.count.toNat + p.idle + p.ticks n < 2 ^ 32 ∧
    ∀ k : Fin n, m.count.toNat + p.idle + p.ticks (k + 1) + (m.tasks k).m_period.toNat < 2 ^ 32

/-- No task is overdue behind a shift: its target is moved too, or it fires in
this pass all the same. -/
def NoneOverdue (m : MainLoop n) (p : Pass) : Prop :=
  (m.check p).2 = true → ∀ k, logTimerMax < (m.tasks k).m_target ∨ (m.tasks k).m_target ≤ m.now p k

theorem toNat_add_ofNat {c : UInt32} {a : Nat} (h : c.toNat + a < 2 ^ 32) :
    (c + .ofNat a).toNat = c.toNat + a := by
  have ha : a < 2 ^ 32 := Nat.lt_of_le_of_lt (Nat.le_add_left a _) h
  rw [UInt32.toNat_add, UInt32.toNat_ofNat', Nat.mod_eq_of_lt ha, Nat.mod_eq_of_lt h]

/-- How far the counter is moved back in the pass. -/
def shift (m : MainLoop n) (p : Pass) : Nat := if (m.check p).2 then 60000 else 0

variable {m : MainLoop n} {p : Pass} {k : Fin n}

theorem check_toNat (hidle : m.count.toNat + p.idle < 2 ^ 32) :
    (m.check p).1.toNat + shift m p = m.count.toNat + p.idle := by
  have hsum := toNat_add_ofNat hidle
  unfold shift MainLoop.check UpdateOffset
  by_cases hmax : logTimerMax ≤ m.count + .ofNat p.idle
  · have hle : 60000 ≤ m.count.toNat + p.idle := hsum ▸ UInt32.le_iff_toNat_le.mp hmax
    rw [if_pos hmax]
    show (m.count + .ofNat p.idle - logTimerMax).toNat + 60000 = _
    rw [UInt32.toNat_sub_of_le _ _ hmax, hsum]
    exact Nat.sub_add_cancel hle
  · rw [if_neg hmax]
    exact hsum

theorem FarFromWrap.idle (h : FarFromWrap m p) : m.count.toNat + p.idle < 2 ^ 32 :=
  Nat.lt_of_le_of_lt (Nat.le_add_right _ _) h.1

theorem FarFromWrap.reading (h : FarFromWrap m p) (k : Fin n) :
    m.count.toNat + p.idle + p.ticks (k + 1) < 2 ^ 32 :=
  Nat.lt_of_le_of_lt (Nat.le_add_right _ _) (h.2 k)

theorem now_toNat (h : FarFromWrap m p) (k : Fin n) :
    (m.now p k).toNat + shift m p = m.count.toNat + p.idle + p.ticks (k + 1) := by
  have hcheck := check_toNat h.idle
  have hreading := h.reading k
  have hadd : (m.now p k).toNat = (m.check p).1.toNat + p.ticks (k + 1) :=
    toNat_add_ofNat (by omega)
  omega

/-! ## One task in one pass -/

theorem iteration_fired (t : TimerTask) (now : UInt32) :
    (t.Iteration now).2 = decide (t.m_target ≤ now) := by
  unfold TimerTask.Iteration
  by_cases h : t.m_target ≤ now
  · rw [if_pos h, decide_eq_true h]
  · rw [if_neg h, decide_eq_false h]

theorem shifted_period (m : MainLoop n) (p : Pass) (k : Fin n) :
    (m.shifted p k).m_period = (m.tasks k).m_period := by
  unfold MainLoop.shifted TimerTask.OnTimerShift
  split
  · dsimp only
    split <;> rfl
  · rfl

/-- A target that is moved whenever the counter is. -/
theorem shifted_target (h : (m.check p).2 = true → logTimerMax < (m.tasks k).m_target) :
    (m.shifted p k).m_target.toNat + shift m p = (m.tasks k).m_target.toNat := by
  unfold MainLoop.shifted shift
  rcases hs : (m.check p).2 with _ | _
  · rfl
  · have hmax := h hs
    have hle : logTimerMax ≤ (m.tasks k).m_target := UInt32.le_of_lt hmax
    simp only [if_true, TimerTask.OnTimerShift, gt_iff_lt, if_pos hmax]
    rw [UInt32.toNat_sub_of_le _ _ hle]
    exact Nat.sub_add_cancel (UInt32.le_iff_toNat_le.mp hle)

/-- A target that is left alone although the counter is moved is overdue. -/
theorem stuck_target (hidle : m.count.toNat + p.idle < 2 ^ 32) (hs : (m.check p).2 = true)
    (h : ¬ logTimerMax < (m.tasks k).m_target) :
    m.shifted p k = m.tasks k ∧ (m.tasks k).m_target.toNat ≤ m.count.toNat + p.idle := by
  have hcheck := check_toNat hidle
  have hle : (m.tasks k).m_target.toNat ≤ 60000 :=
    UInt32.le_iff_toNat_le.mp (UInt32.not_lt.mp h)
  refine ⟨?_, ?_⟩
  · simp [MainLoop.shifted, hs, TimerTask.OnTimerShift, h]
  · rw [shift, hs, if_pos rfl] at hcheck
    omega

/-! ## The two loops together -/

/-- The ideal loop is ahead by all the shifts there were. -/
structure AheadBy (s : Nat) (m : MainLoop n) (l : IdealLoop n) : Prop where
  time : l.time = m.count.toNat + s
  target : ∀ k, (l.timers k).target = (m.tasks k).m_target.toNat + s
  period : ∀ k, (l.timers k).period = (m.tasks k).m_period.toNat

variable {l : IdealLoop n} {s : Nat}

theorem fired_iff_moved (h : AheadBy s m l) (hfar : FarFromWrap m p)
    (hmoved : (m.check p).2 = true → logTimerMax < (m.tasks k).m_target) :
    (m.shifted p k).m_target ≤ m.now p k ↔ (l.timers k).target ≤ l.now p k := by
  have hnow := now_toNat hfar k
  have htarget := shifted_target hmoved
  rw [UInt32.le_iff_toNat_le, h.target k, IdealLoop.now, h.time]
  omega

/-- A task and its ideal timer agree in a pass iff the task is not overdue
behind a shift. -/
theorem fired_eq_iff (h : AheadBy s m l) (hfar : FarFromWrap m p) :
    ((m.shifted p k).Iteration (m.now p k)).2 = l.fires p k ↔
      ((m.check p).2 = true →
        logTimerMax < (m.tasks k).m_target ∨ (m.tasks k).m_target ≤ m.now p k) := by
  rw [iteration_fired, IdealLoop.fires]
  by_cases hmoved : (m.check p).2 = true → logTimerMax < (m.tasks k).m_target
  · constructor
    · intro _ hs
      exact .inl (hmoved hs)
    · intro _
      exact decide_eq_decide.mpr (fired_iff_moved h hfar hmoved)
  · obtain ⟨hs, hstuck⟩ := Classical.not_imp.mp hmoved
    obtain ⟨hkept, hover⟩ := stuck_target hfar.idle hs hstuck
    have hideal : (l.timers k).target ≤ l.now p k := by
      rw [h.target k, IdealLoop.now, h.time]
      omega
    rw [hkept, decide_eq_true hideal, decide_eq_true_eq]
    constructor
    · intro hdue _
      exact .inr hdue
    · intro hall
      exact (hall hs).resolve_left hstuck

/-- What a pass in which the two agree leaves of a task. -/
theorem iteration_target (h : AheadBy s m l) (hfar : FarFromWrap m p)
    (hagree : ((m.shifted p k).Iteration (m.now p k)).2 = l.fires p k) :
    (((l.act ⟨p, fun k => ((m.shifted p k).Iteration (m.now p k)).2⟩).timers k).target =
      ((m.shifted p k).Iteration (m.now p k)).1.m_target.toNat + (s + shift m p)) ∧
    (((l.act ⟨p, fun k => ((m.shifted p k).Iteration (m.now p k)).2⟩).timers k).period =
      ((m.shifted p k).Iteration (m.now p k)).1.m_period.toNat) := by
  have hnow := now_toNat hfar k
  have hfires := hagree
  rw [iteration_fired] at hfires
  by_cases hdue : (m.shifted p k).m_target ≤ m.now p k
  · -- both fire and count the period from the same moment
    rw [decide_eq_true hdue] at hfires
    have hnew : (m.now p k + (m.tasks k).m_period).toNat =
        (m.now p k).toNat + (m.tasks k).m_period.toNat := by
      have := hfar.2 k
      rw [UInt32.toNat_add, Nat.mod_eq_of_lt (by omega)]
    simp only [IdealLoop.act, ← hfires, if_true, TimerTask.Iteration, ge_iff_le, if_pos hdue,
      shifted_period, h.period k, and_true]
    rw [hnew, IdealLoop.now, h.time]
    omega
  · rw [decide_eq_false hdue] at hfires
    have hmoved : (m.check p).2 = true → logTimerMax < (m.tasks k).m_target := by
      intro hs
      by_contra hstuck
      obtain ⟨hkept, -⟩ := stuck_target hfar.idle hs hstuck
      rcases (fired_eq_iff h hfar).mp hagree hs with hmax | hle
      · exact hstuck hmax
      · exact hdue (hkept ▸ hle)
    have htarget := shifted_target hmoved
    simp only [IdealLoop.act, ← hfires, Bool.false_eq_true, if_false, TimerTask.Iteration,
      ge_iff_le, if_neg hdue, shifted_period, h.period k, h.target k, and_true]
    omega

/-! ## Whole runs -/

theorem onTime_iff (h : AheadBy s m l) (hfar : FarFromWrap m p) :
    l.OnTime ⟨p, fun k => ((m.shifted p k).Iteration (m.now p k)).2⟩ ↔ NoneOverdue m p := by
  constructor
  · intro hon hs k
    exact (fired_eq_iff h hfar).mp (congrFun hon k) hs
  · intro hnone
    funext k
    exact (fired_eq_iff h hfar).mpr fun hs => hnone hs k

theorem onTime_ahead (h : AheadBy s m l) (hfar : FarFromWrap m p)
    (hon : l.OnTime ⟨p, fun k => ((m.shifted p k).Iteration (m.now p k)).2⟩) {m' : MainLoop n}
    {ran : List (Ran n)} (hs : step m p = .ok (m', ran)) :
    AheadBy (s + shift m p) m' (replay IdealLoop.act l ran) := by
  obtain ⟨rfl, rfl⟩ := ok_eq hs
  have htarget := fun k => iteration_target (k := k) h hfar (congrFun hon k)
  refine ⟨?_, fun k => (htarget k).1, fun k => (htarget k).2⟩
  have hcheck := check_toNat hfar.idle
  have hlast := hfar.1
  have hadd : ((m.check p).1 + .ofNat (p.ticks n)).toNat = (m.check p).1.toNat + p.ticks n :=
    toNat_add_ofNat (by omega)
  show l.time + p.idle + p.ticks n = _
  rw [hadd, h.time]
  omega

/-- When and how a task is constructed. -/
structure Setup where
  constructed : UInt32
  initialOffset : UInt32
  period : UInt32

/-- The loop when it is entered, with the counter at `count`. -/
def MainLoop.start (count : UInt32) (setup : Fin n → Setup) : MainLoop n where
  count := count
  tasks k := .construct (setup k).constructed (setup k).initialOffset (setup k).period

def IdealLoop.start (count : UInt32) (setup : Fin n → Setup) : IdealLoop n where
  time := count.toNat
  timers k := ⟨(setup k).constructed.toNat + (setup k).initialOffset.toNat, (setup k).period.toNat⟩

theorem start_ahead (count : UInt32) {setup : Fin n → Setup}
    (h : ∀ k, (setup k).constructed.toNat + (setup k).initialOffset.toNat < 2 ^ 32) :
    AheadBy 0 (MainLoop.start count setup) (IdealLoop.start count setup) := by
  refine ⟨rfl, fun k => ?_, fun k => rfl⟩
  show _ = ((setup k).constructed + (setup k).initialOffset).toNat
  rw [UInt32.toNat_add, Nat.mod_eq_of_lt (h k)]
  rfl

/-- **Timer shifts.** Far from the wrap of the counter, a run of the main loop
calls `OnTimer` in exactly the passes in which the ideal timers fire iff no task
is ever overdue behind a shift. -/
theorem timer_shift_transparent_iff (count : UInt32) (setup : Fin n → Setup)
    (hsetup : ∀ k, (setup k).constructed.toNat + (setup k).initialOffset.toNat < 2 ^ 32)
    (passes : List Pass) (hfar : AllSteps step FarFromWrap (MainLoop.start count setup) passes)
    (m : MainLoop n) (log : List (Ran n))
    (hr : run step (MainLoop.start count setup) passes = .ok (m, log)) :
    Complies IdealLoop.act IdealLoop.OnTime (IdealLoop.start count setup) log ↔
      AllSteps step NoneOverdue (MainLoop.start count setup) passes := by
  refine (run_complies_iff_of (J := fun m l => ∃ s, AheadBy s m l) ?_ ?_
    ⟨0, start_ahead count hsetup⟩ hfar hr).1
  · intro m l p t ran hahead hfar hs
    obtain ⟨s, hahead⟩ := hahead
    obtain ⟨-, rfl⟩ := ok_eq hs
    show _ ∧ True ↔ _
    rw [and_true]
    exact onTime_iff hahead hfar
  · intro m l p t ran hahead hfar hs hon
    obtain ⟨s, hahead⟩ := hahead
    obtain ⟨-, hran⟩ := ok_eq hs
    rw [hran] at hon
    exact ⟨_, onTime_ahead hahead hfar hon.1 hs⟩

/-- One task, due every 1000 ticks, for the first time after `offset`. -/
def oneTask (offset : UInt32) : Fin 1 → Setup := fun _ => ⟨0, offset, 1000⟩

/-- Two passes around a shift: the counter is read at 59980 and at 60005. -/
def aroundShift : List Pass := [⟨59980, fun _ => 0⟩, ⟨25, fun _ => 0⟩]

instance (m : MainLoop n) (p : Pass) : Decidable (FarFromWrap m p) :=
  inferInstanceAs (Decidable (_ ∧ _))

instance (m : MainLoop n) (p : Pass) : Decidable (NoneOverdue m p) :=
  inferInstanceAs (Decidable (_ → _))

/-- A task that is due behind the shift is called in time. -/
theorem timer_shift_transparent_behind : ∃ m log,
    run step (MainLoop.start 0 (oneTask 60001)) aroundShift = .ok (m, log) ∧
      Complies IdealLoop.act IdealLoop.OnTime (IdealLoop.start 0 (oneTask 60001)) log :=
  ⟨_, _, rfl, (timer_shift_transparent_iff 0 (oneTask 60001) (by decide) aroundShift
    (.cons_of_ok rfl (by decide) (.cons_of_ok rfl (by decide) trivial)) _ _ rfl).mpr
    (.cons_of_ok rfl (by decide) (.cons_of_ok rfl (by decide) trivial))⟩

/-- A task that falls due at 60000 is not called when the counter is read at
60005, which by then is 5. -/
theorem timer_shift_delays : ∃ m log,
    run step (MainLoop.start 0 (oneTask 60000)) aroundShift = .ok (m, log) ∧
      ¬ Complies IdealLoop.act IdealLoop.OnTime (IdealLoop.start 0 (oneTask 60000)) log := by
  refine ⟨_, _, rfl, fun h => ?_⟩
  have hsecond : false = true := congrFun h.2.1 0
  cases hsecond

end EmbeddedPlatform.Core
