import Mathlib.Data.List.Rotate
import EmbeddedPlatform.Supervisor.IndexSafety

/-! # Every rail has its turn

`MonitorRails` looks at one rail a call, and its index is kept through shutdowns.
Any calls with power on, as many as there are rails, look at each of them once,
and a rail that must not fail is not found bad without consequences. -/
namespace EmbeddedPlatform.Supervisor
open EmbeddedPlatform.Lib

variable {q : Sequences} {s t : PowerResetSupervisor} {a : Answers} {es : List Event}

/-- An `Iteration` with power on: the state it starts in, and what it is told. -/
structure Turn where
  state : PowerResetSupervisor
  answers : Answers

namespace Turn

/-- The rail that `MonitorRails` looks at, behind `UpdateResets`. -/
def polled (q : Sequences) (c : Turn) : Option Nat :=
  match UpdateResets q c.answers.isReady c.answers.stillReady c.state with
  | .ok (s, _) => if s.m_monitorRailIndex < q.m_railSequence then some s.m_monitorRailIndex else none
  | .error _ => none

/-- It ends in a shutdown. -/
def ShutsDown (q : Sequences) (c : Turn) (shutdown : List Event) : Prop :=
  ∃ t es, Iteration q c.answers c.state = .ok (t, es ++ shutdown) ∧ t.m_powerOn = false

/-- A rail without which power must not stay on has failed. -/
def Lost (c : Turn) (rail : Nat) : Prop :=
  c.answers.isPowerGood rail = false ∧
    (c.answers.isCritical rail = true ∨ c.answers.isInputSupply rail = true)

/-- What becomes of a rail that is found bad. -/
structure Watches (q : Sequences) (c : Turn) (rail : Nat) : Prop where
  polled : c.polled q = some rail
  critical : c.answers.isPowerGood rail = false → c.answers.isCritical rail = true →
    c.ShutsDown q (PanicShutdown q c.state).2
  input : c.answers.isPowerGood rail = false → c.answers.isCritical rail = false →
    c.answers.isInputSupply rail = true → c.ShutsDown q (.OnPowerLost :: (PowerOff q c.state).2)

end Turn

/-- The iterations with power on in a run, whatever else is called between them. -/
def turns (q : Sequences) : PowerResetSupervisor → List Op → List Turn
  | _, [] => []
  | s, op :: ops =>
    let rest := match step q s op with
      | .ok (t, _) => turns q t ops
      | .error _ => []
    match op with
    | .Iteration a => if s.m_powerOn then ⟨s, a⟩ :: rest else rest
    | _ => rest

/-! ## The index -/

theorem checkRail_rail (q : Sequences) (a : Answers) (rail : Nat) (s : PowerResetSupervisor) :
    (checkRail q a rail s).1.m_monitorRailIndex = s.m_monitorRailIndex := by
  rcases checkRail_cases q a rail s with he | ⟨-, -, he⟩ | ⟨-, -, -, he⟩
  · rw [he]
  · rw [he]
    rfl
  · rw [he]
    rfl

/-- A turn moves the index on, also when it shuts the board down. -/
theorem iteration_rail (h : s.InBounds q) (hon : s.m_powerOn = true)
    (hs : Iteration q a s = .ok (t, es)) :
    t.m_monitorRailIndex = (s.m_monitorRailIndex + 1) % q.m_railSequence := by
  obtain ⟨u, fs, hu, -, -, hmon⟩ := updateResets_ok a.isReady a.stillReady h.resets
  obtain ⟨u', fs', v, gs, hu', hv, rfl, -⟩ := iteration_ok hon hs
  cases hu.symm.trans hu'
  have hkeep := checkRail_rail q a u.m_monitorRailIndex u
  rw [hv, hmon] at hkeep
  show (v.m_monitorRailIndex + 1) % q.m_railSequence = _
  rw [hkeep]

/-- Anything else leaves it alone. -/
theorem step_rail {op : Op} (hop : ∀ a, op = .Iteration a → s.m_powerOn = false)
    (hs : step q s op = .ok (t, es)) : t.m_monitorRailIndex = s.m_monitorRailIndex := by
  cases op with
  | PowerOn turnOn =>
    rcases powerOn_cases q turnOn s with he | ⟨k, -, he⟩
    · rw [step, he] at hs
      cases hs
      rfl
    · rw [step, he] at hs
      cases hs
      rfl
  | PowerOff | PanicShutdown =>
    cases hs
    rfl
  | Iteration a =>
    rw [step, iteration_off a (hop a rfl)] at hs
    cases hs
    rfl

/-- The run lemma: the turns follow each other through the list of rails. -/
theorem turns_getElem (hn : 0 < q.m_resetSequence) {ops : List Op} {j : Nat} {c : Turn}
    (h : s.InBounds q) (hc : (turns q s ops)[j]? = some c) :
    c.state.m_powerOn = true ∧ c.state.InBounds q ∧
      c.state.m_monitorRailIndex = (s.m_monitorRailIndex + j) % q.m_railSequence := by
  induction ops generalizing s j with
  | nil => cases hc
  | cons op ops ih =>
    obtain ⟨t, es, hs, ht⟩ := step_inBounds hn op h
    have hother (hop : ∀ a, op = .Iteration a → s.m_powerOn = false)
        (hc : (turns q t ops)[j]? = some c) :
        c.state.m_powerOn = true ∧ c.state.InBounds q ∧
          c.state.m_monitorRailIndex = (s.m_monitorRailIndex + j) % q.m_railSequence := by
      rw [← step_rail hop hs]
      exact ih ht hc
    unfold turns at hc
    rw [hs] at hc
    cases op with
    | PowerOn | PowerOff | PanicShutdown => exact hother (fun _ he => by cases he) hc
    | Iteration a =>
      cases hon : s.m_powerOn with
      | false =>
        simp only [hon, Bool.false_eq_true, if_false] at hc
        exact hother (fun _ _ => hon) hc
      | true =>
        simp only [hon, if_true] at hc
        cases j with
        | zero =>
          cases hc
          exact ⟨hon, h, (Nat.mod_eq_of_lt h.rails).symm⟩
        | succ j =>
          rw [List.getElem?_cons_succ] at hc
          obtain ⟨hpower, hbounds, hrail⟩ := ih ht hc
          refine ⟨hpower, hbounds, ?_⟩
          rw [hrail, iteration_rail h hon hs, Nat.mod_add_mod, Nat.add_assoc, Nat.add_comm 1 j]

/-! ## What a turn does -/

theorem watches_of_inBounds {c : Turn} (hon : c.state.m_powerOn = true)
    (h : c.state.InBounds q) : c.Watches q c.state.m_monitorRailIndex := by
  obtain ⟨u, fs, hu, -, -, hmon⟩ :=
    updateResets_ok c.answers.isReady c.answers.stillReady h.resets
  have hrail : u.m_monitorRailIndex < q.m_railSequence := hmon ▸ h.rails
  have hturn := iteration_of_ok hon hu hrail
  rw [hmon] at hturn
  refine ⟨?_, fun hbad hcritical => ?_, fun hbad hcritical hinput => ?_⟩
  · unfold Turn.polled
    rw [hu]
    dsimp only
    rw [if_pos hrail, hmon]
  · have hcheck : checkRail q c.answers c.state.m_monitorRailIndex u = PanicShutdown q u := by
      simp [checkRail, hbad, hcritical]
    rw [hcheck] at hturn
    exact ⟨_, fs, hturn, rfl⟩
  · have hcheck : checkRail q c.answers c.state.m_monitorRailIndex u =
        (restarted u false, .OnPowerLost :: (PowerOff q u).2) := by
      simp [checkRail, hbad, hcritical, hinput, powerOff_fst]
    rw [hcheck] at hturn
    exact ⟨_, fs, hturn, rfl⟩

/-- A lost rail turns power off in its turn. -/
theorem Turn.Watches.off {c : Turn} {rail : Nat} (h : c.Watches q rail) (hlost : c.Lost rail) :
    ∃ t es, Iteration q c.answers c.state = .ok (t, es) ∧ t.m_powerOn = false := by
  obtain ⟨hbad, hkind⟩ := hlost
  cases hcritical : c.answers.isCritical rail with
  | true =>
    obtain ⟨t, es, hs, hoff⟩ := h.critical hbad hcritical
    exact ⟨t, _, hs, hoff⟩
  | false =>
    have hinput := hkind.resolve_left (by rw [hcritical]; exact Bool.false_ne_true)
    obtain ⟨t, es, hs, hoff⟩ := h.input hbad hcritical hinput
    exact ⟨t, _, hs, hoff⟩

/-! ## As many turns as rails -/

theorem map_add_mod_range (n k : Nat) :
    (List.range n).map (fun j => (k + j) % n) = (List.range n).rotate k := by
  refine List.ext_getElem (by simp) fun j hj hj' => ?_
  rw [List.getElem_rotate, List.getElem_map, List.getElem_range, List.getElem_range,
    List.length_range, Nat.add_comm]

theorem polled_perm (hn : 0 < q.m_resetSequence) (h : s.InBounds q) {ops : List Op}
    {window : List Turn} (hw : window <:+: turns q s ops)
    (hlen : window.length = q.m_railSequence) :
    (window.map (Turn.polled q)).Perm ((List.range q.m_railSequence).map some) := by
  obtain ⟨front, back, hsplit⟩ := hw
  have hpolled : window.map (Turn.polled q) =
      ((List.range q.m_railSequence).map fun j =>
        (s.m_monitorRailIndex + front.length + j) % q.m_railSequence).map some := by
    refine List.ext_getElem (by simp [hlen]) fun j hj hj' => ?_
    rw [List.length_map] at hj
    have hget : (turns q s ops)[front.length + j]? = some window[j] := by
      rw [← hsplit, List.append_assoc, List.getElem?_append_right (Nat.le_add_right _ _),
        Nat.add_sub_cancel_left, List.getElem?_append_left hj, List.getElem?_eq_getElem hj]
    obtain ⟨hon, hbounds, hrail⟩ := turns_getElem hn h hget
    rw [List.getElem_map, (watches_of_inBounds hon hbounds).polled, hrail, ← Nat.add_assoc,
      List.getElem_map, List.getElem_map, List.getElem_range]
  rw [hpolled, map_add_mod_range]
  exact (List.rotate_perm _ _).map some

/-- **Rail faults are found.** In a run from the start no call fails; as many
iterations with power on as there are rails look at each rail once, and each acts
on what it finds, so that a rail does not stay lost through all of them. -/
theorem rails_watched (hm : 0 < q.m_railSequence) (hn : 0 < q.m_resetSequence) (ops : List Op) :
    (∃ s log, run (step q) .init ops = .ok (s, log)) ∧
      ∀ window, window <:+: turns q .init ops → window.length = q.m_railSequence →
        (window.map (Turn.polled q)).Perm ((List.range q.m_railSequence).map some) ∧
        (∀ c ∈ window, ∃ rail < q.m_railSequence, c.Watches q rail) ∧
        ∀ rail < q.m_railSequence, (∀ c ∈ window, c.Lost rail) →
          ∃ c ∈ window, c.polled q = some rail ∧
            ∃ t es, Iteration q c.answers c.state = .ok (t, es) ∧ t.m_powerOn = false := by
  have h := init_inBounds hm hn
  refine ⟨run_total (fun _ op hs => step_inBounds hn op hs) h ops, fun window hw hlen => ?_⟩
  have hperm := polled_perm hn h hw hlen
  have hwatches : ∀ c ∈ window, c.state.m_monitorRailIndex < q.m_railSequence ∧
      c.Watches q c.state.m_monitorRailIndex := by
    intro c hc
    obtain ⟨j, hj⟩ := List.getElem?_of_mem (hw.subset hc)
    obtain ⟨hon, hbounds, -⟩ := turns_getElem hn h hj
    exact ⟨hbounds.rails, watches_of_inBounds hon hbounds⟩
  refine ⟨hperm, fun c hc => ⟨_, hwatches c hc⟩, fun rail hrail hlost => ?_⟩
  have hmem : some rail ∈ window.map (Turn.polled q) :=
    hperm.mem_iff.mpr (List.mem_map_of_mem (List.mem_range.mpr hrail))
  obtain ⟨c, hc, hpolled⟩ := List.mem_map.mp hmem
  obtain ⟨-, hwatch⟩ := hwatches c hc
  have hsame : c.state.m_monitorRailIndex = rail := Option.some.inj (hwatch.polled.symm.trans hpolled)
  rw [hsame] at hwatch
  exact ⟨c, hc, hpolled, hwatch.off (hlost c hc)⟩

/-- Two rails, the second of them bad from the start. -/
def brownOut : Answers := ⟨fun _ => true, fun _ => true, fun rail => rail == 0, fun _ => true,
  fun _ => false⟩

/-- It is found in the second turn. -/
theorem rails_watched_brownOut :
    ∃ c ∈ turns ⟨2, 1⟩ .init [.PowerOn fun _ => true, .Iteration brownOut, .Iteration brownOut],
      c.polled ⟨2, 1⟩ = some 1 ∧
        ∃ t es, Iteration ⟨2, 1⟩ c.answers c.state = .ok (t, es) ∧ t.m_powerOn = false :=
  ((rails_watched (q := ⟨2, 1⟩) (by decide) (by decide)
    [.PowerOn fun _ => true, .Iteration brownOut, .Iteration brownOut]).2 _ (List.infix_refl _) rfl).2.2
    1 (by decide) fun c hc => by
      rcases List.mem_pair.mp hc with rfl | rfl
      · exact ⟨rfl, .inl rfl⟩
      · exact ⟨rfl, .inl rfl⟩

end EmbeddedPlatform.Supervisor
