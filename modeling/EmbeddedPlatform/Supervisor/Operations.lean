import EmbeddedPlatform.Supervisor.ResetSequence

/-! # What each public operation does

One case lemma per operation, and the effect on the board of the event lists
they produce. -/
namespace EmbeddedPlatform.Supervisor
open EmbeddedPlatform.Lib

variable {q : Sequences} {s : PowerResetSupervisor} {b : Board}

/-! ## Events on the board -/

theorem replay_assert (b : Board) (l : List Nat) :
    replay Board.act b (l.map .Assert) =
      { b with asserted := fun i => if i ∈ l then true else b.asserted i } := by
  induction l generalizing b with
  | nil => simp
  | cons r l ih =>
    simp only [List.map_cons, replay_cons, ih, Board.act, Board.mk.injEq, true_and]
    funext i
    by_cases hl : i ∈ l <;> by_cases hr : i = r <;> simp [hl, hr]

theorem replay_turnOff (b : Board) (l : List Nat) :
    replay Board.act b (l.map .TurnOff) =
      { b with railOn := fun i => if i ∈ l then false else b.railOn i } := by
  induction l generalizing b with
  | nil => simp
  | cons r l ih =>
    simp only [List.map_cons, replay_cons, ih, Board.act, Board.mk.injEq, and_true]
    funext i
    by_cases hl : i ∈ l <;> by_cases hr : i = r <;> simp [hl, hr]

theorem replay_turnOn (b : Board) (l : List Nat) :
    replay Board.act b (l.map .TurnOn) =
      { b with railOn := fun i => if i ∈ l then true else b.railOn i } := by
  induction l generalizing b with
  | nil => simp
  | cons r l ih =>
    simp only [List.map_cons, replay_cons, ih, Board.act, Board.mk.injEq, and_true]
    funext i
    by_cases hl : i ∈ l <;> by_cases hr : i = r <;> simp [hl, hr]

/-! ## PowerOn -/

theorem turnOnRails_cases (turnOn : Nat → Bool) (l : List Nat) :
    turnOnRails turnOn l = (true, l.map .TurnOn) ∨
      ∃ k < l.length, turnOnRails turnOn l = (false, (l.take (k + 1)).map .TurnOn) := by
  induction l with
  | nil => exact .inl rfl
  | cons r l ih =>
    cases hr : turnOn r with
    | false => exact .inr ⟨0, by simp, by simp [turnOnRails, hr]⟩
    | true =>
      rcases ih with h | ⟨k, hk, h⟩
      · exact .inl (by simp [turnOnRails, hr, h])
      · exact .inr ⟨k + 1, by simpa using hk, by simp [turnOnRails, hr, h]⟩

/-- The flags after a `PowerOn` that brought up every rail, and after any
shutdown. -/
def restarted (s : PowerResetSupervisor) (on : Bool) : PowerResetSupervisor :=
  { s with m_powerOn := on, m_resetsDone := false, m_resetSequenceIndex := 0 }

theorem restarted_indexed (hn : 0 < q.m_resetSequence) (on : Bool) :
    (restarted s on).Indexed q := by
  refine ⟨Nat.zero_le _, ?_⟩
  simp only [restarted, Bool.false_eq_true, false_iff]
  omega

/-- The events of `PowerOn` once all rails are up. -/
def releaseFirst (q : Sequences) : List Event :=
  (if q.m_resetSequence ≠ 0 then [.Deassert 0] else []) ++ [.OnPowerOn]

theorem powerOn_cases (q : Sequences) (turnOn : Nat → Bool) (s : PowerResetSupervisor) :
    PowerOn q turnOn s =
        (restarted s true, (List.range q.m_railSequence).map .TurnOn ++ releaseFirst q) ∨
      ∃ k ≤ q.m_railSequence, PowerOn q turnOn s =
        (restarted s false, (List.range k).map .TurnOn ++ (PanicShutdown q s).2) := by
  unfold PowerOn
  rcases turnOnRails_cases turnOn (List.range q.m_railSequence) with h | ⟨k, hk, h⟩
  · exact .inl (by simp [h, restarted, releaseFirst])
  · rw [List.length_range] at hk
    refine .inr ⟨k + 1, hk, ?_⟩
    simp [h, List.take_range, Nat.min_eq_left hk, PanicShutdown, restarted]

theorem powerOff_fst (q : Sequences) (s : PowerResetSupervisor) :
    (PowerOff q s).1 = restarted s false := rfl

/-! ## Iteration -/

/-- A rail that fails its check shuts the board down, by panic if it is
critical and by the power-loss path if it is an input supply. -/
theorem checkRail_cases (q : Sequences) (a : Answers) (rail : Nat) (s : PowerResetSupervisor) :
    checkRail q a rail s = (s, []) ∨
    (a.isPowerGood rail = false ∧ a.isCritical rail = true ∧
      checkRail q a rail s = PanicShutdown q s) ∨
    (a.isPowerGood rail = false ∧ a.isCritical rail = false ∧ a.isInputSupply rail = true ∧
      checkRail q a rail s = (restarted s false, .OnPowerLost :: (PowerOff q s).2)) := by
  unfold checkRail
  cases hg : a.isPowerGood rail with
  | true => exact .inl (by simp)
  | false =>
    cases hc : a.isCritical rail with
    | true => exact .inr (.inl ⟨rfl, rfl, by simp⟩)
    | false =>
      cases hi : a.isInputSupply rail with
      | true => exact .inr (.inr ⟨rfl, rfl, rfl, by simp [powerOff_fst]⟩)
      | false => exact .inl (by simp)

/-- The next rail to monitor. -/
def nextRail (q : Sequences) (s : PowerResetSupervisor) : PowerResetSupervisor :=
  { s with m_monitorRailIndex := (s.m_monitorRailIndex + 1) % q.m_railSequence }

theorem nextRail_indexed (h : s.Indexed q) : (nextRail q s).Indexed q := ⟨h.le, h.done_iff⟩

theorem iteration_off (a : Answers) (hoff : s.m_powerOn = false) :
    Iteration q a s = .ok (s, []) := by
  simp [Iteration, hoff]

theorem monitorRails_eq (a : Answers) (hm : s.m_monitorRailIndex < q.m_railSequence) :
    MonitorRails q a s = .ok (nextRail q (checkRail q a s.m_monitorRailIndex s).1,
      (checkRail q a s.m_monitorRailIndex s).2) := by
  have hne : q.m_railSequence ≠ 0 := by omega
  simp [MonitorRails, hm, hne, nextRail]

theorem iteration_ok {a : Answers} {t : PowerResetSupervisor} {es : List Event}
    (hon : s.m_powerOn = true) (h : Iteration q a s = .ok (t, es)) :
    ∃ u fs v gs, UpdateResets q a.isReady a.stillReady s = .ok (u, fs) ∧
      checkRail q a u.m_monitorRailIndex u = (v, gs) ∧ t = nextRail q v ∧ es = fs ++ gs := by
  unfold Iteration at h
  rw [if_pos hon] at h
  split at h
  · cases h
  · rename_i u fs hu
    by_cases hm : u.m_monitorRailIndex < q.m_railSequence
    · rw [monitorRails_eq a hm] at h
      cases h
      exact ⟨u, fs, _, _, hu, rfl, rfl, rfl⟩
    · simp [MonitorRails, hm] at h

theorem iteration_of_ok {a : Answers} {u : PowerResetSupervisor} {fs : List Event}
    (hon : s.m_powerOn = true) (hu : UpdateResets q a.isReady a.stillReady s = .ok (u, fs))
    (hm : u.m_monitorRailIndex < q.m_railSequence) :
    Iteration q a s = .ok (nextRail q (checkRail q a u.m_monitorRailIndex u).1,
      fs ++ (checkRail q a u.m_monitorRailIndex u).2) := by
  simp [Iteration, hon, hu, monitorRails_eq a hm]

/-! ## The index invariant over runs -/

theorem step_indexed (hn : 0 < q.m_resetSequence) {op : Op} {t : PowerResetSupervisor}
    {es : List Event} (h : s.Indexed q) (hs : step q s op = .ok (t, es)) : t.Indexed q := by
  cases op with
  | PowerOn turnOn =>
    rcases powerOn_cases q turnOn s with he | ⟨k, -, he⟩ <;>
      · simp only [step, he, Except.ok.injEq, Prod.mk.injEq] at hs
        rw [← hs.1]; exact restarted_indexed hn _
  | PowerOff => cases hs; exact restarted_indexed (s := s) hn false
  | PanicShutdown => cases hs; exact restarted_indexed (s := s) hn false
  | Iteration a =>
    cases hon : s.m_powerOn with
    | false =>
      rw [step, iteration_off a hon] at hs
      cases hs; exact h
    | true =>
      obtain ⟨u, fs, v, gs, hu, hv, rfl, -⟩ := iteration_ok hon hs
      obtain ⟨u', fs', hu', hIx, -, -⟩ := updateResets_ok a.isReady a.stillReady h
      obtain ⟨rfl, rfl⟩ : u = u' ∧ fs = fs' := by simpa using hu.symm.trans hu'
      apply nextRail_indexed
      rcases checkRail_cases q a u.m_monitorRailIndex u with he | ⟨-, -, he⟩ | ⟨-, -, -, he⟩ <;>
        rw [he] at hv <;> cases hv
      · exact hIx
      · exact restarted_indexed (s := u) hn false
      · exact restarted_indexed hn false

theorem init_indexed (hn : 0 < q.m_resetSequence) : PowerResetSupervisor.init.Indexed q :=
  restarted_indexed (s := .init) hn false

theorem run_indexed (hn : 0 < q.m_resetSequence) {ops : List Op} {log : List Event}
    (hr : run (step q) .init ops = .ok (s, log)) : s.Indexed q :=
  run_invariant (C := fun _ _ => True) (fun _ _ _ _ h _ hs => step_indexed hn h hs)
    (init_indexed hn) (allSteps_true _ _) hr

end EmbeddedPlatform.Supervisor
