import EmbeddedPlatform.Supervisor.Operations

/-! # Accesses stay inside the lists

Two indices survive from one operation to the next: the reset index may
legitimately reach the end of its list, the rail index may not. -/
namespace EmbeddedPlatform.Supervisor
open EmbeddedPlatform.Lib

variable {q : Sequences} {s : PowerResetSupervisor}

/-- Both indices are usable. -/
structure PowerResetSupervisor.InBounds (q : Sequences) (s : PowerResetSupervisor) : Prop where
  resets : s.Indexed q
  rails : s.m_monitorRailIndex < q.m_railSequence

theorem restarted_inBounds (hn : 0 < q.m_resetSequence) (on : Bool)
    (hm : s.m_monitorRailIndex < q.m_railSequence) : (restarted s on).InBounds q :=
  ⟨restarted_indexed hn on, hm⟩

theorem nextRail_inBounds (h : s.InBounds q) : (nextRail q s).InBounds q :=
  ⟨nextRail_indexed h.resets, Nat.mod_lt _ (Nat.lt_of_le_of_lt (Nat.zero_le _) h.rails)⟩

theorem checkRail_inBounds (hn : 0 < q.m_resetSequence) {a : Answers} {rail : Nat}
    (h : s.InBounds q) : (checkRail q a rail s).1.InBounds q := by
  rcases checkRail_cases q a rail s with he | ⟨-, -, he⟩ | ⟨-, -, -, he⟩ <;> rw [he]
  · exact h
  · exact restarted_inBounds hn false h.rails
  · exact restarted_inBounds hn false h.rails

theorem step_inBounds (hn : 0 < q.m_resetSequence) (op : Op) (h : s.InBounds q) :
    ∃ t es, step q s op = .ok (t, es) ∧ t.InBounds q := by
  cases op with
  | PowerOn turnOn =>
    refine ⟨(PowerOn q turnOn s).1, (PowerOn q turnOn s).2, rfl, ?_⟩
    rcases powerOn_cases q turnOn s with he | ⟨k, -, he⟩ <;> rw [he]
    · exact restarted_inBounds hn true h.rails
    · exact restarted_inBounds hn false h.rails
  | PowerOff => exact ⟨_, _, rfl, restarted_inBounds hn false h.rails⟩
  | PanicShutdown => exact ⟨_, _, rfl, restarted_inBounds hn false h.rails⟩
  | Iteration a =>
    cases hon : s.m_powerOn with
    | false => exact ⟨s, [], iteration_off a hon, h⟩
    | true =>
      obtain ⟨u, fs, hu, hIx, -, hmon⟩ := updateResets_ok a.isReady a.stillReady h.resets
      have hub : u.InBounds q := ⟨hIx, hmon ▸ h.rails⟩
      exact ⟨_, _, iteration_of_ok hon hu hub.rails, nextRail_inBounds (checkRail_inBounds hn hub)⟩

theorem init_inBounds (hm : 0 < q.m_railSequence) (hn : 0 < q.m_resetSequence) :
    PowerResetSupervisor.init.InBounds q := ⟨init_indexed hn, hm⟩

theorem turnOnRails_true (l : List Nat) : turnOnRails (fun _ => true) l = (true, l.map .TurnOn) := by
  induction l with
  | nil => rfl
  | cons r l ih => simp [turnOnRails, ih]

/-- With a list empty, the first poll after a successful `PowerOn` leaves it. -/
theorem poll_faults (a : Answers) (h : q.m_railSequence = 0 ∨ q.m_resetSequence = 0) :
    ∃ f, run (step q) .init [.PowerOn fun _ => true, .Iteration a] = .error f := by
  have hon : (PowerOn q (fun _ => true) .init).1 = ⟨true, false, 0, 0⟩ := by
    simp [PowerOn, turnOnRails_true, PowerResetSupervisor.init]
  have hfault : ∃ f, Iteration q a ⟨true, false, 0, 0⟩ = .error f := by
    by_cases hn : q.m_resetSequence = 0
    · exact ⟨.resetSequence 0, by simp [Iteration, UpdateResets, advance, hn]⟩
    · have hm : q.m_railSequence = 0 := by omega
      obtain ⟨u, fs, hu, -, -, -⟩ := updateResets_ok (q := q) (s := ⟨true, false, 0, 0⟩) a.isReady
        a.stillReady (restarted_indexed (s := .init) (Nat.pos_of_ne_zero hn) true)
      exact ⟨.railSequence u.m_monitorRailIndex, by simp [Iteration, hu, MonitorRails, hm]⟩
  obtain ⟨f, hf⟩ := hfault
  refine ⟨f, ?_⟩
  simp only [run, step, hon, hf]

/-- **Index safety.** Every run keeps every access inside its list and every
modulus positive exactly when neither list is empty. -/
theorem run_in_bounds_iff (q : Sequences) :
    (∀ ops, ∃ s log, run (step q) .init ops = .ok (s, log)) ↔
      0 < q.m_railSequence ∧ 0 < q.m_resetSequence := by
  constructor
  · intro h
    by_contra hempty
    obtain ⟨f, hf⟩ := poll_faults (q := q)
      ⟨fun _ => true, fun _ => true, fun _ => true, fun _ => true, fun _ => true⟩ (by omega)
    obtain ⟨s, log, hok⟩ := h _
    rw [hf] at hok; cases hok
  · rintro ⟨hm, hn⟩ ops
    exact run_total (fun _ op h => step_inBounds hn op h) (init_inBounds hm hn) ops

/-- A board without resets: `PowerOn` allows for it, the first poll does not. -/
theorem no_resets_fault :
    run (step ⟨1, 0⟩) .init [.PowerOn fun _ => true, .Iteration ⟨fun _ => true, fun _ => true,
      fun _ => true, fun _ => true, fun _ => true⟩] = .error (.resetSequence 0) := rfl

end EmbeddedPlatform.Supervisor
