import EmbeddedPlatform.Supervisor.Operations

/-! # When resets are released

The reset state machine against its purpose: devices come up one at a time,
each after all the ones before it. `idealNext` is where one poll should take
the sequence; the code's index follows it exactly, and its pins follow the
index. What the code does in between is another matter: it advances before it
looks at the earlier devices. -/
namespace EmbeddedPlatform.Supervisor
open EmbeddedPlatform.Lib

variable {q : Sequences} {s : PowerResetSupervisor} {b : Board}

/-! ## The ideal sequencer -/

/-- The first reset that is not ready; the length of the list if all are. -/
def firstDown (q : Sequences) (ready : Nat → Bool) : Nat :=
  (List.range q.m_resetSequence).findIdx fun i => !ready i

/-- One poll releases at most one more device and never goes past one that is
down. -/
def idealNext (q : Sequences) (ready : Nat → Bool) (index : Nat) : Nat :=
  min q.m_resetSequence (min (index + 1) (firstDown q ready))

theorem ready_of_lt_firstDown {ready : Nat → Bool} {i : Nat} (hi : i < firstDown q ready) :
    ready i = true := by
  have := List.not_of_lt_findIdx (p := fun i => !ready i) hi
  simpa using this

theorem down_firstDown {ready : Nat → Bool} (h : firstDown q ready < q.m_resetSequence) :
    ready (firstDown q ready) = false := by
  have hlt : firstDown q ready < (List.range q.m_resetSequence).length := by simpa using h
  have := ((List.findIdx_eq hlt).mp rfl).1
  simpa using this

theorem firstDown_eq {ready : Nat → Bool} {i : Nat} (hi : i < q.m_resetSequence)
    (hdown : ready i = false) (hbefore : ∀ k < i, ready k = true) : firstDown q ready = i := by
  have hle : firstDown q ready ≤ i := by
    by_contra hlt
    have := ready_of_lt_firstDown (Nat.lt_of_not_le hlt)
    rw [hdown] at this; cases this
  rcases Nat.lt_or_eq_of_le hle with hlt | he
  · have hd := down_firstDown (Nat.lt_trans hlt hi)
    rw [hbefore _ hlt] at hd; cases hd
  · exact he

theorem le_firstDown {ready : Nat → Bool} {m : Nat} (hm : m ≤ q.m_resetSequence)
    (hall : ∀ i < m, ready i = true) : m ≤ firstDown q ready := by
  by_contra hlt
  have hlt := Nat.lt_of_not_le hlt
  have hd := down_firstDown (Nat.lt_of_lt_of_le hlt hm)
  rw [hall _ hlt] at hd; cases hd

/-! ## The index of the code -/

theorem afterAdvance_index (q : Sequences) (isReady : Nat → Bool) (s : PowerResetSupervisor) :
    (afterAdvance q isReady s).1.m_resetSequenceIndex =
      if Advances isReady s then s.m_resetSequenceIndex + 1 else s.m_resetSequenceIndex := by
  unfold afterAdvance advanced
  dsimp only
  split
  · split <;> rfl
  · rfl

/-- A poll under answers that do not change during it takes the index where the
ideal sequencer goes. -/
theorem updateResets_index (ready : Nat → Bool) (h : s.Indexed q) :
    ∃ t es, UpdateResets q ready ready s = .ok (t, es) ∧
      t.m_resetSequenceIndex = idealNext q ready s.m_resetSequenceIndex := by
  have hmid := (afterAdvance_indexed ready h).le
  rw [afterAdvance_index] at hmid
  rcases updateResets_cases ready ready h with ⟨he, hall⟩ | ⟨i, hi, hdown, hbefore, he⟩
  · refine ⟨(afterAdvance q ready s).1, (afterAdvance q ready s).2, he, ?_⟩
    have hle := le_firstDown (afterAdvance_indexed ready h).le hall
    rw [afterAdvance_index] at hle ⊢
    unfold idealNext
    split at hmid
    · rename_i ha
      rw [if_pos ha] at hle ⊢
      omega
    · rename_i ha
      rw [if_neg ha] at hle ⊢
      cases hd : s.m_resetsDone with
      | true =>
        have := h.done_iff.mp hd
        omega
      | false =>
        -- the current device is the first one down
        have hr : ready s.m_resetSequenceIndex = false := by
          simpa [Advances, hd] using ha
        have := firstDown_eq (h.lt hd) hr fun k hk =>
          ready_of_lt_firstDown (q := q) (by omega)
        omega
  · refine ⟨_, _, he, ?_⟩
    have hf := firstDown_eq (Nat.lt_of_lt_of_le hi (afterAdvance_indexed ready h).le) hdown hbefore
    rw [afterAdvance_index] at hi
    unfold idealNext backedUp
    dsimp only
    split at hi
    · rename_i ha
      rw [if_pos ha] at hmid
      omega
    · rename_i ha
      rw [if_neg ha] at hmid
      omega

/-! ## The pins -/

/-- While power is on, the devices up to the current one are released and the
ones behind it held; while it is off, all are held. -/
def PinsFollow (q : Sequences) (s : PowerResetSupervisor) (b : Board) : Prop :=
  ∀ i < q.m_resetSequence,
    b.asserted i = if s.m_powerOn then decide (s.m_resetSequenceIndex < i) else true

theorem panicShutdown_pins (q : Sequences) (s : PowerResetSupervisor) (b : Board) :
    PinsFollow q (restarted s false) (replay Board.act b (PanicShutdown q s).2) := by
  intro i hi
  simp only [PanicShutdown, replay_append, replay_cons, replay_nil, Board.act, replay_assert,
    List.mem_range, hi, restarted]
  simp

theorem powerOff_pins (q : Sequences) (s : PowerResetSupervisor) (b : Board) :
    PinsFollow q (restarted s false) (replay Board.act b (PowerOff q s).2) := by
  intro i hi
  simp only [PowerOff, replay_append, replay_cons, replay_nil, Board.act,
    replay_turnOff, replay_assert, List.mem_reverse, List.mem_range, hi, restarted]
  simp

theorem powerOn_pins (hn : 0 < q.m_resetSequence) (turnOn : Nat → Bool)
    (hoff : s.m_powerOn = false) (hb : PinsFollow q s b) :
    PinsFollow q (PowerOn q turnOn s).1 (replay Board.act b (PowerOn q turnOn s).2) := by
  rcases powerOn_cases q turnOn s with he | ⟨k, -, he⟩
  · rw [he, replay_append, replay_turnOn]
    intro i hi
    have := hb i hi
    rw [hoff] at this
    by_cases h0 : i = 0
    · subst h0
      simp [releaseFirst, Nat.ne_of_gt hn, Board.act, restarted]
    · have hpos := Nat.pos_of_ne_zero h0
      simp [releaseFirst, Nat.ne_of_gt hn, Board.act, restarted, h0, hpos, this]
  · rw [he, replay_append]
    exact panicShutdown_pins q s _

theorem afterAdvance_pins (isReady : Nat → Bool) (h : s.Indexed q) (hon : s.m_powerOn = true)
    (hb : PinsFollow q s b) :
    PinsFollow q (afterAdvance q isReady s).1 (replay Board.act b (afterAdvance q isReady s).2) := by
  unfold afterAdvance
  split
  · rename_i ha
    have hlt := h.lt ha.1
    unfold advanced
    dsimp only
    split
    · intro i hi
      have := hb i hi
      simp only [hon, if_true, replay_cons, replay_nil, Board.act] at this ⊢
      by_cases he : i = s.m_resetSequenceIndex + 1
      · simp [he]
      · rw [if_neg he, this]
        exact decide_eq_decide.mpr (by omega)
    · intro i hi
      have := hb i hi
      simp only [hon, if_true, replay_cons, replay_nil, Board.act] at this ⊢
      rw [this]
      exact decide_eq_decide.mpr (by omega)
  · exact hb

theorem backedUp_pins {i : Nat} (hi : i < s.m_resetSequenceIndex) (hon : s.m_powerOn = true)
    (hb : PinsFollow q s b) :
    PinsFollow q (backedUp s i) (replay Board.act b (assertBehind q i)) := by
  intro j hj
  have := hb j hj
  simp only [hon, if_true] at this
  simp only [assertBehind, replay_assert, List.mem_range'_1, backedUp, hon, if_true, this]
  by_cases hij : i < j
  · rw [if_pos (by omega)]; simp [hij]
  · rw [if_neg (by omega)]
    exact decide_eq_decide.mpr (by omega)

theorem updateResets_pins {isReady stillReady : Nat → Bool} {t : PowerResetSupervisor}
    {es : List Event} (h : s.Indexed q) (hon : s.m_powerOn = true) (hb : PinsFollow q s b)
    (hu : UpdateResets q isReady stillReady s = .ok (t, es)) :
    PinsFollow q t (replay Board.act b es) := by
  have hmid := afterAdvance_pins isReady h hon hb
  rcases updateResets_cases isReady stillReady h with ⟨he, -⟩ | ⟨i, hi, -, -, he⟩
  · obtain ⟨rfl, rfl⟩ := ok_eq (he.symm.trans hu)
    exact hmid
  · obtain ⟨rfl, rfl⟩ := ok_eq (he.symm.trans hu)
    obtain ⟨t', es', he', -, hon', -⟩ := updateResets_ok isReady stillReady h
    have hpower : (afterAdvance q isReady s).1.m_powerOn = true := by
      obtain ⟨rfl, -⟩ := ok_eq (he.symm.trans he')
      exact hon'.trans hon
    rw [replay_append]
    exact backedUp_pins hi hpower hmid

theorem checkRail_pins {a : Answers} {rail : Nat} (hb : PinsFollow q s b) :
    PinsFollow q (checkRail q a rail s).1 (replay Board.act b (checkRail q a rail s).2) := by
  rcases checkRail_cases q a rail s with he | ⟨-, -, he⟩ | ⟨-, -, -, he⟩
  · rw [he]; exact hb
  · rw [he]; exact panicShutdown_pins q s b
  · rw [he]; exact powerOff_pins q s b

/-- A `PowerOn` comes only while power is off. -/
def PowerOnWhileOff (s : PowerResetSupervisor) (op : Op) : Prop :=
  ∀ turnOn, op = .PowerOn turnOn → s.m_powerOn = false

theorem step_pins (hn : 0 < q.m_resetSequence) {op : Op} {t : PowerResetSupervisor}
    {es : List Event} (h : s.Indexed q) (hop : PowerOnWhileOff s op) (hb : PinsFollow q s b)
    (hs : step q s op = .ok (t, es)) : PinsFollow q t (replay Board.act b es) := by
  cases op with
  | PowerOn turnOn =>
    obtain ⟨rfl, rfl⟩ := ok_eq hs
    exact powerOn_pins hn turnOn (hop turnOn rfl) hb
  | PowerOff => cases hs; exact powerOff_pins q s b
  | PanicShutdown => cases hs; exact panicShutdown_pins q s b
  | Iteration a =>
    cases hon : s.m_powerOn with
    | false =>
      rw [step, iteration_off a hon] at hs
      cases hs; exact hb
    | true =>
      obtain ⟨u, fs, v, gs, hu, hv, rfl, rfl⟩ := iteration_ok hon hs
      have hpins := updateResets_pins h hon hb hu
      have hrail : PinsFollow q (checkRail q a u.m_monitorRailIndex u).1 _ := checkRail_pins hpins
      rw [hv, ← replay_append] at hrail
      exact hrail

theorem run_pins (hn : 0 < q.m_resetSequence) {ops : List Op} {log : List Event}
    (hops : AllSteps (step q) PowerOnWhileOff .init ops) (hb : ∀ i, b.asserted i = true)
    (hr : run (step q) .init ops = .ok (s, log)) :
    s.Indexed q ∧ PinsFollow q s (replay Board.act b log) := by
  have := run_rule
    (J := fun s log _ => s.Indexed q ∧ PinsFollow q s (replay Board.act b log)) (l := []) (b := [])
    (fun s log _ op t es hJ hC hs => ⟨step_indexed hn hJ.1 hs, by
      rw [replay_append]; exact step_pins hn hJ.1 hC hJ.2 hs⟩)
    ⟨init_indexed hn, fun i _ => by simp [PowerResetSupervisor.init, hb i]⟩ hops hr
  simpa using this

/-- **The reset sequencer refines the ideal one.** In every state of every run
the pins are those of the index and the done flag says the index is at the end;
each poll under steady answers moves the index as the ideal sequencer does. -/
theorem sequencer_refines (q : Sequences) (hn : 0 < q.m_resetSequence) (b : Board)
    (hb : ∀ i, b.asserted i = true) (ops : List Op)
    (hops : AllSteps (step q) PowerOnWhileOff .init ops) (s : PowerResetSupervisor)
    (log : List Event) (hr : run (step q) .init ops = .ok (s, log))
    (hon : s.m_powerOn = true) :
    (∀ i < q.m_resetSequence,
      (replay Board.act b log).asserted i = decide (s.m_resetSequenceIndex < i)) ∧
    (s.m_resetsDone = true ↔ s.m_resetSequenceIndex = q.m_resetSequence) ∧
    ∀ ready : Nat → Bool, ∃ t es, UpdateResets q ready ready s = .ok (t, es) ∧
      t.m_resetSequenceIndex =
        min q.m_resetSequence (min (s.m_resetSequenceIndex + 1) (firstDown q ready)) := by
  obtain ⟨hIx, hpins⟩ := run_pins hn hops hb hr
  refine ⟨fun i hi => ?_, hIx.done_iff, fun ready => updateResets_index ready hIx⟩
  have := hpins i hi
  simpa [hon] using this

/-- Two resets, the first one up: the second is released. -/
theorem sequencer_refines_two :
    let s : PowerResetSupervisor := ⟨true, false, 1, 0⟩
    (∀ i < 2, (replay Board.act Board.off [.TurnOn 0, .Deassert 0, .OnPowerOn, .Deassert 1]).asserted
      i = decide (1 < i)) ∧
    (s.m_resetsDone = true ↔ s.m_resetSequenceIndex = 2) ∧
    ∀ ready : Nat → Bool, ∃ t es, UpdateResets ⟨1, 2⟩ ready ready s = .ok (t, es) ∧
      t.m_resetSequenceIndex = min 2 (min 2 (firstDown ⟨1, 2⟩ ready)) :=
  sequencer_refines ⟨1, 2⟩ (by decide) Board.off (fun _ => rfl)
    [.PowerOn fun _ => true, .Iteration ⟨fun i => i == 0, fun _ => true, fun _ => true,
      fun _ => true, fun _ => true⟩]
    ⟨fun _ _ => rfl, fun _ _ _ => ⟨fun _ h => (nomatch h), fun _ _ _ => trivial⟩⟩
    _ _ rfl rfl

/-! ## Releases during one poll -/

/-- No device is released, and completion is not announced, while an earlier
device is down. -/
def ReleaseSafe (q : Sequences) (ready : Nat → Bool) (es : List Event) : Prop :=
  (∀ j, .Deassert j ∈ es → ∀ i < j, ready i = true) ∧
    (.OnResetDone ∈ es → ∀ i < q.m_resetSequence, ready i = true)

/-- The sequence is about to advance although a device before the current one
is down. -/
def AdvancesPastDown (ready : Nat → Bool) (s : PowerResetSupervisor) : Prop :=
  Advances ready s ∧ ∃ i < s.m_resetSequenceIndex, ready i = false

theorem releaseSafe_nil (ready : Nat → Bool) : ReleaseSafe q ready [] := by
  simp [ReleaseSafe]

theorem releaseSafe_append_assertBehind {ready : Nat → Bool} {es : List Event} {i : Nat} :
    ReleaseSafe q ready (es ++ assertBehind q i) ↔ ReleaseSafe q ready es := by
  simp [ReleaseSafe, assertBehind]

theorem releaseSafe_advanced {ready : Nat → Bool} (h : s.Indexed q) (ha : Advances ready s) :
    ReleaseSafe q ready (advanced q s).2 ↔ ∀ i < s.m_resetSequenceIndex, ready i = true := by
  have hlt := h.lt ha.1
  unfold advanced
  dsimp only
  split
  · simp only [ReleaseSafe, List.mem_singleton, Event.Deassert.injEq, forall_eq, reduceCtorEq,
      false_implies, and_true]
    constructor
    · intro hs i hi; exact hs i (by omega)
    · intro hs i hi
      rcases Nat.lt_or_eq_of_le (Nat.le_of_lt_succ hi) with hi | rfl
      · exact hs i hi
      · exact ha.2
  · simp only [ReleaseSafe, List.mem_singleton, reduceCtorEq, false_implies, implies_true,
      true_and, forall_const]
    constructor
    · intro hs i hi; exact hs i (by omega)
    · intro hs i hi
      rcases Nat.lt_or_eq_of_le (show i ≤ s.m_resetSequenceIndex by omega) with hi | rfl
      · exact hs i hi
      · exact ha.2

theorem releaseSafe_afterAdvance {ready : Nat → Bool} (h : s.Indexed q) :
    ReleaseSafe q ready (afterAdvance q ready s).2 ↔ ¬ AdvancesPastDown ready s := by
  by_cases ha : Advances ready s
  · rw [afterAdvance, if_pos ha, releaseSafe_advanced h ha]
    simp [AdvancesPastDown, ha]
  · rw [afterAdvance, if_neg ha]
    simp [AdvancesPastDown, ha, releaseSafe_nil]

/-- **When a poll releases safely.** In every reachable state, a poll under
steady answers releases no device past one that is down unless it advances with
an earlier device down: the earlier devices are looked at only afterwards. -/
theorem release_safe_iff (q : Sequences) (hn : 0 < q.m_resetSequence) (ops : List Op)
    (s : PowerResetSupervisor) (log : List Event) (hr : run (step q) .init ops = .ok (s, log))
    (ready : Nat → Bool) :
    ∃ t es, UpdateResets q ready ready s = .ok (t, es) ∧
      (ReleaseSafe q ready es ↔ ¬ AdvancesPastDown ready s) := by
  have h := run_indexed hn hr
  rcases updateResets_cases ready ready h with ⟨he, -⟩ | ⟨i, -, -, -, he⟩
  · exact ⟨(afterAdvance q ready s).1, (afterAdvance q ready s).2, he,
      releaseSafe_afterAdvance h⟩
  · refine ⟨_, _, he, ?_⟩
    rw [releaseSafe_append_assertBehind]
    exact releaseSafe_afterAdvance h

theorem release_safe_iff_three :
    ∃ t es, UpdateResets ⟨1, 3⟩ (fun _ => true) (fun _ => true) ⟨true, false, 0, 0⟩ = .ok (t, es) ∧
      (ReleaseSafe ⟨1, 3⟩ (fun _ => true) es ↔
        ¬ AdvancesPastDown (fun _ => true) ⟨true, false, 0, 0⟩) :=
  release_safe_iff ⟨1, 3⟩ (by decide) [.PowerOn fun _ => true] _ _ rfl fun _ => true

/-- Three resets, the second one being waited for: in the poll in which it
comes up and the first goes down, the third is released. -/
theorem release_past_down :
    ∃ s log t es,
      run (step ⟨1, 3⟩) .init [.PowerOn fun _ => true, .Iteration ⟨fun i => i == 0, fun _ => true,
        fun _ => true, fun _ => true, fun _ => true⟩] = .ok (s, log) ∧
      s.m_powerOn = true ∧
      UpdateResets ⟨1, 3⟩ (fun i => i == 1) (fun i => i == 1) s = .ok (t, es) ∧
      .Deassert 2 ∈ es ∧ ¬ ReleaseSafe ⟨1, 3⟩ (fun i => i == 1) es := by
  refine ⟨_, _, _, _, rfl, rfl, rfl, by decide, fun h => ?_⟩
  have := h.1 2 (by decide) 0 (by decide)
  cases this

end EmbeddedPlatform.Supervisor
