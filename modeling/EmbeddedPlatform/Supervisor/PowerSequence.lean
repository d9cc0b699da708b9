import EmbeddedPlatform.Supervisor.ResetRelease
import EmbeddedPlatform.Supervisor.IndexSafety

/-! # Rails come up in order and go down in reverse

At every point of every run, inside the operations too, the rails that are on
are the first few of the sequence. -/
namespace EmbeddedPlatform.Supervisor
open EmbeddedPlatform.Lib

variable {q : Sequences} {s : PowerResetSupervisor} {b : Board} {k : Nat}

/-- Exactly the first `k` rails are on. -/
def RailsUpTo (k : Nat) (b : Board) : Prop := ∀ i, b.railOn i = decide (i < k)

/-- The rails that are on are a prefix of the sequence. -/
def RailPrefix (q : Sequences) (b : Board) : Prop := ∃ k ≤ q.m_railSequence, RailsUpTo k b

/-! ## Event lists -/

/-- Events that do not touch a rail. -/
def Event.keepsRails : Event → Bool
  | .TurnOn _ | .TurnOff _ => false
  | _ => true

theorem railsUpTo_act {e : Event} (he : e.keepsRails = true) (hb : RailsUpTo k b) :
    RailsUpTo k (b.act e) := by
  cases e <;> first | exact hb | cases he

theorem along_keepsRails {es : List Event} (hes : ∀ e ∈ es, e.keepsRails = true)
    (hk : k ≤ q.m_railSequence) (hb : RailsUpTo k b) :
    RailsUpTo k (replay Board.act b es) ∧ Along Board.act (RailPrefix q) b es := by
  induction es generalizing b with
  | nil => exact ⟨hb, k, hk, hb⟩
  | cons e es ih =>
    obtain ⟨h₁, h₂⟩ := ih (fun e he => hes e (by simp [he]))
      (railsUpTo_act (hes e (by simp)) hb)
    exact ⟨h₁, ⟨k, hk, hb⟩, h₂⟩

theorem railsUpTo_turnOn {j : Nat} (hj : j ≤ k) (hb : RailsUpTo k b) :
    RailsUpTo (max k (j + 1)) (b.act (.TurnOn j)) := by
  intro i
  by_cases hi : i = j
  · have : j < max k (j + 1) := by omega
    simp [Board.act, hi, this]
  · simp only [Board.act, if_neg hi, hb i]
    exact decide_eq_decide.mpr (by omega)

theorem along_turnOn {j c : Nat} (hj : j ≤ k) (hc : j + c ≤ q.m_railSequence)
    (hk : k ≤ q.m_railSequence) (hb : RailsUpTo k b) :
    RailsUpTo (max k (j + c)) (replay Board.act b ((List.range' j c).map .TurnOn)) ∧
      Along Board.act (RailPrefix q) b ((List.range' j c).map .TurnOn) := by
  induction c generalizing j k b with
  | zero =>
    rw [show max k (j + 0) = k by omega]
    exact ⟨hb, k, hk, hb⟩
  | succ c ih =>
    obtain ⟨h₁, h₂⟩ := ih (j := j + 1) (by omega) (by omega) (by omega) (railsUpTo_turnOn hj hb)
    rw [show max (max k (j + 1)) (j + 1 + c) = max k (j + (c + 1)) by omega] at h₁
    exact ⟨h₁, ⟨k, hk, hb⟩, h₂⟩

theorem along_turnOn_range {c : Nat} (hc : c ≤ q.m_railSequence) (hk : k ≤ q.m_railSequence)
    (hb : RailsUpTo k b) :
    RailsUpTo (max k c) (replay Board.act b ((List.range c).map .TurnOn)) ∧
      Along Board.act (RailPrefix q) b ((List.range c).map .TurnOn) := by
  have := along_turnOn (q := q) (j := 0) (c := c) (Nat.zero_le k) (by omega) hk hb
  rwa [← List.range_eq_range', Nat.zero_add] at this

theorem railsUpTo_turnOff {n : Nat} (hk : k ≤ n + 1) (hb : RailsUpTo k b) :
    RailsUpTo (min k n) (b.act (.TurnOff n)) := by
  intro i
  by_cases hi : i = n
  · have : ¬ n < min k n := by omega
    simp [Board.act, hi, this]
  · simp only [Board.act, if_neg hi, hb i]
    exact decide_eq_decide.mpr (by omega)

/-- Turning off downwards from at least the last rail that is on. -/
theorem along_turnOff {n : Nat} (hkn : k ≤ n) (hk : k ≤ q.m_railSequence) (hb : RailsUpTo k b) :
    RailsUpTo 0 (replay Board.act b ((List.range n).reverse.map .TurnOff)) ∧
      Along Board.act (RailPrefix q) b ((List.range n).reverse.map .TurnOff) := by
  induction n generalizing k b with
  | zero =>
    obtain rfl : k = 0 := by omega
    exact ⟨hb, 0, hk, hb⟩
  | succ n ih =>
    obtain ⟨h₁, h₂⟩ := ih (by omega) (by omega) (railsUpTo_turnOff hkn hb)
    rw [List.range_succ, List.reverse_append, List.reverse_singleton, List.singleton_append,
      List.map_cons]
    exact ⟨h₁, ⟨k, hk, hb⟩, h₂⟩

/-! ## Operations -/

theorem along_panicShutdown (hk : k ≤ q.m_railSequence) (hb : RailsUpTo k b) :
    RailsUpTo 0 (replay Board.act b (PanicShutdown q s).2) ∧
      Along Board.act (RailPrefix q) b (PanicShutdown q s).2 := by
  obtain ⟨h₁, h₂⟩ := along_turnOff hk hk hb
  have hrest : ∀ e ∈ (List.range q.m_resetSequence).map Event.Assert ++ [.OnFault],
      e.keepsRails = true := by
    intro e he
    simp only [List.mem_append, List.mem_map, List.mem_singleton] at he
    rcases he with ⟨_, -, rfl⟩ | rfl <;> rfl
  obtain ⟨h₃, h₄⟩ := along_keepsRails (q := q) hrest (Nat.zero_le _) h₁
  rw [PanicShutdown, List.append_assoc, replay_append]
  exact ⟨h₃, along_append.mpr ⟨h₂, h₄⟩⟩

theorem along_powerOff (hk : k ≤ q.m_railSequence) (hb : RailsUpTo k b) :
    RailsUpTo 0 (replay Board.act b (PowerOff q s).2) ∧
      Along Board.act (RailPrefix q) b (PowerOff q s).2 := by
  have hasserts : ∀ e ∈ (List.range q.m_resetSequence).reverse.map Event.Assert,
      e.keepsRails = true := by
    intro e he
    obtain ⟨_, -, rfl⟩ := List.mem_map.mp he
    rfl
  obtain ⟨h₁, h₂⟩ := along_keepsRails hasserts hk hb
  obtain ⟨h₃, h₄⟩ := along_turnOff hk hk h₁
  have hhook : ∀ e ∈ [Event.OnPowerOff], e.keepsRails = true := by simp [Event.keepsRails]
  obtain ⟨h₅, h₆⟩ := along_keepsRails (q := q) hhook (Nat.zero_le _) h₃
  rw [PowerOff, List.append_assoc, replay_append, replay_append]
  exact ⟨h₅, along_append.mpr ⟨h₂, along_append.mpr ⟨h₄, h₆⟩⟩⟩

theorem updateResets_keepsRails {isReady stillReady : Nat → Bool} {t : PowerResetSupervisor}
    {es : List Event} (h : s.Indexed q)
    (hu : UpdateResets q isReady stillReady s = .ok (t, es)) : ∀ e ∈ es, e.keepsRails = true := by
  have hmid : ∀ e ∈ (afterAdvance q isReady s).2, e.keepsRails = true := by
    unfold afterAdvance advanced
    dsimp only
    split
    · split <;> simp [Event.keepsRails]
    · simp
  rcases updateResets_cases isReady stillReady h with ⟨he, -⟩ | ⟨i, -, -, -, he⟩
  · obtain ⟨-, rfl⟩ := ok_eq (he.symm.trans hu)
    exact hmid
  · obtain ⟨-, rfl⟩ := ok_eq (he.symm.trans hu)
    intro e he
    rcases List.mem_append.mp he with he | he
    · exact hmid e he
    · obtain ⟨_, -, rfl⟩ := List.mem_map.mp he
      rfl

/-! ## Runs -/

/-- At an operation boundary: power on with all rails up, or everything down. -/
structure Boundary (q : Sequences) (s : PowerResetSupervisor) (b : Board) : Prop where
  indexed : s.Indexed q
  on : s.m_powerOn = true → RailsUpTo q.m_railSequence b
  off : s.m_powerOn = false → RailsUpTo 0 b ∧
    (∀ i < q.m_resetSequence, b.asserted i = true) ∧
    s.m_resetsDone = false ∧ s.m_resetSequenceIndex = 0

theorem Boundary.upTo (h : Boundary q s b) : ∃ k ≤ q.m_railSequence, RailsUpTo k b := by
  cases hon : s.m_powerOn with
  | true => exact ⟨_, Nat.le_refl _, h.on hon⟩
  | false => exact ⟨0, Nat.zero_le _, (h.off hon).1⟩

theorem Boundary.nextRail (h : Boundary q s b) : Boundary q (nextRail q s) b :=
  ⟨nextRail_indexed h.indexed, h.on, h.off⟩

/-- Both shutdown paths end at a boundary with everything down. -/
theorem boundary_shutdown (hn : 0 < q.m_resetSequence) {es : List Event}
    (hrails : RailsUpTo 0 (replay Board.act b es))
    (hpins : PinsFollow q (restarted s false) (replay Board.act b es)) :
    Boundary q (restarted s false) (replay Board.act b es) :=
  ⟨restarted_indexed hn false, fun hon => (nomatch hon),
    fun _ => ⟨hrails, fun i hi => by simpa [restarted] using hpins i hi, rfl, rfl⟩⟩

theorem powerOn_boundary (hn : 0 < q.m_resetSequence) (turnOn : Nat → Bool)
    (h : Boundary q s b) :
    Boundary q (PowerOn q turnOn s).1 (replay Board.act b (PowerOn q turnOn s).2) ∧
      Along Board.act (RailPrefix q) b (PowerOn q turnOn s).2 := by
  obtain ⟨k, hk, hb⟩ := h.upTo
  rcases powerOn_cases q turnOn s with he | ⟨c, hc, he⟩
  · obtain ⟨h₁, h₂⟩ := along_turnOn_range (Nat.le_refl _) hk hb
    rw [Nat.max_eq_right hk] at h₁
    have hrelease : ∀ e ∈ releaseFirst q, e.keepsRails = true := by
      intro e he
      unfold releaseFirst at he
      split at he <;> simp only [List.singleton_append, List.nil_append, List.mem_cons,
        List.not_mem_nil, or_false] at he
      · rcases he with rfl | rfl <;> rfl
      · rw [he]; rfl
    obtain ⟨h₃, h₄⟩ := along_keepsRails hrelease (Nat.le_refl _) h₁
    rw [he, replay_append]
    exact ⟨⟨restarted_indexed hn true, fun _ => h₃, fun hoff => (nomatch hoff)⟩,
      along_append.mpr ⟨h₂, h₄⟩⟩
  · -- a rail failed: whatever was brought up goes down again
    obtain ⟨h₁, h₂⟩ := along_turnOn_range hc hk hb
    obtain ⟨h₃, h₄⟩ := along_panicShutdown (q := q) (s := s) (by omega) h₁
    rw [he]
    refine ⟨boundary_shutdown hn (by rwa [replay_append]) ?_, along_append.mpr ⟨h₂, h₄⟩⟩
    rw [replay_append]
    exact panicShutdown_pins q s _

theorem checkRail_boundary (hn : 0 < q.m_resetSequence) {a : Answers} {rail : Nat}
    (h : Boundary q s b) :
    Boundary q (checkRail q a rail s).1 (replay Board.act b (checkRail q a rail s).2) ∧
      Along Board.act (RailPrefix q) b (checkRail q a rail s).2 := by
  obtain ⟨k, hk, hb⟩ := h.upTo
  rcases checkRail_cases q a rail s with he | ⟨-, -, he⟩ | ⟨-, -, -, he⟩
  · rw [he]; exact ⟨h, k, hk, hb⟩
  · obtain ⟨h₁, h₂⟩ := along_panicShutdown (s := s) hk hb
    rw [he]
    exact ⟨boundary_shutdown hn h₁ (panicShutdown_pins q s b), h₂⟩
  · obtain ⟨h₁, h₂⟩ := along_powerOff (s := s) hk hb
    rw [he]
    exact ⟨boundary_shutdown hn h₁ (powerOff_pins q s b), ⟨k, hk, hb⟩, h₂⟩

theorem iteration_boundary (hn : 0 < q.m_resetSequence) {a : Answers} {t : PowerResetSupervisor}
    {es : List Event} (h : Boundary q s b) (hs : Iteration q a s = .ok (t, es)) :
    Boundary q t (replay Board.act b es) ∧ Along Board.act (RailPrefix q) b es := by
  cases hon : s.m_powerOn with
  | false =>
    rw [iteration_off a hon] at hs
    cases hs
    exact ⟨h, h.upTo⟩
  | true =>
    obtain ⟨u, fs, v, gs, hu, hv, rfl, rfl⟩ := iteration_ok hon hs
    obtain ⟨u', fs', hu', hIx, hpower, -⟩ := updateResets_ok a.isReady a.stillReady h.indexed
    obtain ⟨rfl, rfl⟩ := ok_eq (hu'.symm.trans hu)
    obtain ⟨h₁, h₂⟩ := along_keepsRails (updateResets_keepsRails h.indexed hu) (Nat.le_refl _) (h.on hon)
    have hmid : Boundary q u (replay Board.act b fs) :=
      ⟨hIx, fun _ => h₁, fun hoff => by rw [hpower, hon] at hoff; cases hoff⟩
    obtain ⟨h₃, h₄⟩ := checkRail_boundary hn (a := a) (s := u) hmid
    rw [hv] at h₃ h₄
    rw [replay_append]
    exact ⟨h₃.nextRail, along_append.mpr ⟨h₂, h₄⟩⟩

theorem step_boundary (hn : 0 < q.m_resetSequence) {op : Op} {t : PowerResetSupervisor}
    {es : List Event} (h : Boundary q s b) (hs : step q s op = .ok (t, es)) :
    Boundary q t (replay Board.act b es) ∧ Along Board.act (RailPrefix q) b es := by
  obtain ⟨k, hk, hb⟩ := h.upTo
  cases op with
  | PowerOn turnOn =>
    obtain ⟨rfl, rfl⟩ := ok_eq hs
    exact powerOn_boundary hn turnOn h
  | PowerOff =>
    obtain ⟨rfl, rfl⟩ := ok_eq hs
    obtain ⟨h₁, h₂⟩ := along_powerOff (s := s) hk hb
    exact ⟨boundary_shutdown hn h₁ (powerOff_pins q s b), h₂⟩
  | PanicShutdown =>
    obtain ⟨rfl, rfl⟩ := ok_eq hs
    obtain ⟨h₁, h₂⟩ := along_panicShutdown (s := s) hk hb
    exact ⟨boundary_shutdown hn h₁ (panicShutdown_pins q s b), h₂⟩
  | Iteration a => exact iteration_boundary hn h hs

theorem init_boundary (hn : 0 < q.m_resetSequence) : Boundary q .init Board.off :=
  ⟨init_indexed hn, fun hon => (nomatch hon),
    fun _ => ⟨fun _ => rfl, fun _ _ => rfl, rfl, rfl⟩⟩

/-- **Power sequencing.** Every run completes; at every point of it the rails
that are on are a prefix of the sequence; between operations power on means all
rails up, power off means everything down and the sequencer reset. -/
theorem power_sequencing (q : Sequences) (hm : 0 < q.m_railSequence) (hn : 0 < q.m_resetSequence)
    (ops : List Op) :
    ∃ s log, run (step q) .init ops = .ok (s, log) ∧
      (∀ pre, pre <+: log → ∃ k ≤ q.m_railSequence,
        ∀ i, (replay Board.act Board.off pre).railOn i = decide (i < k)) ∧
      (s.m_powerOn = true →
        ∀ i < q.m_railSequence, (replay Board.act Board.off log).railOn i = true) ∧
      (s.m_powerOn = false →
        (∀ i, (replay Board.act Board.off log).railOn i = false) ∧
        (∀ i < q.m_resetSequence, (replay Board.act Board.off log).asserted i = true) ∧
        s.m_resetsDone = false ∧ s.m_resetSequenceIndex = 0) := by
  obtain ⟨s, log, hr⟩ := run_total (fun _ op h => step_inBounds hn op h) (init_inBounds hm hn) ops
  obtain ⟨hB, hA⟩ := run_along (C := fun _ _ => True) (J := Boundary q)
    (fun _ _ _ _ _ h _ hs => step_boundary hn h hs) (fun _ _ h => h.upTo)
    (init_boundary hn) (allSteps_true _ _) hr
  refine ⟨s, log, hr, along_iff_prefix.mp hA, fun hon i hi => ?_, fun hoff => ?_⟩
  · rw [hB.on hon i]; exact decide_eq_true hi
  · obtain ⟨h₁, h₂, h₃, h₄⟩ := hB.off hoff
    exact ⟨fun i => by rw [h₁ i]; rfl, h₂, h₃, h₄⟩

/-- Three rails, the second of which fails to come up. -/
theorem power_sequencing_failed_rail :
    ∃ s log, run (step ⟨3, 1⟩) .init [.PowerOn fun i => i != 1] = .ok (s, log) ∧
      (∀ pre, pre <+: log → ∃ k ≤ 3,
        ∀ i, (replay Board.act Board.off pre).railOn i = decide (i < k)) ∧
      (s.m_powerOn = true →
        ∀ i < 3, (replay Board.act Board.off log).railOn i = true) ∧
      (s.m_powerOn = false →
        (∀ i, (replay Board.act Board.off log).railOn i = false) ∧
        (∀ i < 1, (replay Board.act Board.off log).asserted i = true) ∧
        s.m_resetsDone = false ∧ s.m_resetSequenceIndex = 0) :=
  power_sequencing ⟨3, 1⟩ (by decide) (by decide) [.PowerOn fun i => i != 1]

end EmbeddedPlatform.Supervisor
