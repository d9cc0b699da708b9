import EmbeddedPlatform.Supervisor.PowerResetSupervisor

/-! # The reset sequence

What `UpdateResets` can do is stated once, in `updateResets_cases`; everything
about the reset state machine follows from it. -/
namespace EmbeddedPlatform.Supervisor
open EmbeddedPlatform.Lib

variable {q : Sequences} {s : PowerResetSupervisor}

/-- The index stays within the list, and reaches its end exactly when all
resets are up. -/
structure PowerResetSupervisor.Indexed (q : Sequences) (s : PowerResetSupervisor) : Prop where
  le : s.m_resetSequenceIndex ≤ q.m_resetSequence
  done_iff : s.m_resetsDone = true ↔ s.m_resetSequenceIndex = q.m_resetSequence

theorem PowerResetSupervisor.Indexed.lt (h : s.Indexed q) (hd : s.m_resetsDone = false) :
    s.m_resetSequenceIndex < q.m_resetSequence := by
  have := h.le
  have hne : s.m_resetSequenceIndex ≠ q.m_resetSequence := by
    intro he; rw [h.done_iff.mpr he] at hd; cases hd
  omega

/-! ## One call of UpdateResets -/

/-- The device the running sequence waits for is up. -/
def Advances (isReady : Nat → Bool) (s : PowerResetSupervisor) : Prop :=
  s.m_resetsDone = false ∧ isReady s.m_resetSequenceIndex = true

instance (isReady : Nat → Bool) (s : PowerResetSupervisor) : Decidable (Advances isReady s) :=
  inferInstanceAs (Decidable (_ ∧ _))

/-- The state and the events of a sequence that advances. -/
def advanced (q : Sequences) (s : PowerResetSupervisor) : Outcome :=
  let next := s.m_resetSequenceIndex + 1
  if next < q.m_resetSequence then
    ({ s with m_resetSequenceIndex := next }, [.Deassert next])
  else ({ s with m_resetSequenceIndex := next, m_resetsDone := true }, [.OnResetDone])

/-- What the first half of `UpdateResets` leaves. -/
def afterAdvance (q : Sequences) (isReady : Nat → Bool) (s : PowerResetSupervisor) : Outcome :=
  if Advances isReady s then advanced q s else (s, [])

theorem advance_eq (isReady : Nat → Bool) (h : s.Indexed q) :
    advance q isReady s = .ok (afterAdvance q isReady s) := by
  unfold advance
  cases hd : s.m_resetsDone with
  | true => simp [afterAdvance, Advances, hd]
  | false =>
    have hlt := h.lt hd
    cases hr : isReady s.m_resetSequenceIndex with
    | false => simp [afterAdvance, Advances, hd, hr, hlt]
    | true =>
      by_cases hn : s.m_resetSequenceIndex + 1 < q.m_resetSequence
      · simp [afterAdvance, Advances, advanced, hd, hr, hlt, hn]
      · simp [afterAdvance, Advances, advanced, hd, hr, hlt, hn, Nat.le_of_not_lt hn]

theorem advanced_indexed (h : s.Indexed q) (hd : s.m_resetsDone = false) :
    (advanced q s).1.Indexed q := by
  have hlt := h.lt hd
  unfold advanced
  dsimp only
  split
  · rename_i hn
    refine ⟨by simp; omega, ?_⟩
    simp only [hd]
    constructor
    · intro hc; cases hc
    · intro he; omega
  · refine ⟨by simp; omega, ?_⟩
    simp only [true_iff]
    omega

theorem afterAdvance_indexed (isReady : Nat → Bool) (h : s.Indexed q) :
    (afterAdvance q isReady s).1.Indexed q := by
  unfold afterAdvance
  split
  · rename_i ha; exact advanced_indexed h ha.1
  · exact h

/-- The state after backing up to device `i`. -/
def backedUp (s : PowerResetSupervisor) (i : Nat) : PowerResetSupervisor :=
  { s with m_resetSequenceIndex := i, m_resetsDone := false }

/-- The resets behind device `i` are asserted, in order. -/
def assertBehind (q : Sequences) (i : Nat) : List Event :=
  (List.range' (i + 1) (q.m_resetSequence - (i + 1))).map .Assert

theorem backUp_range' (stillReady : Nat → Bool) (s : PowerResetSupervisor) (j m : Nat)
    (hm : j + m ≤ q.m_resetSequence) :
    (backUp q stillReady s (List.range' j m) = .ok (s, []) ∧
      ∀ i, j ≤ i → i < j + m → stillReady i = true) ∨
    ∃ i, j ≤ i ∧ i < j + m ∧ stillReady i = false ∧
      (∀ k, j ≤ k → k < i → stillReady k = true) ∧
      backUp q stillReady s (List.range' j m) = .ok (backedUp s i, assertBehind q i) := by
  induction m generalizing j with
  | zero => exact .inl ⟨rfl, fun i h₁ h₂ => by omega⟩
  | succ m ih =>
    have hj : j < q.m_resetSequence := by omega
    cases hr : stillReady j with
    | false =>
      refine .inr ⟨j, Nat.le_refl j, by omega, hr, fun k h₁ h₂ => by omega, ?_⟩
      simp [List.range'_succ, backUp, hj, hr, backedUp, assertBehind]
    | true =>
      have hstep : backUp q stillReady s (List.range' j (m + 1)) =
          backUp q stillReady s (List.range' (j + 1) m) := by
        simp [List.range'_succ, backUp, hj, hr]
      rw [hstep]
      rcases ih (j + 1) (by omega) with ⟨he, hall⟩ | ⟨i, h₁, h₂, hi, hbefore, he⟩
      · refine .inl ⟨he, fun i h₁ h₂ => ?_⟩
        rcases Nat.eq_or_lt_of_le h₁ with rfl | h
        · exact hr
        · exact hall i h (by omega)
      · refine .inr ⟨i, by omega, by omega, hi, fun k h₁ h₂ => ?_, he⟩
        rcases Nat.eq_or_lt_of_le h₁ with rfl | h
        · exact hr
        · exact hbefore k h h₂

/-- Either every earlier device is still up and nothing happens, or the
sequence backs up to the first that is not. -/
theorem backUp_cases (stillReady : Nat → Bool)
    (hle : s.m_resetSequenceIndex ≤ q.m_resetSequence) :
    (backUp q stillReady s (List.range s.m_resetSequenceIndex) = .ok (s, []) ∧
      ∀ i < s.m_resetSequenceIndex, stillReady i = true) ∨
    ∃ i < s.m_resetSequenceIndex, stillReady i = false ∧ (∀ k < i, stillReady k = true) ∧
      backUp q stillReady s (List.range s.m_resetSequenceIndex) =
        .ok (backedUp s i, assertBehind q i) := by
  rw [List.range_eq_range']
  rcases backUp_range' (q := q) stillReady s 0 s.m_resetSequenceIndex (by omega) with
    ⟨he, hall⟩ | ⟨i, -, h₂, hi, hbefore, he⟩
  · exact .inl ⟨he, fun i hi => hall i (Nat.zero_le i) (by omega)⟩
  · exact .inr ⟨i, by omega, hi, fun k hk => hbefore k (Nat.zero_le k) hk, he⟩

theorem backedUp_indexed (s : PowerResetSupervisor) {i : Nat} (hi : i < q.m_resetSequence) :
    (backedUp s i).Indexed q := by
  refine ⟨Nat.le_of_lt hi, ?_⟩
  simp only [backedUp, Bool.false_eq_true, false_iff]
  omega

/-- Everything `UpdateResets` can do: advance if the current device is up, then
either keep the result or back up to the first earlier device that is down. -/
theorem updateResets_cases (isReady stillReady : Nat → Bool) (h : s.Indexed q) :
    (UpdateResets q isReady stillReady s = .ok (afterAdvance q isReady s) ∧
      ∀ i < (afterAdvance q isReady s).1.m_resetSequenceIndex, stillReady i = true) ∨
    ∃ i < (afterAdvance q isReady s).1.m_resetSequenceIndex, stillReady i = false ∧
      (∀ k < i, stillReady k = true) ∧
      UpdateResets q isReady stillReady s =
        .ok (backedUp (afterAdvance q isReady s).1 i,
          (afterAdvance q isReady s).2 ++ assertBehind q i) := by
  unfold UpdateResets
  rw [advance_eq isReady h]
  dsimp only
  rcases backUp_cases stillReady (afterAdvance_indexed isReady h).le with
    ⟨he, hall⟩ | ⟨i, hi, hdown, hbefore, he⟩
  · exact .inl ⟨by simp [he], hall⟩
  · exact .inr ⟨i, hi, hdown, hbefore, by simp [he]⟩

theorem updateResets_ok (isReady stillReady : Nat → Bool) (h : s.Indexed q) :
    ∃ t es, UpdateResets q isReady stillReady s = .ok (t, es) ∧ t.Indexed q ∧
      t.m_powerOn = s.m_powerOn ∧ t.m_monitorRailIndex = s.m_monitorRailIndex := by
  have hmid := afterAdvance_indexed isReady h
  have hframe : (afterAdvance q isReady s).1.m_powerOn = s.m_powerOn ∧
      (afterAdvance q isReady s).1.m_monitorRailIndex = s.m_monitorRailIndex := by
    unfold afterAdvance advanced
    dsimp only
    split
    · split <;> exact ⟨rfl, rfl⟩
    · exact ⟨rfl, rfl⟩
  rcases updateResets_cases isReady stillReady h with ⟨he, -⟩ | ⟨i, hi, -, -, he⟩
  · exact ⟨_, _, he, hmid, hframe⟩
  · exact ⟨_, _, he, backedUp_indexed _ (Nat.lt_of_lt_of_le hi hmid.le), hframe⟩

end EmbeddedPlatform.Supervisor
