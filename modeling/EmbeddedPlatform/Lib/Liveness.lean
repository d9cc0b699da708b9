import EmbeddedPlatform.Lib.Run

/-! # Endless runs

What must happen in a run without end, if what helps it along is done again and
again. A rank counts how much is left: some operations help and lower it, the others
leave it, and what helps, as they are. -/
namespace EmbeddedPlatform.Lib

variable {σ τ α β ε : Type*}

/-- The states of an endless run. -/
def trajectory (next : τ → α → τ) (s : τ) (schedule : Nat → α) : Nat → τ
  | 0 => s
  | k + 1 => next (trajectory next s schedule k) (schedule k)

/-- In every state from which the goal is still to be reached, some operations help. -/
structure Progress (next : τ → α → τ) (Inv goal : τ → Prop) (helps : τ → α → Prop)
    (rank : τ → Nat) : Prop where
  keeps : ∀ s a, Inv s → Inv (next s a)
  helped : ∀ s a, Inv s → ¬ goal s → helps s a → goal (next s a) ∨ rank (next s a) < rank s
  other : ∀ s a, Inv s → ¬ goal s → ¬ helps s a → goal (next s a) ∨ rank (next s a) < rank s ∨
    rank (next s a) = rank s ∧ ∀ b, helps s b → helps (next s a) b

variable {next : τ → α → τ} {Inv goal : τ → Prop} {helps : τ → α → Prop} {rank : τ → Nat} {s : τ}
  {schedule : Nat → α}

theorem Progress.always (h : Progress next Inv goal helps rank) {k j : Nat}
    (hk : Inv (trajectory next s schedule k)) (hj : k ≤ j) :
    Inv (trajectory next s schedule j) := by
  induction hj with
  | refl => exact hk
  | step _ ih => exact h.keeps _ _ ih

/-- Until something helps, the rank stays or something better happens. -/
theorem Progress.until_helped (h : Progress next Inv goal helps rank) {k d : Nat}
    (hk : Inv (trajectory next s schedule k))
    (hd : helps (trajectory next s schedule k) (schedule (k + d))) :
    ∃ j, k ≤ j ∧ (goal (trajectory next s schedule j) ∨
      rank (trajectory next s schedule j) < rank (trajectory next s schedule k)) := by
  induction d generalizing k with
  | zero =>
    by_cases hgoal : goal (trajectory next s schedule k)
    · exact ⟨k, Nat.le_refl k, .inl hgoal⟩
    · exact ⟨k + 1, Nat.le_succ k, h.helped _ _ hk hgoal hd⟩
  | succ d ih =>
    by_cases hgoal : goal (trajectory next s schedule k)
    · exact ⟨k, Nat.le_refl k, .inl hgoal⟩
    by_cases hnow : helps (trajectory next s schedule k) (schedule k)
    · exact ⟨k + 1, Nat.le_succ k, h.helped _ _ hk hgoal hnow⟩
    rcases h.other _ _ hk hgoal hnow with hdone | hless | ⟨hsame, hstill⟩
    · exact ⟨k + 1, Nat.le_succ k, .inl hdone⟩
    · exact ⟨k + 1, Nat.le_succ k, .inr hless⟩
    · have hnext : helps (trajectory next s schedule (k + 1)) (schedule (k + 1 + d)) := by
        rw [Nat.add_right_comm]
        exact hstill _ hd
      have hinv : Inv (trajectory next s schedule (k + 1)) := h.keeps _ _ hk
      obtain ⟨j, hj, hend⟩ := ih hinv hnext
      have hrank : rank (trajectory next s schedule (k + 1)) =
        rank (trajectory next s schedule k) := hsame
      rw [hrank] at hend
      exact ⟨j, Nat.le_trans (Nat.le_succ k) hj, hend⟩

/-- **Progress rule.** If what helps is done again and again, the goal is reached. -/
theorem Progress.eventually (h : Progress next Inv goal helps rank)
    (hfair : ∀ s, Inv s → ¬ goal s → ∀ k, ∃ j, k ≤ j ∧ helps s (schedule j)) {k : Nat}
    (hk : Inv (trajectory next s schedule k)) :
    ∃ j, k ≤ j ∧ goal (trajectory next s schedule j) := by
  induction hr : rank (trajectory next s schedule k) using Nat.strongRecOn generalizing k with
  | ind r ih =>
    subst hr
    by_cases hgoal : goal (trajectory next s schedule k)
    · exact ⟨k, Nat.le_refl k, hgoal⟩
    obtain ⟨i, hi, hhelps⟩ := hfair _ hk hgoal k
    obtain ⟨d, rfl⟩ := Nat.exists_eq_add_of_le hi
    obtain ⟨j, hj, hdone | hless⟩ := h.until_helped hk hhelps
    · exact ⟨j, hj, hdone⟩
    · obtain ⟨l, hl, hend⟩ := ih _ hless (h.always hk hj) rfl
      exact ⟨l, Nat.le_trans hj hl, hend⟩

/-! ## One system inside another -/

section
variable {τ' α' : Type*} {next' : τ' → α' → τ'} {P : τ' → Prop} {g : τ' → τ}
  {causes : α' → α → Prop}

/-- Progress of a part is progress of the whole: each operation of the whole does one
of the part, or none, and those that help are caused by some that are fair. -/
theorem Progress.lift (h : Progress next Inv goal helps rank)
    (hkeeps : ∀ s a, P s → P (next' s a))
    (hmoves : ∀ s a, P s → g (next' s a) = g s ∨
      ∃ b, g (next' s a) = next (g s) b ∧ (helps (g s) b → causes a b))
    (hcaused : ∀ s a b, P s → Inv (g s) → ¬ goal (g s) → helps (g s) b → causes a b →
      g (next' s a) = next (g s) b) :
    Progress next' (fun s => P s ∧ Inv (g s)) (fun s => goal (g s))
      (fun s a => ∃ b, helps (g s) b ∧ causes a b) (fun s => rank (g s)) where
  keeps s a := by
    rintro ⟨hP, hinv⟩
    refine ⟨hkeeps s a hP, ?_⟩
    rcases hmoves s a hP with heq | ⟨b, heq, -⟩
    · rwa [heq]
    · rw [heq]
      exact h.keeps _ _ hinv
  helped s a := by
    rintro ⟨hP, hinv⟩ hgoal ⟨b, hhelps, hcauses⟩
    rw [hcaused s a b hP hinv hgoal hhelps hcauses]
    exact h.helped _ _ hinv hgoal hhelps
  other s a := by
    rintro ⟨hP, hinv⟩ hgoal hnot
    rcases hmoves s a hP with heq | ⟨b, heq, hb⟩
    · rw [heq]
      exact .inr (.inr ⟨rfl, fun a' ha => ha⟩)
    · have hother := h.other _ _ hinv hgoal fun hhelps => hnot ⟨b, hhelps, hb hhelps⟩
      rw [heq]
      rcases hother with hdone | hless | ⟨hsame, hstill⟩
      · exact .inl hdone
      · exact .inr (.inl hless)
      · exact .inr (.inr ⟨hsame, fun a' ⟨c, hc, hcauses⟩ => ⟨c, hstill c hc, hcauses⟩⟩)

end

/-- What is kept up to the first time something happens, if that does. -/
theorem stays_until {x : Nat → τ} {P : τ → Prop} {Q : Nat → Prop} {k : Nat}
    (hkeep : ∀ j, P (x j) → ¬ Q j → P (x (j + 1))) (hk : P (x k)) (hQ : ∃ j, k ≤ j ∧ Q j) :
    ∃ j, k ≤ j ∧ P (x j) ∧ Q j := by
  obtain ⟨i, hi, hQi⟩ := hQ
  obtain ⟨d, rfl⟩ := Nat.exists_eq_add_of_le hi
  induction d generalizing k with
  | zero => exact ⟨k, Nat.le_refl k, hk, hQi⟩
  | succ d ih =>
    by_cases hnow : Q k
    · exact ⟨k, Nat.le_refl k, hk, hnow⟩
    · rw [show k + (d + 1) = k + 1 + d by omega] at hQi
      obtain ⟨j, hj, hend⟩ := ih (hkeep k hk hnow) (Nat.le_add_right (k + 1) d) hQi
      exact ⟨j, Nat.le_of_succ_le hj, hend⟩

/-! ## Endless runs that log -/

/-- A step, with the log so far. One that fails changes nothing. -/
def proceed (step : σ → α → Except ε (σ × List β)) (p : σ × List β) (a : α) : σ × List β :=
  match step p.1 a with
  | .ok (t, es) => (t, p.2 ++ es)
  | .error _ => p

theorem proceed_ok {step : σ → α → Except ε (σ × List β)} {p : σ × List β} {a : α} {t : σ}
    {es : List β} (h : step p.1 a = .ok (t, es)) : proceed step p a = (t, p.2 ++ es) := by
  unfold proceed
  rw [h]

/-- The states of an endless run are those of its beginnings. -/
theorem run_trajectory {step : σ → α → Except ε (σ × List β)}
    {s : σ} {schedule : Nat → α} (htotal : ∀ k, ∃ t es,
      step (trajectory (proceed step) (s, []) schedule k).1 (schedule k) = .ok (t, es)) (k : Nat) :
    run step s ((List.range k).map schedule) =
      .ok (trajectory (proceed step) (s, []) schedule k) := by
  induction k with
  | zero => rfl
  | succ k ih =>
    obtain ⟨t, es, hstep⟩ := htotal k
    have hone : run step (trajectory (proceed step) (s, []) schedule k).1 [schedule k] =
        .ok (t, es) := by
      have h := run_cons_of_ok hstep (run_nil t)
      rwa [List.append_nil] at h
    rw [List.range_succ, List.map_append, List.map_singleton]
    exact (run_append_of_ok ih hone).trans (congrArg _ (proceed_ok hstep).symm)

end EmbeddedPlatform.Lib
