import EmbeddedPlatform.Lib.Run
import Mathlib.Logic.Relation

/-! # Loops that run while their body asks for more

A body returns whether to go on, the next state and its events. `rounds` runs
it until it says stop, at most `n` times. As for runs, the induction is done
here once. -/

namespace EmbeddedPlatform.Lib

variable {σ β ε π : Type*}

/-- `do .. while` with fuel; `stuck` is the error of a loop that used it up. -/
def rounds (body : σ → Except ε (Bool × σ × List β)) (stuck : ε) :
    Nat → σ → Except ε (σ × List β)
  | 0, _ => .error stuck
  | n + 1, s =>
    match body s with
    | .error e => .error e
    | .ok (false, t, es) => .ok (t, es)
    | .ok (true, t, es) =>
      match rounds body stuck n t with
      | .error e => .error e
      | .ok (u, fs) => .ok (u, es ++ fs)

/-- The states in which the body is run, from the one the loop starts in. -/
def Visits (body : σ → Except ε (Bool × σ × List β)) : σ → σ → Prop :=
  Relation.ReflTransGen fun s t => ∃ es, body s = .ok (true, t, es)

variable {body : σ → Except ε (Bool × σ × List β)} {stuck : ε}

theorem Visits.start (s : σ) : Visits body s s := .refl

theorem Visits.round {s t u : σ} {es : List β} (ht : body s = .ok (true, t, es))
    (hu : Visits body t u) : Visits body s u := .head ⟨es, ht⟩ hu

theorem visits_iff_of_more {s t : σ} {es : List β} (ht : body s = .ok (true, t, es)) {u : σ} :
    Visits body s u ↔ u = s ∨ Visits body t u := by
  constructor
  · intro h
    rcases Relation.ReflTransGen.cases_head h with rfl | ⟨t', ⟨es', ht'⟩, hu⟩
    · exact .inl rfl
    · obtain ⟨rfl, rfl⟩ : t = t' ∧ es = es' := by simpa using ht.symm.trans ht'
      exact .inr hu
  · rintro (rfl | h)
    · exact .start _
    · exact .round ht h

theorem visits_iff_of_last {s t : σ} {es : List β} (ht : body s = .ok (false, t, es)) {u : σ} :
    Visits body s u ↔ u = s := by
  constructor
  · intro h
    rcases Relation.ReflTransGen.cases_head h with rfl | ⟨t', ⟨es', ht'⟩, -⟩
    · rfl
    · cases ht.symm.trans ht'
  · rintro rfl; exact .start _

/-- The states visited by a loop of at most `n` rounds, in order. -/
def visited (body : σ → Except ε (Bool × σ × List β)) : Nat → σ → List σ
  | 0, _ => []
  | n + 1, s =>
    s :: match body s with
      | .ok (true, t, _) => visited body n t
      | _ => []

theorem rounds_succ_ok {n : Nat} {s u : σ} {log : List β}
    (h : rounds body stuck (n + 1) s = .ok (u, log)) :
    body s = .ok (false, u, log) ∨
      ∃ t es fs, body s = .ok (true, t, es) ∧ rounds body stuck n t = .ok (u, fs) ∧
        log = es ++ fs := by
  unfold rounds at h
  split at h
  · cases h
  · rename_i t es hb
    obtain ⟨rfl, rfl⟩ := ok_eq h
    exact .inl hb
  · rename_i t es hb
    split at h
    · cases h
    · rename_i v fs hv
      obtain ⟨rfl, rfl⟩ := ok_eq h
      exact .inr ⟨t, es, fs, hb, hv, rfl⟩

theorem rounds_last {s t : σ} {es : List β} (h : body s = .ok (false, t, es)) (n : Nat) :
    rounds body stuck (n + 1) s = .ok (t, es) := by
  simp [rounds, h]

theorem rounds_more {n : Nat} {s t u : σ} {es fs : List β} (h : body s = .ok (true, t, es))
    (hu : rounds body stuck n t = .ok (u, fs)) :
    rounds body stuck (n + 1) s = .ok (u, es ++ fs) := by
  simp [rounds, h, hu]

theorem mem_visited {n : Nat} {s t u : σ} {log : List β}
    (h : rounds body stuck n s = .ok (u, log)) (ht : Visits body s t) : t ∈ visited body n s := by
  induction n generalizing s log with
  | zero => cases h
  | succ n ih =>
    unfold visited
    rcases rounds_succ_ok h with hb | ⟨v, es, fs, hb, hr, -⟩
    · rw [(visits_iff_of_last hb).mp ht]
      exact List.mem_cons_self
    · rw [hb]
      rcases (visits_iff_of_more hb).mp ht with rfl | hv
      · exact List.mem_cons_self
      · exact List.mem_cons_of_mem _ (ih hr hv)

/-- From a state that it visits, the loop goes on to its end. -/
theorem rounds_of_visits {n : Nat} {s t u : σ} {log : List β}
    (h : rounds body stuck n s = .ok (u, log)) (ht : Visits body s t) :
    ∃ m es fs, rounds body stuck m t = .ok (u, fs) ∧ log = es ++ fs := by
  induction n generalizing s log with
  | zero => cases h
  | succ n ih =>
    rcases rounds_succ_ok h with hb | ⟨v, es, fs, hb, hr, rfl⟩
    · rw [(visits_iff_of_last hb).mp ht]
      exact ⟨n + 1, [], log, h, rfl⟩
    · rcases (visits_iff_of_more hb).mp ht with rfl | hv
      · exact ⟨n + 1, [], _, h, rfl⟩
      · obtain ⟨m, gs, hs, hm, rfl⟩ := ih hr hv
        exact ⟨m, es ++ gs, hs, hm, (List.append_assoc ..).symm⟩

/-- **Loop rule.** `J` holds before the loop and after each round that asks for
more, `Q` after the last one; `C` may be assumed of every state a round starts
in. -/
theorem rounds_rule {C : σ → Prop} {J Q : σ → List β → Prop}
    (hmore : ∀ s log t es, J s log → C s → body s = .ok (true, t, es) → J t (log ++ es))
    (hlast : ∀ s log t es, J s log → C s → body s = .ok (false, t, es) → Q t (log ++ es))
    {n : Nat} {s u : σ} {l fs : List β} (h0 : J s l) (hC : ∀ t, Visits body s t → C t)
    (h : rounds body stuck n s = .ok (u, fs)) : Q u (l ++ fs) := by
  induction n generalizing s l fs with
  | zero => cases h
  | succ n ih =>
    rcases rounds_succ_ok h with hb | ⟨t, es, gs, hb, hr, rfl⟩
    · exact hlast s l u fs h0 (hC s (.start s)) hb
    · rw [← List.append_assoc]
      exact ih (hmore s l t es h0 (hC s (.start s)) hb) (fun v hv => hC v (.round hb hv)) hr

/-- If, from every state meeting the invariant, the events of a round comply
exactly when the state meets `C`, and a complying round keeps the invariant,
then those of the loop comply exactly when every state visited meets `C`. -/
theorem rounds_complies_iff {act : π → β → π} {ok : π → β → Prop} {C : σ → Prop}
    {J : σ → π → Prop}
    (hiff : ∀ s p b t es, J s p → body s = .ok (b, t, es) → (Complies act ok p es ↔ C s))
    (hkeep : ∀ s p b t es, J s p → body s = .ok (b, t, es) → Complies act ok p es →
      J t (replay act p es))
    {n : Nat} {s u : σ} {p : π} {fs : List β} (h0 : J s p)
    (h : rounds body stuck n s = .ok (u, fs)) :
    (Complies act ok p fs ↔ ∀ t, Visits body s t → C t) ∧
      (Complies act ok p fs → J u (replay act p fs)) := by
  induction n generalizing s p fs with
  | zero => cases h
  | succ n ih =>
    rcases rounds_succ_ok h with hb | ⟨t, es, gs, hb, hr, rfl⟩
    · refine ⟨?_, hkeep s p false u fs h0 hb⟩
      rw [hiff s p false u fs h0 hb]
      simp [visits_iff_of_last hb]
    · have hes := hiff s p true t es h0 hb
      have hrest := fun hc => ih (hkeep s p true t es h0 hb hc) hr
      rw [complies_append]
      constructor
      · constructor
        · rintro ⟨hc, hgs⟩ v hv
          rcases (visits_iff_of_more hb).mp hv with rfl | hv
          · exact hes.mp hc
          · exact (hrest hc).1.mp hgs v hv
        · intro hall
          have hc := hes.mpr (hall s (.start s))
          exact ⟨hc, (hrest hc).1.mpr fun v hv => hall v (.round hb hv)⟩
      · rintro ⟨hc, hgs⟩
        rw [replay_append]
        exact (hrest hc).2 hgs

/-- A loop whose rounds succeed and decrease a measure does not use up fuel
beyond it. -/
theorem rounds_total {J : σ → Prop} {μ : σ → Nat}
    (hbody : ∀ s, J s → ∃ b t es, body s = .ok (b, t, es) ∧ J t ∧ (b = true → μ t < μ s))
    {n : Nat} {s : σ} (h0 : J s) (hn : μ s < n) :
    ∃ u fs, rounds body stuck n s = .ok (u, fs) ∧ J u := by
  induction n generalizing s with
  | zero => omega
  | succ n ih =>
    obtain ⟨b, t, es, hb, ht, hlt⟩ := hbody s h0
    cases b with
    | false => exact ⟨t, es, rounds_last hb n, ht⟩
    | true =>
      obtain ⟨u, fs, hu, hJ⟩ := ih ht (by have := hlt rfl; omega)
      exact ⟨u, es ++ fs, rounds_more hb hu, hJ⟩

/-- So it is for a loop that gets to a state from which its rounds succeed. -/
theorem rounds_total_of_visits {J : σ → Prop} {μ : σ → Nat}
    (hbody : ∀ s, J s → ∃ b t es, body s = .ok (b, t, es) ∧ J t)
    (hmore : ∀ s t es, body s = .ok (true, t, es) → μ t < μ s)
    {n : Nat} {s u : σ} (hu : Visits body s u) (h0 : J u) (hn : μ s < n) :
    ∃ v fs, rounds body stuck n s = .ok (v, fs) ∧ J v := by
  induction hu using Relation.ReflTransGen.head_induction_on generalizing n with
  | refl =>
    refine rounds_total (fun s hs => ?_) h0 hn
    obtain ⟨b, t, es, hb, ht⟩ := hbody s hs
    refine ⟨b, t, es, hb, ht, fun hb' => ?_⟩
    subst hb'
    exact hmore s t es hb
  | @head s t hround _ ih =>
    obtain ⟨es, hb⟩ := hround
    cases n with
    | zero => omega
    | succ n =>
      obtain ⟨v, fs, hv, hJ⟩ := ih (n := n) (by have := hmore s t es hb; omega)
      exact ⟨v, es ++ fs, rounds_more hb hv, hJ⟩

/-- A loop with enough fuel fails only where its body does. -/
theorem rounds_error {J : σ → Prop} {μ : σ → Nat}
    (hmore : ∀ s t es, J s → body s = .ok (true, t, es) → J t ∧ μ t < μ s)
    {n : Nat} {s : σ} {e : ε} (h0 : J s) (hn : μ s < n) (h : rounds body stuck n s = .error e) :
    ∃ t, J t ∧ body t = .error e := by
  induction n generalizing s with
  | zero => exact absurd hn (Nat.not_lt_zero _)
  | succ n ih =>
    unfold rounds at h
    split at h
    · rename_i e' hb
      cases h
      exact ⟨s, h0, hb⟩
    · cases h
    · rename_i t es hb
      obtain ⟨hJ, hlt⟩ := hmore s t es h0 hb
      split at h
      · rename_i e' hr
        cases h
        exact ih hJ (Nat.lt_of_lt_of_le hlt (Nat.le_of_lt_succ hn)) hr
      · cases h

/-! ## Bodies with fuel of their own -/

theorem Visits.mono {body' : σ → Except ε (Bool × σ × List β)}
    (hmono : ∀ s r, body s = .ok r → body' s = .ok r) {s t : σ} (h : Visits body s t) :
    Visits body' s t := by
  induction h with
  | refl => exact .start s
  | tail _ hround ih =>
    obtain ⟨es, hb⟩ := hround
    exact Relation.ReflTransGen.tail ih ⟨es, hmono _ _ hb⟩

theorem rounds_mono {body' : σ → Except ε (Bool × σ × List β)}
    (hmono : ∀ s r, body s = .ok r → body' s = .ok r) {n : Nat} {s t : σ} {es : List β}
    (h : rounds body stuck n s = .ok (t, es)) : rounds body' stuck n s = .ok (t, es) := by
  induction n generalizing s es with
  | zero => cases h
  | succ n ih =>
    rcases rounds_succ_ok h with hb | ⟨u, fs, gs, hb, hr, rfl⟩
    · exact rounds_last (hmono _ _ hb) n
    · exact rounds_more (hmono _ _ hb) (ih hr)

/-- A loop that decreases a measure returns, with fuel enough for its body, exactly when
its body does from every state that it gets to. -/
theorem rounds_returns_iff {body : Nat → σ → Except ε (Bool × σ × List β)} {μ : σ → Nat}
    (hmono : ∀ m n s r, body m s = .ok r → m ≤ n → body n s = .ok r)
    (hmore : ∀ m s t es, body m s = .ok (true, t, es) → μ t < μ s) {n : Nat} {s : σ}
    (hn : μ s < n) :
    (∃ m t es, rounds (body m) stuck n s = .ok (t, es)) ↔
      ∀ m u, Visits (body m) s u → ∃ k r, body k u = .ok r := by
  constructor
  · rintro ⟨m, t, es, h⟩ m' u hu
    have hrun := rounds_mono (fun s r hb => hmono m (max m m') s r hb (Nat.le_max_left ..)) h
    have hvisit := hu.mono fun s r hb => hmono m' (max m m') s r hb (Nat.le_max_right ..)
    obtain ⟨k, fs, gs, hrest, -⟩ := rounds_of_visits hrun hvisit
    cases k with
    | zero => cases hrest
    | succ k =>
      rcases rounds_succ_ok hrest with hb | ⟨v, es', fs', hb, -, -⟩
      · exact ⟨_, _, hb⟩
      · exact ⟨_, _, hb⟩
  · intro h
    induction n generalizing s with
    | zero => exact absurd hn (Nat.not_lt_zero _)
    | succ n ih =>
      obtain ⟨m, ⟨more, t, es⟩, hb⟩ := h 0 s (.start s)
      cases more with
      | false => exact ⟨m, t, es, rounds_last hb n⟩
      | true =>
        have hlt := hmore m s t es hb
        obtain ⟨m', u, fs, hr⟩ := ih (s := t) (by omega) fun k u hu => by
          have hb' := hmono m (max m k) s _ hb (Nat.le_max_left ..)
          have hu' := hu.mono fun s r hb => hmono k (max m k) s r hb (Nat.le_max_right ..)
          exact h (max m k) u (.round hb' hu')
        have hb' := hmono m (max m m') s _ hb (Nat.le_max_left ..)
        have hr' := rounds_mono (fun s r hb => hmono m' (max m m') s r hb (Nat.le_max_right ..)) hr
        exact ⟨max m m', u, es ++ fs, rounds_more hb' hr'⟩

end EmbeddedPlatform.Lib
