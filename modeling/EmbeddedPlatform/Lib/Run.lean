import Mathlib.Data.List.Basic

/-! # Runs of a system that logs what it does

A component is a fallible step function from a state and an operation to the
next state and the events the operation caused, oldest first. A run joins the
logs of its steps. Two kinds of property of a log are packaged here: what
holds of a plant at every point of it (`Along`) and what each event may do in
the plant it meets (`Complies`). The induction over a run is done once, in
`run_rule`. -/

namespace EmbeddedPlatform.Lib

variable {σ α β ε π : Type*}

/-! ## Logs acting on a plant -/

/-- The plant after the events, oldest first. -/
def replay (act : π → β → π) (p : π) (es : List β) : π := es.foldl act p

@[simp] theorem replay_nil (act : π → β → π) (p : π) : replay act p [] = p := rfl

@[simp] theorem replay_cons (act : π → β → π) (p : π) (e : β) (es : List β) :
    replay act p (e :: es) = replay act (act p e) es := rfl

@[simp] theorem replay_append (act : π → β → π) (p : π) (es fs : List β) :
    replay act p (es ++ fs) = replay act (replay act p es) fs := List.foldl_append

/-- Events that leave every plant as it is. -/
theorem replay_of_idle {act : π → β → π} {es : List β} (h : ∀ e ∈ es, ∀ p, act p e = p) (p : π) :
    replay act p es = p := by
  induction es with
  | nil => rfl
  | cons e es ih =>
    obtain ⟨he, hes⟩ := List.forall_mem_cons.mp h
    rw [replay_cons, he p]
    exact ih hes

/-- `I` holds before the events, between any two of them and after the last. -/
def Along (act : π → β → π) (I : π → Prop) : π → List β → Prop
  | p, [] => I p
  | p, e :: es => I p ∧ Along act I (act p e) es

theorem Along.head {act : π → β → π} {I : π → Prop} {p : π} {es : List β}
    (h : Along act I p es) : I p := by
  cases es with
  | nil => exact h
  | cons e es => exact h.1

theorem along_append {act : π → β → π} {I : π → Prop} {p : π} {es fs : List β} :
    Along act I p (es ++ fs) ↔ Along act I p es ∧ Along act I (replay act p es) fs := by
  induction es generalizing p with
  | nil => exact ⟨fun h => ⟨h.head, h⟩, And.right⟩
  | cons e es ih =>
    simp only [List.cons_append, Along, replay_cons, ih]
    exact and_assoc.symm

theorem along_iff_prefix {act : π → β → π} {I : π → Prop} {p : π} {es : List β} :
    Along act I p es ↔ ∀ pre, pre <+: es → I (replay act p pre) := by
  induction es generalizing p with
  | nil =>
    constructor
    · intro h pre hp
      rw [List.prefix_nil.mp hp]; exact h
    · intro h; exact h [] (List.prefix_refl _)
  | cons e es ih =>
    constructor
    · rintro ⟨hI, hes⟩ pre hp
      rcases List.prefix_cons_iff.mp hp with rfl | ⟨t, rfl, ht⟩
      · exact hI
      · exact ih.mp hes t ht
    · intro h
      refine ⟨h [] (List.nil_prefix), ih.mpr fun pre hp => ?_⟩
      exact h (e :: pre) (by simpa using hp)

/-- Every event is one `ok` allows in the plant it meets. -/
def Complies (act : π → β → π) (ok : π → β → Prop) : π → List β → Prop
  | _, [] => True
  | p, e :: es => ok p e ∧ Complies act ok (act p e) es

theorem complies_append {act : π → β → π} {ok : π → β → Prop} {p : π} {es fs : List β} :
    Complies act ok p (es ++ fs) ↔
      Complies act ok p es ∧ Complies act ok (replay act p es) fs := by
  induction es generalizing p with
  | nil => simp [Complies]
  | cons e es ih =>
    simp only [List.cons_append, Complies, replay_cons, ih]
    exact and_assoc.symm

/-- A reading `f` that an event sets as `q` asks, or leaves alone, is what the
last event that sets it asks for. -/
theorem replay_last (act : π → β → π) {f : π → α} {q : β → Option α}
    (hact : ∀ p e, f (act p e) = (q e).getD (f p)) (p : π) (es : List β) :
    f (replay act p es) = (es.filterMap q).getLastD (f p) := by
  induction es generalizing p with
  | nil => rfl
  | cons e es ih =>
    rw [replay_cons, ih, hact]
    cases h : q e with
    | none => rw [List.filterMap_cons_none h, Option.getD_none]
    | some x => rw [List.filterMap_cons_some h, List.getLastD_cons, Option.getD_some]

/-- What holds at first and is kept by each event holds after the events. -/
theorem replay_invariant (act : π → β → π) {J : π → Prop} (hact : ∀ p e, J p → J (act p e))
    {p : π} (h0 : J p) (es : List β) : J (replay act p es) := by
  induction es generalizing p with
  | nil => exact h0
  | cons e es ih => exact ih (hact p e h0)

/-- If, while `J` holds, `ok` is what an event needs in order to keep `I`, then
`I` holds along the events exactly when they comply. -/
theorem along_iff_complies (act : π → β → π) {I J : π → Prop} {ok : π → β → Prop}
    (hact : ∀ p e, J p → J (act p e)) (hiff : ∀ p e, J p → I p → (I (act p e) ↔ ok p e))
    {p : π} (h0 : J p) (hI : I p) (es : List β) : Along act I p es ↔ Complies act ok p es := by
  induction es generalizing p with
  | nil => exact ⟨fun _ => trivial, fun _ => hI⟩
  | cons e es ih =>
    constructor
    · rintro ⟨-, hes⟩
      exact ⟨(hiff p e h0 hI).mp hes.head, (ih (hact p e h0) hes.head).mp hes⟩
    · rintro ⟨he, hes⟩
      exact ⟨hI, (ih (hact p e h0) ((hiff p e h0 hI).mpr he)).mpr hes⟩

/-- The plant that keeps the log. -/
def record (log : List β) (e : β) : List β := log ++ [e]

@[simp] theorem replay_record (log es : List β) : replay record log es = log ++ es := by
  induction es generalizing log with
  | nil => exact (List.append_nil log).symm
  | cons e es ih =>
    rw [replay_cons, ih]
    exact (List.append_cons log e es).symm

/-- There every event is judged by those before it. -/
theorem complies_record_iff {ok : List β → β → Prop} {log es : List β} :
    Complies record ok log es ↔
      ∀ front e back, es = front ++ e :: back → ok (log ++ front) e := by
  induction es generalizing log with
  | nil => exact ⟨fun _ front e back h => by simp at h, fun _ => trivial⟩
  | cons x es ih =>
    constructor
    · rintro ⟨hx, hes⟩ front e back h
      rcases List.cons_eq_append_iff.mp h with ⟨rfl, hhead⟩ | ⟨front', rfl, htail⟩
      · obtain ⟨rfl, -⟩ := List.cons.inj hhead
        rwa [List.append_nil]
      · rw [List.append_cons]
        exact ih.mp hes front' e back htail
    · intro h
      refine ⟨?_, ih.mpr fun front e back hes => ?_⟩
      · have hx := h [] x es rfl
        rwa [List.append_nil] at hx
      · have he := h (x :: front) e back (congrArg (x :: ·) hes)
        rwa [List.append_cons] at he

/-! ## Runs -/

/-- A computation succeeded and its result passes a test. -/
def returns {γ : Type*} (P : γ → Bool) : Except ε γ → Bool
  | .ok a => P a
  | .error _ => false

theorem exists_of_returns {γ : Type*} {P : γ → Bool} {r : Except ε γ} (h : returns P r = true) :
    ∃ a, r = .ok a ∧ P a = true := by
  cases r with
  | ok a => exact ⟨a, rfl, h⟩
  | error e => cases h

/-- Perform the operations in order; the first one that fails ends the run. -/
def run (step : σ → α → Except ε (σ × List β)) : σ → List α → Except ε (σ × List β)
  | s, [] => .ok (s, [])
  | s, a :: as =>
    match step s a with
    | .error e => .error e
    | .ok (t, es) =>
      match run step t as with
      | .error e => .error e
      | .ok (u, fs) => .ok (u, es ++ fs)

variable {step : σ → α → Except ε (σ × List β)}

@[simp] theorem run_nil (s : σ) : run step s [] = .ok (s, []) := rfl

/-- What a step returned, by components. -/
theorem ok_eq {r : σ × List β} {t : σ} {es : List β}
    (h : (Except.ok r : Except ε (σ × List β)) = .ok (t, es)) : t = r.1 ∧ es = r.2 := by
  cases h; exact ⟨rfl, rfl⟩

theorem run_cons_ok {s u : σ} {a : α} {as : List α} {log : List β}
    (h : run step s (a :: as) = .ok (u, log)) :
    ∃ t es fs, step s a = .ok (t, es) ∧ run step t as = .ok (u, fs) ∧ log = es ++ fs := by
  unfold run at h
  split at h
  · cases h
  · rename_i t es ht
    split at h
    · cases h
    · rename_i v fs hv
      cases h
      exact ⟨t, es, fs, ht, hv, rfl⟩

theorem run_cons_of_ok {s t u : σ} {a : α} {as : List α} {es fs : List β}
    (ht : step s a = .ok (t, es)) (hu : run step t as = .ok (u, fs)) :
    run step s (a :: as) = .ok (u, es ++ fs) := by
  simp [run, ht, hu]

/-- `C` holds of each operation of the run and of the state it starts in. -/
def AllSteps (step : σ → α → Except ε (σ × List β)) (C : σ → α → Prop) : σ → List α → Prop
  | _, [] => True
  | s, a :: as => C s a ∧ ∀ t es, step s a = .ok (t, es) → AllSteps step C t as

theorem run_append_of_ok {s t u : σ} {as bs : List α} {es fs : List β}
    (ht : run step s as = .ok (t, es)) (hu : run step t bs = .ok (u, fs)) :
    run step s (as ++ bs) = .ok (u, es ++ fs) := by
  induction as generalizing s es with
  | nil =>
    cases ht
    exact hu
  | cons a as ih =>
    obtain ⟨v, es', gs, hv, hr, rfl⟩ := run_cons_ok ht
    rw [List.append_assoc]
    exact run_cons_of_ok hv (ih hr)

/-- **Run rule.** What holds of the start, an empty log and no operations, and
is kept by each step that meets `C`, holds of the end of every run whose steps
all meet `C`, of its log and of its operations. -/
theorem run_rule {C : σ → α → Prop} {J : σ → List β → List α → Prop}
    (hstep : ∀ s log as a t es, J s log as → C s a → step s a = .ok (t, es) →
      J t (log ++ es) (as ++ [a]))
    {s u : σ} {l fs : List β} {b as : List α}
    (h0 : J s l b) (hC : AllSteps step C s as) (hr : run step s as = .ok (u, fs)) :
    J u (l ++ fs) (b ++ as) := by
  induction as generalizing s l fs b with
  | nil => cases hr; simpa using h0
  | cons a as ih =>
    obtain ⟨t, es, gs, ht, hu, rfl⟩ := run_cons_ok hr
    have := ih (hstep _ _ _ _ _ _ h0 hC.1 ht) (hC.2 t es ht) hu
    simpa using this

theorem allSteps_true (s : σ) (as : List α) : AllSteps step (fun _ _ => True) s as := by
  induction as generalizing s with
  | nil => trivial
  | cons a as ih => exact ⟨trivial, fun t _ _ => ih t⟩

theorem AllSteps.cons_of_ok {C : σ → α → Prop} {s t : σ} {a : α} {as : List α} {es : List β}
    (ht : step s a = .ok (t, es)) (ha : C s a) (has : AllSteps step C t as) :
    AllSteps step C s (a :: as) := by
  refine ⟨ha, fun t' es' ht' => ?_⟩
  obtain ⟨rfl, -⟩ : t = t' ∧ es = es' := by simpa using ht.symm.trans ht'
  exact has

theorem AllSteps.imp {C D : σ → α → Prop} {s : σ} {as : List α} (h : AllSteps step C s as)
    (hCD : ∀ s a, C s a → D s a) : AllSteps step D s as := by
  induction as generalizing s with
  | nil => trivial
  | cons a as ih => exact ⟨hCD s a h.1, fun t es ht => ih (h.2 t es ht)⟩

theorem AllSteps.and {C D : σ → α → Prop} {s : σ} {as : List α} (hC : AllSteps step C s as)
    (hD : AllSteps step D s as) : AllSteps step (fun s a => C s a ∧ D s a) s as := by
  induction as generalizing s with
  | nil => trivial
  | cons a as ih => exact ⟨⟨hC.1, hD.1⟩, fun t es ht => ih (hC.2 t es ht) (hD.2 t es ht)⟩

/-- A condition on the operations alone. -/
theorem allSteps_of_forall {P : α → Prop} {s : σ} {as : List α} (h : ∀ a ∈ as, P a) :
    AllSteps step (fun _ a => P a) s as := by
  induction as generalizing s with
  | nil => trivial
  | cons a as ih =>
    obtain ⟨ha, has⟩ := List.forall_mem_cons.mp h
    exact ⟨ha, fun t _ _ => ih has⟩

/-- Each operation is met in the state that those before it lead to. -/
theorem allSteps_iff {C : σ → α → Prop} {s : σ} {as : List α} : AllSteps step C s as ↔
    ∀ front a back t es, as = front ++ a :: back → run step s front = .ok (t, es) → C t a := by
  induction as generalizing s with
  | nil => exact ⟨fun _ front a back t es h => by simp at h, fun _ => trivial⟩
  | cons a as ih =>
    constructor
    · rintro ⟨ha, has⟩ front b back t es h hr
      rcases List.cons_eq_append_iff.mp h with ⟨rfl, hhead⟩ | ⟨front', rfl, htail⟩
      · cases hr
        obtain ⟨rfl, -⟩ := List.cons.inj hhead
        exact ha
      · obtain ⟨u, es', fs, hu, hrest, -⟩ := run_cons_ok hr
        exact ih.mp (has u es' hu) front' b back t fs htail hrest
    · intro h
      refine ⟨h [] a as s [] rfl rfl, fun t es ht => ih.mpr fun front b back u fs has hr => ?_⟩
      exact h (a :: front) b back u (es ++ fs) (congrArg (a :: ·) has) (run_cons_of_ok ht hr)

theorem run_append_ok {s u : σ} {as bs : List α} {log : List β}
    (h : run step s (as ++ bs) = .ok (u, log)) :
    ∃ t es fs, run step s as = .ok (t, es) ∧ run step t bs = .ok (u, fs) ∧ log = es ++ fs := by
  induction as generalizing s log with
  | nil => exact ⟨s, [], log, rfl, h, rfl⟩
  | cons a as ih =>
    obtain ⟨t, es, gs, ht, hu, rfl⟩ := run_cons_ok h
    obtain ⟨v, es', fs, hv, hw, rfl⟩ := ih hu
    exact ⟨v, es ++ es', fs, run_cons_of_ok ht hv, hw, (List.append_assoc ..).symm⟩

theorem AllSteps.of_append {C : σ → α → Prop} {s t : σ} {as bs : List α} {es : List β}
    (h : AllSteps step C s (as ++ bs)) (ht : run step s as = .ok (t, es)) :
    AllSteps step C t bs := by
  induction as generalizing s es with
  | nil =>
    cases ht
    exact h
  | cons a as ih =>
    obtain ⟨v, es', fs, hv, hr, -⟩ := run_cons_ok ht
    exact ih (h.2 v es' hv) hr

/-- Every step of a run passes a check. -/
def passes (step : σ → α → Except ε (σ × List β)) (check : σ → α → Bool) : σ → List α → Bool
  | _, [] => true
  | s, a :: as =>
    check s a && match step s a with
      | .ok (t, _) => passes step check t as
      | .error _ => true

theorem allSteps_of_passes {check : σ → α → Bool} {C : σ → α → Prop} {s : σ} {as : List α}
    (hcheck : ∀ s a, check s a = true → C s a) (h : passes step check s as = true) :
    AllSteps step C s as := by
  induction as generalizing s with
  | nil => trivial
  | cons a as ih =>
    obtain ⟨ha, has⟩ := Bool.and_eq_true_iff.mp h
    refine ⟨hcheck s a ha, fun t es ht => ih ?_⟩
    rwa [ht] at has

/-- The state part of `run_rule`. -/
theorem run_invariant {C : σ → α → Prop} {J : σ → Prop}
    (hstep : ∀ s a t es, J s → C s a → step s a = .ok (t, es) → J t)
    {s u : σ} {fs : List β} {as : List α}
    (h0 : J s) (hC : AllSteps step C s as) (hr : run step s as = .ok (u, fs)) : J u :=
  run_rule (J := fun s _ _ => J s) (l := []) (b := [])
    (fun s _ _ a t es h hC ht => hstep s a t es h hC ht) h0 hC hr

/-- What is kept beside a run: it sees each operation and the state it is met in. -/
def follow (step : σ → α → Except ε (σ × List β)) (ghost : σ → π → α → π) : σ → π → List α → π
  | _, p, [] => p
  | s, p, a :: as =>
    match step s a with
    | .error _ => p
    | .ok (t, _) => follow step ghost t (ghost s p a) as

/-- `run_invariant` for a state and what is kept beside the run. -/
theorem run_follow {ghost : σ → π → α → π} {J : σ → π → Prop}
    (hstep : ∀ s p a t es, J s p → step s a = .ok (t, es) → J t (ghost s p a))
    {s u : σ} {p : π} {fs : List β} {as : List α}
    (h0 : J s p) (hr : run step s as = .ok (u, fs)) : J u (follow step ghost s p as) := by
  induction as generalizing s p fs with
  | nil =>
    cases hr
    exact h0
  | cons a as ih =>
    obtain ⟨t, es, gs, ht, hu, rfl⟩ := run_cons_ok hr
    have hrest := ih (hstep s p a t es h0 ht) hu
    unfold follow
    rw [ht]
    exact hrest

/-- If no step fails from a state meeting the invariant, no run does. -/
theorem run_total {J : σ → Prop} (hstep : ∀ s a, J s → ∃ t es, step s a = .ok (t, es) ∧ J t)
    {s : σ} (h0 : J s) (as : List α) : ∃ u fs, run step s as = .ok (u, fs) := by
  induction as generalizing s with
  | nil => exact ⟨s, [], rfl⟩
  | cons a as ih =>
    obtain ⟨t, es, ht, hJ⟩ := hstep s a h0
    obtain ⟨u, fs, hu⟩ := ih hJ
    exact ⟨u, es ++ fs, run_cons_of_ok ht hu⟩

/-- `run_rule` for a log and for operations that all meet `C`, when no such
operation fails while the invariant holds. -/
theorem run_rule_total {C : α → Prop} {J : σ → List β → Prop}
    (hstep : ∀ s log a, J s log → C a → ∃ t es, step s a = .ok (t, es) ∧ J t (log ++ es))
    {s : σ} {l : List β} {as : List α} (h0 : J s l) (hC : ∀ a ∈ as, C a) :
    ∃ u fs, run step s as = .ok (u, fs) ∧ J u (l ++ fs) := by
  induction as generalizing s l with
  | nil => exact ⟨s, [], rfl, (List.append_nil l).symm ▸ h0⟩
  | cons a as ih =>
    obtain ⟨ha, has⟩ := List.forall_mem_cons.mp hC
    obtain ⟨t, es, ht, hJ⟩ := hstep s l a h0 ha
    obtain ⟨u, fs, hu, hend⟩ := ih hJ has
    rw [List.append_assoc] at hend
    exact ⟨u, es ++ fs, run_cons_of_ok ht hu, hend⟩

/-- If each step logs events that all meet `P` exactly when it meets `C`, then a
run does exactly when all its steps do. -/
theorem run_forall_iff {P : β → Prop} {C : σ → α → Prop}
    (hiff : ∀ s a t es, step s a = .ok (t, es) → ((∀ e ∈ es, P e) ↔ C s a))
    {s u : σ} {as : List α} {log : List β} (hr : run step s as = .ok (u, log)) :
    (∀ e ∈ log, P e) ↔ AllSteps step C s as := by
  induction as generalizing s log with
  | nil =>
    cases hr
    exact ⟨fun _ => trivial, fun _ e he => absurd he List.not_mem_nil⟩
  | cons a as ih =>
    obtain ⟨t, es, fs, ht, hu, rfl⟩ := run_cons_ok hr
    rw [List.forall_mem_append, hiff s a t es ht, ih hu]
    constructor
    · rintro ⟨ha, has⟩
      exact .cons_of_ok ht ha has
    · rintro ⟨ha, has⟩
      exact ⟨ha, has t es ht⟩

/-- `run_rule` for an invariant that ties the state to the plant its log drives
and holds `I` of the plant at every point of the log. -/
theorem run_along {act : π → β → π} {C : σ → α → Prop} {J : σ → π → Prop} {I : π → Prop}
    (hstep : ∀ s p a t es, J s p → C s a → step s a = .ok (t, es) →
      J t (replay act p es) ∧ Along act I p es)
    (hI : ∀ s p, J s p → I p)
    {s u : σ} {p : π} {fs : List β} {as : List α}
    (h0 : J s p) (hC : AllSteps step C s as) (hr : run step s as = .ok (u, fs)) :
    J u (replay act p fs) ∧ Along act I p fs := by
  have := run_rule (J := fun s log _ => J s (replay act p log) ∧ Along act I p log)
    (l := []) (b := [])
    (fun s log _ a t es h hC ht => by
      obtain ⟨hJ, hA⟩ := hstep s _ a t es h.1 hC ht
      exact ⟨by rwa [replay_append], along_append.mpr ⟨h.2, hA⟩⟩)
    ⟨h0, hI s p h0⟩ hC hr
  simpa using this

/-- If, from every state meeting the invariant, a step's log complies exactly
when the step meets `C`, and a complying step keeps the invariant, then a whole
run's log complies exactly when all its steps meet `C`, and a complying run
keeps the invariant. The steps of the run may be assumed to meet `H`. -/
theorem run_complies_iff_of {act : π → β → π} {ok : π → β → Prop} {H C : σ → α → Prop}
    {J : σ → π → Prop}
    (hiff : ∀ s p a t es, J s p → H s a → step s a = .ok (t, es) →
      (Complies act ok p es ↔ C s a))
    (hkeep : ∀ s p a t es, J s p → H s a → step s a = .ok (t, es) → Complies act ok p es →
      J t (replay act p es))
    {s u : σ} {p : π} {fs : List β} {as : List α}
    (h0 : J s p) (hH : AllSteps step H s as) (hr : run step s as = .ok (u, fs)) :
    (Complies act ok p fs ↔ AllSteps step C s as) ∧
      (Complies act ok p fs → J u (replay act p fs)) := by
  induction as generalizing s p fs with
  | nil => cases hr; simpa [Complies, AllSteps] using h0
  | cons a as ih =>
    obtain ⟨t, es, gs, ht, hu, rfl⟩ := run_cons_ok hr
    have hrest := fun hc => ih (hkeep s p a t es h0 hH.1 ht hc) (hH.2 t es ht) hu
    rw [complies_append, AllSteps, hiff s p a t es h0 hH.1 ht, replay_append]
    have hes := hiff s p a t es h0 hH.1 ht
    constructor
    · constructor
      · rintro ⟨hc, hgs⟩
        refine ⟨hc, fun t' es' ht' => ?_⟩
        obtain ⟨rfl, rfl⟩ : t = t' ∧ es = es' := by simpa using ht.symm.trans ht'
        exact (hrest (hes.mpr hc)).1.mp hgs
      · rintro ⟨hc, hgs⟩
        exact ⟨hc, (hrest (hes.mpr hc)).1.mpr (hgs t es ht)⟩
    · rintro ⟨hc, hgs⟩
      exact (hrest (hes.mpr hc)).2 hgs

/-- `run_complies_iff_of` with nothing assumed of the steps. -/
theorem run_complies_iff {act : π → β → π} {ok : π → β → Prop} {C : σ → α → Prop}
    {J : σ → π → Prop}
    (hiff : ∀ s p a t es, J s p → step s a = .ok (t, es) → (Complies act ok p es ↔ C s a))
    (hkeep : ∀ s p a t es, J s p → step s a = .ok (t, es) → Complies act ok p es →
      J t (replay act p es))
    {s u : σ} {p : π} {fs : List β} {as : List α}
    (h0 : J s p) (hr : run step s as = .ok (u, fs)) :
    (Complies act ok p fs ↔ AllSteps step C s as) ∧
      (Complies act ok p fs → J u (replay act p fs)) :=
  run_complies_iff_of (fun s p a t es h _ => hiff s p a t es h)
    (fun s p a t es h _ => hkeep s p a t es h) h0 (allSteps_true s as) hr

end EmbeddedPlatform.Lib
