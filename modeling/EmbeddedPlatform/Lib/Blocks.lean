import Mathlib.Data.List.Basic

/-! # Lists in which the members of a group stand together

`group` says which group an element belongs to, if any. -/
namespace EmbeddedPlatform.Lib

variable {α κ : Type} {group : α → Option κ} {l xs ys : List α} {x y : α}

/-- Whatever stands between two members of a group is a member too. -/
def Together (group : α → Option κ) (l : List α) : Prop :=
  ∀ xs x ys y zs, l = xs ++ x :: (ys ++ y :: zs) → group x ≠ none → group y = group x →
    ∀ z ∈ ys, group z = group x

theorem together_of_forall {g : Option κ} (h : ∀ x ∈ l, group x = g) : Together group l := by
  intro xs x ys y zs heq _ _ z hz
  have hx := h x (by rw [heq]; simp)
  have hz' := h z (by rw [heq]; simp [hz])
  rw [hx, hz']

theorem Together.left (h : Together group (xs ++ ys)) : Together group xs := by
  intro as x bs y cs heq hx hy
  apply h as x bs y (cs ++ ys) _ hx hy
  rw [heq]
  simp only [List.append_assoc, List.cons_append]

theorem Together.right (h : Together group (xs ++ ys)) : Together group ys := by
  intro as x bs y cs heq hx hy
  apply h (xs ++ as) x bs y cs _ hx hy
  rw [heq, List.append_assoc]

theorem Together.tail (h : Together group (x :: ys)) : Together group ys :=
  @Together.right _ _ _ [x] ys h

/-- A member that does not follow one is the first. -/
theorem Together.first (h : Together group (xs ++ y :: ys)) (hy : group y ≠ none)
    (hlast : ∀ p ∈ xs.getLast?, group p ≠ group y) : ∀ x ∈ xs, group x ≠ group y := by
  rcases List.eq_nil_or_concat' xs with rfl | ⟨init, p, rfl⟩
  · intro x hx
    cases hx
  · have hp : group p ≠ group y := hlast p (by simp)
    intro x hx hxy
    rcases List.mem_append.mp hx with hinit | hlast
    · obtain ⟨as, bs, rfl⟩ := List.append_of_mem hinit
      have hall := h as x (bs ++ [p]) y ys (by simp) (by rw [hxy]; exact hy) hxy.symm
      exact hp ((hall p (by simp)).trans hxy)
    · rw [List.mem_singleton] at hlast
      subst hlast
      exact hp hxy

/-- A member that no other follows is the last. -/
theorem Together.last (h : Together group (x :: ys)) (hx : group x ≠ none)
    (hhead : ∀ n ∈ ys.head?, group n ≠ group x) : ∀ y ∈ ys, group y ≠ group x := by
  cases ys with
  | nil =>
    intro y hy
    cases hy
  | cons n rest =>
    have hn : group n ≠ group x := hhead n rfl
    intro y hy hyx
    rcases List.mem_cons.mp hy with rfl | hrest
    · exact hn hyx
    · obtain ⟨as, bs, rfl⟩ := List.append_of_mem hrest
      exact hn (h [] x (n :: as) y bs rfl hx hyx n List.mem_cons_self)

/-- What follows a member that is not the last. -/
theorem Together.next {zs : List α} (h : Together group (xs ++ x :: (ys ++ y :: zs)))
    (hx : group x ≠ none) (hxy : group y = group x) :
    ∃ n ∈ ys.head?.or (some y), group n = group x := by
  cases ys with
  | nil => exact ⟨y, rfl, hxy⟩
  | cons n rest => exact ⟨n, rfl, h xs x (n :: rest) y zs rfl hx hxy n List.mem_cons_self⟩

/-- What a member that is not the first follows. -/
theorem Together.previous {zs : List α} (h : Together group (xs ++ x :: (ys ++ y :: zs)))
    (hx : group x ≠ none) (hxy : group y = group x) :
    ∃ p ∈ ys.getLast?.or (some x), group p = group y := by
  rcases List.eq_nil_or_concat' ys with rfl | ⟨init, p, rfl⟩
  · exact ⟨x, rfl, hxy.symm⟩
  · refine ⟨p, by simp, ?_⟩
    rw [hxy]
    exact h xs x (init ++ [p]) y zs rfl hx hxy p (by simp)

/-- An element of two lists one after the other stands in one of them. -/
theorem append_split {as bs above below : List α} (h : as ++ bs = above ++ x :: below) :
    (∃ rest, as = above ++ x :: rest ∧ below = rest ++ bs) ∨
      ∃ rest, above = as ++ rest ∧ bs = rest ++ x :: below := by
  rcases List.append_eq_append_iff.mp h with ⟨rest, habove, hbs⟩ | ⟨rest, has, hbelow⟩
  · exact .inr ⟨rest, habove, hbs⟩
  · cases rest with
    | nil => exact .inr ⟨[], by simpa using has.symm, by simpa using hbelow.symm⟩
    | cons y rest =>
      obtain ⟨rfl, rfl⟩ := List.cons.inj hbelow
      exact .inl ⟨rest, has, rfl⟩

/-- The first element of a kind is one place in the list. -/
theorem first_unique {P : α → Prop} {xs' ys' : List α} (heq : xs ++ x :: ys = xs' ++ y :: ys')
    (hx : P x) (hy : P y) (hxs : ∀ z ∈ xs, ¬ P z) (hxs' : ∀ z ∈ xs', ¬ P z) : x = y := by
  rcases List.append_eq_append_iff.mp heq with ⟨as, rfl, h⟩ | ⟨as, rfl, h⟩
  · cases as with
    | nil => exact (List.cons.inj h).1
    | cons z rest =>
      obtain ⟨rfl, -⟩ := List.cons.inj h
      exact absurd hx (hxs' x (by simp))
  · cases as with
    | nil => exact (List.cons.inj h).1.symm
    | cons z rest =>
      obtain ⟨rfl, -⟩ := List.cons.inj h
      exact absurd hy (hxs y (by simp))

/-- The first element of a kind. -/
theorem exists_first {P : α → Prop} (h : ∃ x ∈ l, P x) :
    ∃ as y bs, l = as ++ y :: bs ∧ P y ∧ ∀ z ∈ as, ¬ P z := by
  classical
  obtain ⟨x, hx, hP⟩ := h
  have hsome : (l.find? fun z => P z).isSome = true :=
    List.find?_isSome.mpr ⟨x, hx, decide_eq_true hP⟩
  obtain ⟨y, hy⟩ := Option.isSome_iff_exists.mp hsome
  obtain ⟨hPy, as, bs, rfl, has⟩ := List.find?_eq_some_iff_append.mp hy
  exact ⟨as, y, bs, rfl, of_decide_eq_true hPy, fun z hz => by simpa using has z hz⟩

/-- The last element of a kind. -/
theorem exists_last {P : α → Prop} (h : ∃ x ∈ l, P x) :
    ∃ as y bs, l = as ++ y :: bs ∧ P y ∧ ∀ z ∈ bs, ¬ P z := by
  obtain ⟨x, hx, hP⟩ := h
  obtain ⟨as, y, bs, heq, hy, has⟩ := exists_first ⟨x, List.mem_reverse.mpr hx, hP⟩
  refine ⟨bs.reverse, y, as.reverse, ?_, hy, fun z hz => has z (List.mem_reverse.mp hz)⟩
  rw [← List.reverse_reverse l, heq]
  simp

end EmbeddedPlatform.Lib
