import Mathlib.Data.List.Basic

/-! # Bounded queues

A queue of at most `cap` items. A push is all or nothing; a pop of more items
than there are empties the queue. -/

namespace EmbeddedPlatform.Lib

@[ext] structure BoundedQueue (α : Type*) (cap : Nat) where
  items : List α
  items_le : items.length ≤ cap

namespace BoundedQueue

variable {α : Type*} {cap : Nat} {q r : BoundedQueue α cap} {xs : List α}

def empty : BoundedQueue α cap := ⟨[], Nat.zero_le _⟩

def push (q : BoundedQueue α cap) (xs : List α) : Option (BoundedQueue α cap) :=
  if h : (q.items ++ xs).length ≤ cap then some ⟨q.items ++ xs, h⟩ else none

def pop (q : BoundedQueue α cap) (n : Nat) : BoundedQueue α cap :=
  ⟨q.items.drop n, by rw [List.length_drop]; exact Nat.le_trans (Nat.sub_le _ _) q.items_le⟩

@[simp] theorem items_empty : (empty : BoundedQueue α cap).items = [] := rfl

@[simp] theorem items_pop (n : Nat) : (q.pop n).items = q.items.drop n := rfl

theorem length_pop_le (n : Nat) : (q.pop n).items.length ≤ q.items.length := by
  rw [items_pop, List.length_drop]
  exact Nat.sub_le _ _

theorem items_of_push (h : q.push xs = some r) : r.items = q.items ++ xs := by
  unfold push at h
  split at h
  · cases h; rfl
  · cases h

theorem push_eq_none_iff : q.push xs = none ↔ cap < q.items.length + xs.length := by
  simp [push]

theorem push_of_fits (h : q.items.length + xs.length ≤ cap) :
    ∃ r, q.push xs = some r ∧ r.items = q.items ++ xs :=
  ⟨⟨q.items ++ xs, by rwa [List.length_append]⟩, by simp [push, h], rfl⟩

/-- A push that does nothing when there is no room. -/
def append (q : BoundedQueue α cap) (xs : List α) : BoundedQueue α cap := (q.push xs).getD q

theorem append_of_push (h : q.push xs = some r) : q.append xs = r := by
  unfold append
  rw [h]
  rfl

theorem items_append (h : q.items.length + xs.length ≤ cap) :
    (q.append xs).items = q.items ++ xs := by
  obtain ⟨r, hr, hitems⟩ := push_of_fits h
  rw [append_of_push hr, hitems]

theorem append_append {ys : List α} (h : q.items.length + xs.length + ys.length ≤ cap) :
    (q.append xs).append ys = q.append (xs ++ ys) := by
  have hxs : q.items.length + xs.length ≤ cap := Nat.le_of_add_right_le h
  ext1
  rw [items_append (by rwa [items_append hxs, List.length_append]), items_append hxs,
    items_append (by rwa [List.length_append, ← Nat.add_assoc]), List.append_assoc]

theorem pop_append {n : Nat} (hn : n ≤ q.items.length) (h : q.items.length + xs.length ≤ cap) :
    (q.pop n).append xs = (q.append xs).pop n := by
  have hpop : (q.pop n).items.length + xs.length ≤ cap :=
    Nat.le_trans (Nat.add_le_add_right (length_pop_le n) _) h
  ext1
  rw [items_append hpop, items_pop, items_pop, items_append h, List.drop_append_of_le_length hn]

end BoundedQueue

end EmbeddedPlatform.Lib
