import Mathlib.Data.Fin.Tuple.Basic

/-! # Buffers of fixed size

A buffer is an array of a size known in advance. Copies in and out name their
place, and that it lies within the buffer is part of the operation. -/

namespace EmbeddedPlatform.Lib

variable {α : Type*} {n m k : Nat}

/-- The buffer with `src` copied to `off`. -/
def memcpy (dst : Fin n → α) (off : Nat) (src : Fin m → α) (_ : off + m ≤ n) : Fin n → α :=
  fun i => if h : off ≤ i ∧ i < off + m then src ⟨i - off, by omega⟩ else dst i

/-- `m` items from `off` on. -/
def slice (buf : Fin n → α) (off m : Nat) (h : off + m ≤ n) : Fin m → α :=
  fun i => buf ⟨off + i, by omega⟩

section
variable {dst buf : Fin n → α} {src : Fin m → α} {off pos : Nat}

theorem memcpy_of_mem (h : off + m ≤ n) {i : Fin n} (hle : off ≤ i) (hlt : i < off + m) :
    memcpy dst off src h i = src ⟨i - off, by omega⟩ := dif_pos ⟨hle, hlt⟩

theorem memcpy_of_lt (h : off + m ≤ n) {i : Fin n} (hlt : i < off) :
    memcpy dst off src h i = dst i := dif_neg fun hi => absurd hi.1 (Nat.not_le.mpr hlt)

theorem memcpy_of_le (h : off + m ≤ n) {i : Fin n} (hle : off + m ≤ i) :
    memcpy dst off src h i = dst i := dif_neg fun hi => absurd hi.2 (Nat.not_lt.mpr hle)

/-- A part of what was copied in. -/
theorem slice_memcpy_within (h : off + m ≤ n) (hk : off + pos + k ≤ n) (hle : pos + k ≤ m) :
    slice (memcpy dst off src h) (off + pos) k hk = slice src pos k hle := by
  funext i
  have hge : off ≤ off + pos + (i : Nat) := by omega
  have hlt : off + pos + (i : Nat) < off + m := by omega
  have hi : off + pos + (i : Nat) - off = pos + i := by omega
  show memcpy dst off src h ⟨off + pos + i, _⟩ = src ⟨pos + i, _⟩
  rw [memcpy_of_mem h hge hlt]
  exact congrArg src (Fin.ext hi)

theorem slice_self (src : Fin m → α) (h : 0 + m ≤ m) : slice src 0 m h = src :=
  funext fun _ => congrArg src (Fin.ext (Nat.zero_add _))

/-- What was copied in is there. -/
theorem slice_memcpy (h : off + m ≤ n) : slice (memcpy dst off src h) off m h = src :=
  (slice_memcpy_within h h (Nat.le_of_eq (Nat.zero_add m))).trans (slice_self src _)

theorem slice_slice {l : Nat} (buf : Fin n → α) (h : off + m ≤ n) (hl : pos + l ≤ m) :
    slice (slice buf off m h) pos l hl = slice buf (off + pos) l (by omega) :=
  funext fun _ => congrArg buf (Fin.ext (Nat.add_assoc ..).symm)

/-- A copy behind a slice leaves it alone. -/
theorem slice_memcpy_of_le (h : off + m ≤ n) (hk : pos + k ≤ n) (hle : pos + k ≤ off) :
    slice (memcpy dst off src h) pos k hk = slice dst pos k hk := by
  funext i
  exact memcpy_of_lt h (Nat.lt_of_lt_of_le (Nat.add_lt_add_left i.isLt pos) hle)

/-- So does a copy before it. -/
theorem slice_memcpy_of_ge (h : off + m ≤ n) (hk : pos + k ≤ n) (hle : off + m ≤ pos) :
    slice (memcpy dst off src h) pos k hk = slice dst pos k hk := by
  funext i
  exact memcpy_of_le h (Nat.le_trans hle (Nat.le_add_right _ _))

/-- The later of two copies to one place. -/
theorem memcpy_again (u v : Fin m → α) (h : off + m ≤ n) :
    memcpy (memcpy dst off u h) off v h = memcpy dst off v h := by
  funext i
  by_cases hin : off ≤ (i : Nat) ∧ (i : Nat) < off + m
  · rw [memcpy_of_mem h hin.1 hin.2, memcpy_of_mem h hin.1 hin.2]
  · simp only [memcpy, dif_neg hin]

/-- A slice in two parts. -/
theorem slice_add (buf : Fin n → α) (off k l : Nat) (h : off + (k + l) ≤ n) :
    slice buf off (k + l) h =
    Fin.append (slice buf off k (by omega)) (slice buf (off + k) l (by omega)) := by
  funext i
  refine Fin.addCases (fun i => ?_) (fun i => ?_) i
  · rw [Fin.append_left]
    rfl
  · rw [Fin.append_right]
    exact congrArg buf (Fin.ext (Nat.add_assoc ..).symm)

theorem slice_append_left (u : Fin m → α) (v : Fin k → α) (h : 0 + m ≤ m + k) :
    slice (Fin.append u v) 0 m h = u := by
  funext i
  have hi : (⟨0 + i, by omega⟩ : Fin (m + k)) = Fin.castAdd k i := Fin.ext (Nat.zero_add _)
  show Fin.append u v _ = u i
  rw [hi, Fin.append_left]

theorem slice_append_right (u : Fin m → α) (v : Fin k → α) (h : m + k ≤ m + k) :
    slice (Fin.append u v) m k h = v := by
  funext i
  exact Fin.append_right u v i

/-- An item is changed in the buffer, or before it is copied in. -/
theorem update_memcpy (h : off + m ≤ n) (j : Fin m) (x : α) :
    Function.update (memcpy dst off src h) ⟨off + j, by omega⟩ x =
      memcpy dst off (Function.update src j x) h := by
  funext i
  by_cases hi : i = ⟨off + j, by omega⟩
  · subst hi
    have hj : (⟨off + j - off, by omega⟩ : Fin m) = j := Fin.ext (Nat.add_sub_cancel_left ..)
    rw [Function.update_self, memcpy_of_mem h (Nat.le_add_right _ _) (Nat.add_lt_add_left j.isLt off)]
    show x = Function.update src j x ⟨off + j - off, _⟩
    rw [hj, Function.update_self]
  · rw [Function.update_of_ne hi]
    unfold memcpy
    split
    · rename_i hin
      refine (Function.update_of_ne (fun hj => hi ?_) x src).symm
      have hsub : (i : Nat) - off = j := congrArg Fin.val hj
      have hadd : (i : Nat) = off + j := by omega
      exact Fin.ext hadd
    · rfl

end

end EmbeddedPlatform.Lib
