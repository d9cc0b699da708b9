import Mathlib.Algebra.BigOperators.Ring.Finset
import Mathlib.Algebra.BigOperators.Fin

/-! # Numbers in limbs

The little-endian value of an array of limbs. The limbs need not be below the
base. -/

namespace EmbeddedPlatform.Lib

variable {n m : Nat}

def limbValue (base : Nat) (x : Fin n → Nat) : Nat := ∑ k, x k * base ^ (k : Nat)

/-- What is added to a limb is added to the number. -/
theorem limbValue_update_add (base : Nat) (x : Fin n → Nat) (k : Fin n) (d : Nat) :
    limbValue base (Function.update x k (x k + d)) = limbValue base x + d * base ^ (k : Nat) := by
  unfold limbValue
  rw [← Finset.add_sum_erase _ _ (Finset.mem_univ k), ← Finset.add_sum_erase _ _ (Finset.mem_univ k),
    Function.update_self, Nat.add_mul, Nat.add_right_comm]
  refine congrArg (_ + · + _) (Finset.sum_congr rfl fun i hi => ?_)
  rw [Function.update_of_ne (Finset.ne_of_mem_erase hi)]

/-- The products of all pairs of limbs make the product. -/
theorem sum_limb_products (base : Nat) (x : Fin n → Nat) (y : Fin m → Nat) :
    ∑ i, ∑ j, x i * y j * base ^ ((i : Nat) + (j : Nat)) = limbValue base x * limbValue base y := by
  unfold limbValue
  rw [Finset.sum_mul_sum]
  refine Finset.sum_congr rfl fun i _ => Finset.sum_congr rfl fun j _ => ?_
  rw [Nat.pow_add]
  exact Nat.mul_mul_mul_comm ..

/-- Limbs at the end that are zero. -/
theorem limbValue_append_zero (base : Nat) (x : Fin n → Nat) :
    limbValue base (Fin.append x fun _ : Fin m => 0) = limbValue base x := by
  unfold limbValue
  rw [Fin.sum_univ_add]
  simp

/-- The digits of a number. -/
theorem limbValue_digits (base k n : Nat) :
    limbValue base (fun i : Fin n => k / base ^ (i : Nat) % base) = k % base ^ n := by
  unfold limbValue
  induction n with
  | zero => simp [Nat.mod_one]
  | succ n ih =>
    rw [Fin.sum_univ_castSucc, Nat.mod_pow_succ]
    refine congrArg₂ (· + ·) ih ?_
    exact Nat.mul_comm ..

/-- Digits make a number below the power they reach. -/
theorem limbValue_lt {base : Nat} {x : Fin n → Nat} (h : ∀ i, x i < base) :
    limbValue base x < base ^ n := by
  induction n with
  | zero => exact Nat.zero_lt_one
  | succ n ih =>
    have hlow := ih fun i => h i.castSucc
    have htop := Nat.mul_le_mul_right (base ^ n) (Nat.succ_le_of_lt (h (Fin.last n)))
    have hsum : limbValue base x = limbValue base (fun i => x i.castSucc) +
        x (Fin.last n) * base ^ n := Fin.sum_univ_castSucc _
    rw [hsum, Nat.pow_succ, Nat.mul_comm (base ^ n)]
    rw [Nat.succ_mul] at htop
    omega

end EmbeddedPlatform.Lib
