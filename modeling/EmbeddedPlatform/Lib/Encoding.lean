import EmbeddedPlatform.Lib.Limbs

/-! # Values as bytes

How values of a type lie in memory: a number of bytes, and the way there and back. -/

namespace EmbeddedPlatform.Lib

structure Encoding (α : Type*) where
  size : Nat
  bytes : α → List UInt8
  value : List UInt8 → α
  bytes_length : ∀ x, (bytes x).length = size
  value_bytes : ∀ x, value (bytes x) = x

namespace Encoding

variable {α : Type*}

theorem bytes_inj (enc : Encoding α) {x y : α} : enc.bytes x = enc.bytes y ↔ x = y := by
  constructor
  · intro h
    have hvalue := congrArg enc.value h
    rwa [enc.value_bytes, enc.value_bytes] at hvalue
  · intro h
    rw [h]

/-- A byte that is 0 or not. -/
def bool : Encoding Bool where
  size := 1
  bytes b := [if b then 1 else 0]
  value l := l.headD 0 != 0
  bytes_length _ := rfl
  value_bytes b := by cases b <;> rfl

/-- A number of `n` bytes, the lowest first. -/
def littleEndian (n : Nat) : Encoding (BitVec (8 * n)) where
  size := n
  bytes x := List.ofFn fun i : Fin n => UInt8.ofNat (x.toNat / 256 ^ (i : Nat))
  value l := BitVec.ofNat (8 * n) (limbValue 256 fun i : Fin n => (l.getD i 0).toNat)
  bytes_length _ := List.length_ofFn
  value_bytes x := by
    have hdigits : (fun i : Fin n => ((List.ofFn fun i : Fin n =>
        UInt8.ofNat (x.toNat / 256 ^ (i : Nat))).getD i 0).toNat) =
        fun i : Fin n => x.toNat / 256 ^ (i : Nat) % 256 := by
      funext i
      rw [List.getD_eq_getElem?_getD, List.getElem?_ofFn]
      simp
    have hpow : 256 ^ n = 2 ^ (8 * n) := by rw [Nat.pow_mul]
    apply BitVec.eq_of_toNat_eq
    rw [BitVec.toNat_ofNat, hdigits, limbValue_digits, hpow, Nat.mod_mod, Nat.mod_eq_of_lt x.isLt]

end Encoding

end EmbeddedPlatform.Lib
