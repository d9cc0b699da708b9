import Mathlib.Data.List.Basic
import Mathlib.Algebra.Group.Nat.Defs

/-! # Numbers in hex

The digits of a number, at least so many of them, and the number they stand for. -/

namespace EmbeddedPlatform.Lib

def hexVal (c : Char) : Option Nat :=
  if '0' ≤ c ∧ c ≤ '9' then some (c.toNat - 48)
  else if 'a' ≤ c ∧ c ≤ 'f' then some (c.toNat - 87)
  else none

/-- A character that is no digit counts as 0. -/
def ofHex (cs : List Char) : Nat := cs.foldl (fun n c => 16 * n + (hexVal c).getD 0) 0

/-- Zeros in front up to a width. -/
def hexPadded (width n : Nat) : List Char := (Nat.toDigits 16 n).leftpad width '0'

theorem hexVal_digitChar : ∀ d < 16, hexVal d.digitChar = some d := by decide

theorem ofHex_append (cs ds : List Char) :
    ofHex (cs ++ ds) = ds.foldl (fun n c => 16 * n + (hexVal c).getD 0) (ofHex cs) :=
  List.foldl_append

theorem ofHex_toDigits (n : Nat) : ofHex (Nat.toDigits 16 n) = n := by
  induction n using Nat.base_induction 16 (by decide) with
  | single d hd =>
    rw [Nat.toDigits_of_lt_base hd]
    show 16 * 0 + (hexVal d.digitChar).getD 0 = d
    rw [hexVal_digitChar d hd]
    exact Nat.zero_add d
  | digit m d hd hm ih =>
    rw [← Nat.toDigits_append_toDigits (by decide) hm hd, ofHex_append, ih,
      Nat.toDigits_of_lt_base hd]
    show 16 * m + (hexVal d.digitChar).getD 0 = 16 * m + d
    rw [hexVal_digitChar d hd]
    rfl

theorem ofHex_zeros (k : Nat) : ofHex (List.replicate k '0') = 0 := by
  induction k with
  | zero => rfl
  | succ k ih =>
    rw [List.replicate_succ', ofHex_append, ih]
    rfl

/-- **The digits stand for the number.** -/
theorem ofHex_hexPadded (width n : Nat) : ofHex (hexPadded width n) = n := by
  unfold hexPadded List.leftpad
  rw [ofHex_append, ofHex_zeros]
  exact ofHex_toDigits n

theorem digit_of_mem_toDigits {c : Char} {n : Nat} (hc : c ∈ Nat.toDigits 16 n) :
    ∃ d < 16, c = d.digitChar := by
  induction n using Nat.base_induction 16 (by decide) with
  | single d hd =>
    rw [Nat.toDigits_of_lt_base hd] at hc
    exact ⟨d, hd, List.mem_singleton.mp hc⟩
  | digit m d hd hm ih =>
    rw [← Nat.toDigits_append_toDigits (by decide) hm hd, Nat.toDigits_of_lt_base hd] at hc
    rcases List.mem_append.mp hc with hc | hc
    · exact ih hc
    · exact ⟨d, hd, List.mem_singleton.mp hc⟩

theorem digit_of_mem_hexPadded {c : Char} {width n : Nat} (hc : c ∈ hexPadded width n) :
    ∃ d < 16, c = d.digitChar := by
  rcases List.mem_append.mp hc with hc | hc
  · exact ⟨0, by decide, List.eq_of_mem_replicate hc⟩
  · exact digit_of_mem_toDigits hc

/-- The width is exceeded by numbers that need more digits. -/
theorem length_hexPadded {width : Nat} (hwidth : 0 < width) (n : Nat) :
    (hexPadded width n).length = width ↔ n < 16 ^ width := by
  unfold hexPadded
  rw [List.length_leftpad, ← Nat.length_toDigits_le_iff (by decide) hwidth]
  omega

theorem hexPadded_two {n : Nat} (hn : n < 256) :
    hexPadded 2 n = [(n / 16).digitChar, (n % 16).digitChar] := by
  unfold hexPadded
  by_cases hlow : n < 16
  · rw [Nat.toDigits_of_lt_base hlow, Nat.div_eq_of_lt hlow, Nat.mod_eq_of_lt hlow]
    rfl
  · rw [Nat.toDigits_of_base_le (by decide) (Nat.le_of_not_lt hlow),
      Nat.toDigits_of_lt_base (Nat.div_lt_of_lt_mul hn)]
    rfl

end EmbeddedPlatform.Lib
