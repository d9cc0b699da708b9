import Mathlib.Data.List.Basic

/-! # Machines that read a stream from a buffer

A machine takes some items off the front of a buffer, or waits for more. What it
does with the items it has seen does not change when more arrive, so the way a
stream is cut into pieces does not matter. -/

namespace EmbeddedPlatform.Lib

/-- `step p buf` is the next state, how many items of `buf` are used up and
what is put out; `none` means that `buf` is too short. A step that uses nothing
up lowers the rank. -/
structure StreamMachine (σ α β : Type*) where
  step : σ → List α → Option (σ × Nat × List β)
  rank : σ → Nat
  step_le : ∀ {p buf q n out}, step p buf = some (q, n, out) → n ≤ buf.length
  step_rank : ∀ {p buf q out}, step p buf = some (q, 0, out) → rank q < rank p
  step_append : ∀ {p buf r}, step p buf = some r → ∀ more, step p (buf ++ more) = some r

/-- Where a machine comes to rest: its state, what is left and what was put out. -/
@[ext] structure Rest (σ α β : Type*) where
  state : σ
  buf : List α
  out : List β

namespace Rest

variable {σ α β : Type*}

/-- The same rest after an earlier output. -/
def after (out : List β) (r : Rest σ α β) : Rest σ α β := { r with out := out ++ r.out }

@[simp] theorem after_state (out : List β) (r : Rest σ α β) : (r.after out).state = r.state := rfl
@[simp] theorem after_buf (out : List β) (r : Rest σ α β) : (r.after out).buf = r.buf := rfl
@[simp] theorem after_out (out : List β) (r : Rest σ α β) : (r.after out).out = out ++ r.out := rfl

@[simp] theorem after_nil (r : Rest σ α β) : r.after [] = r := rfl

@[simp] theorem after_after (o o' : List β) (r : Rest σ α β) :
    (r.after o').after o = r.after (o ++ o') := by
  ext1
  · rfl
  · rfl
  · exact (List.append_assoc o o' r.out).symm

end Rest

namespace StreamMachine

variable {σ α β : Type*} (M : StreamMachine σ α β)

/-- Run the machine until it waits. -/
def settle (p : σ) (buf : List α) : Rest σ α β :=
  match _h : M.step p buf with
  | none => ⟨p, buf, []⟩
  | some (q, n, out) => (settle q (buf.drop n)).after out
termination_by (buf.length, M.rank p)
decreasing_by
  have hle := M.step_le _h
  rcases Nat.eq_zero_or_pos n with rfl | hpos
  · exact Prod.Lex.right _ (M.step_rank _h)
  · exact Prod.Lex.left _ _ (by rw [List.length_drop]; omega)

variable {M} {p q : σ} {buf more : List α} {n : Nat} {out : List β}

theorem settle_waiting (h : M.step p buf = none) : M.settle p buf = ⟨p, buf, []⟩ := by
  rw [settle]
  split
  · rfl
  · rename_i h'; cases h.symm.trans h'

theorem settle_step (h : M.step p buf = some (q, n, out)) :
    M.settle p buf = (M.settle q (buf.drop n)).after out := by
  rw [settle]
  split
  · rename_i h'; cases h.symm.trans h'
  · rename_i h'
    cases h.symm.trans h'
    rfl

/-- What holds of a machine with an output so far, and is kept by each step,
holds where it comes to rest. -/
theorem settle_rule {J : σ → List α → List β → Prop}
    (hstep : ∀ p buf l q n out, J p buf l → M.step p buf = some (q, n, out) →
      J q (buf.drop n) (l ++ out))
    (l : List β) (h0 : J p buf l) :
    J (M.settle p buf).state (M.settle p buf).buf (l ++ (M.settle p buf).out) := by
  induction p, buf using settle.induct M generalizing l with
  | case1 p buf h =>
    rw [settle_waiting h]
    simpa using h0
  | case2 p buf q n out h ih =>
    rw [settle_step h]
    simpa using ih (l ++ out) (hstep _ _ _ _ _ _ h0 h)

/-- **Input may come in pieces.** Settling on the first piece and then going on
with what was left and the next piece comes to the same rest. -/
theorem settle_append (p : σ) (buf more : List α) :
    M.settle p (buf ++ more) =
      (M.settle (M.settle p buf).state ((M.settle p buf).buf ++ more)).after
        (M.settle p buf).out := by
  induction p, buf using settle.induct M with
  | case1 p buf h => simp [settle_waiting h]
  | case2 p buf q n out h ih =>
    rw [settle_step h, settle_step (M.step_append h more),
      List.drop_append_of_le_length (M.step_le h), ih]
    simp

/-- Machines that agree on the states one of them gets into rest alike. -/
theorem settle_congr {N : StreamMachine σ α β} {I : σ → Prop}
    (hagree : ∀ p buf, I p → M.step p buf = N.step p buf)
    (hstep : ∀ p buf q n out, I p → M.step p buf = some (q, n, out) → I q)
    (hp : I p) : M.settle p buf = N.settle p buf := by
  induction p, buf using settle.induct M with
  | case1 p buf h => rw [settle_waiting h, settle_waiting ((hagree p buf hp).symm.trans h)]
  | case2 p buf q n out h ih =>
    rw [settle_step h, settle_step ((hagree p buf hp).symm.trans h), ih (hstep _ _ _ _ _ hp h)]

end StreamMachine

end EmbeddedPlatform.Lib
