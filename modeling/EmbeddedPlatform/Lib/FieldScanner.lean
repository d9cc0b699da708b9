import Mathlib.Data.List.Induction
import Mathlib.Logic.Function.Basic

/-! # Fields between separators

A scanner reads a string from left to right. The separators are expected in a
fixed order; the one that is due ends a field, and every other item is taken
into the field or refused. -/

namespace EmbeddedPlatform.Lib

section
variable {α : Type*}

/-- The fields from the `i`-th on, with the separators between them. -/
def joinFields (f : Nat → List α) : Nat → List α → List α
  | i, [] => f i
  | i, c :: seps => f i ++ c :: joinFields f (i + 1) seps

theorem joinFields_congr {f g : Nat → List α} {i : Nat} {seps : List α}
    (h : ∀ j, i ≤ j → j ≤ i + seps.length → f j = g j) :
    joinFields f i seps = joinFields g i seps := by
  induction seps generalizing i with
  | nil => exact h i (Nat.le_refl i) (Nat.le_refl i)
  | cons c seps ih =>
    unfold joinFields
    rw [h i (Nat.le_refl i) (Nat.le_add_right i _), ih fun j hle hlt => ?_]
    refine h j (Nat.le_of_succ_le hle) ?_
    rw [List.length_cons]
    omega

theorem joinFields_append_singleton (f : Nat → List α) (i : Nat) (seps : List α) (c : α) :
    joinFields f i (seps ++ [c]) = joinFields f i seps ++ c :: f (i + seps.length + 1) := by
  induction seps generalizing i with
  | nil => rfl
  | cons d seps ih =>
    have hlen : i + 1 + seps.length = i + (d :: seps).length := by
      rw [List.length_cons, Nat.add_assoc, Nat.add_comm 1]
    rw [List.cons_append]
    unfold joinFields
    rw [ih, hlen, List.append_assoc, List.cons_append]

/-- One more item in the last field. -/
theorem joinFields_update_last (f : Nat → List α) (i : Nat) (seps : List α) (c : α) :
    joinFields (Function.update f (i + seps.length) (f (i + seps.length) ++ [c])) i seps =
      joinFields f i seps ++ [c] := by
  induction seps generalizing i with
  | nil => exact Function.update_self ..
  | cons d seps ih =>
    have hlen : i + (d :: seps).length = i + 1 + seps.length := by
      rw [List.length_cons, Nat.add_assoc, Nat.add_comm 1]
    have hne : i ≠ i + 1 + seps.length := by omega
    rw [hlen]
    unfold joinFields
    rw [ih, Function.update_of_ne hne, List.append_assoc, List.cons_append]

end

variable {α β : Type*} [DecidableEq α]

/-- The field that is being read, and what has been made of each so far. -/
@[ext] structure FieldScan (β : Type*) where
  nfield : Nat
  fields : Nat → β

namespace FieldScan

def start (b : β) : FieldScan β := ⟨0, fun _ => b⟩

variable (seps : List α) (push : β → α → Option β)

def step (st : FieldScan β) (c : α) : Option (FieldScan β) :=
  if seps[st.nfield]? = some c then some { st with nfield := st.nfield + 1 }
  else (push (st.fields st.nfield) c).map fun b => { st with fields := Function.update st.fields st.nfield b }

def scan (st : FieldScan β) (s : List α) : Option (FieldScan β) := s.foldlM (step seps push) st

variable {seps push} {st : FieldScan β} {s : List α} {b : β}

theorem scan_append (st : FieldScan β) (s t : List α) :
    scan seps push st (s ++ t) = (scan seps push st s).bind fun st' => scan seps push st' t :=
  List.foldlM_append

/-- No separator can be taken into a field. -/
def Separate (seps : List α) (push : β → α → Option β) : Prop := ∀ c ∈ seps, ∀ b, push b c = none

/-- A field is read to its end. -/
theorem scan_field (hsep : Separate seps push) (st : FieldScan β) {f : List α} {b : β}
    (h : f.foldlM push (st.fields st.nfield) = some b) :
    scan seps push st f = some { st with fields := Function.update st.fields st.nfield b } := by
  induction f generalizing st with
  | nil =>
    cases h
    exact congrArg some (FieldScan.ext rfl (Function.update_eq_self ..).symm)
  | cons c f ih =>
    obtain ⟨b', hb', htake⟩ := Option.bind_eq_some_iff.mp h
    have hne : ¬ seps[st.nfield]? = some c := by
      intro hc
      rw [hsep c (List.mem_of_getElem? hc)] at hb'
      cases hb'
    have hstep : step seps push st c =
        some { st with fields := Function.update st.fields st.nfield b' } := by
      unfold step
      rw [if_neg hne, hb']
      rfl
    have hacc : Function.update st.fields st.nfield b' st.nfield = b' := Function.update_self ..
    have hrest := ih { st with fields := Function.update st.fields st.nfield b' }
      (show f.foldlM push (Function.update st.fields st.nfield b' st.nfield) = some b by rwa [hacc])
    rw [Function.update_idem] at hrest
    show (step seps push st c).bind (fun st' => scan seps push st' f) = _
    rw [hstep]
    exact hrest

/-- What has been made of the fields up to the `n`-th. -/
def upTo (n : Nat) (acc : Nat → β) (b : β) : FieldScan β := ⟨n, fun j => if j ≤ n then acc j else b⟩

omit [DecidableEq α] in
theorem update_start (acc : Nat → β) (b : β) :
    Function.update (start b).fields 0 (acc 0) = (upTo 0 acc b).fields := by
  funext j
  show Function.update (fun _ => b) 0 (acc 0) j = if j ≤ 0 then acc j else b
  by_cases hj : j = 0
  · rw [hj, Function.update_self, if_pos (Nat.le_refl 0)]
  · rw [Function.update_of_ne hj, if_neg (by omega)]

omit [DecidableEq α] in
theorem update_upTo (n : Nat) (acc : Nat → β) (b : β) :
    Function.update (upTo n acc b).fields (n + 1) (acc (n + 1)) = (upTo (n + 1) acc b).fields := by
  funext j
  show Function.update (fun j => if j ≤ n then acc j else b) (n + 1) (acc (n + 1)) j =
    if j ≤ n + 1 then acc j else b
  by_cases hj : j = n + 1
  · rw [hj, Function.update_self, if_pos (Nat.le_refl _)]
  · rw [Function.update_of_ne hj]
    exact if_congr (by omega) rfl rfl

/-- **A string of fields is scanned.** -/
theorem scan_join (hsep : Separate seps push) {f : Nat → List α} {acc : Nat → β} {n : Nat}
    (hn : n ≤ seps.length) (hf : ∀ j ≤ n, (f j).foldlM push b = some (acc j)) :
    scan seps push (start b) (joinFields f 0 (seps.take n)) = some (upTo n acc b) := by
  induction n with
  | zero =>
    have hfirst := scan_field hsep (start b) (hf 0 (Nat.le_refl 0))
    exact hfirst.trans (congrArg some (FieldScan.ext rfl (update_start acc b)))
  | succ n ih =>
    have hlen : 0 + (seps.take n).length + 1 = n + 1 := by
      rw [List.length_take]
      omega
    rw [List.take_succ_eq_append_getElem hn, joinFields_append_singleton, hlen, scan_append,
      ih (Nat.le_of_succ_le hn) fun j hj => hf j (Nat.le_succ_of_le hj)]
    have hstep : step seps push (upTo n acc b) seps[n] =
        some { upTo n acc b with nfield := n + 1 } := if_pos (List.getElem?_eq_getElem hn)
    have hnew : (upTo n acc b).fields (n + 1) = b := if_neg (Nat.not_succ_le_self n)
    have hlast := hf (n + 1) (Nat.le_refl _)
    rw [← hnew] at hlast
    show (step seps push (upTo n acc b) seps[n]).bind (fun st => scan seps push st (f (n + 1))) = _
    rw [hstep]
    refine (scan_field hsep { upTo n acc b with nfield := n + 1 } hlast).trans ?_
    exact congrArg some (FieldScan.ext rfl (update_upTo n acc b))

/-- A scanner that has come to `st` has read the fields up to the one it is in. -/
def HasRead (seps : List α) (push : β → α → Option β) (b : β) (s : List α) (st : FieldScan β) :
    Prop :=
  st.nfield ≤ seps.length ∧ ∃ f : Nat → List α, s = joinFields f 0 (seps.take st.nfield) ∧
    (∀ j ≤ st.nfield, (f j).foldlM push b = some (st.fields j)) ∧ ∀ j, st.nfield < j → st.fields j = b

omit [DecidableEq α] in
theorem length_take_nfield {n : Nat} (h : n ≤ seps.length) : 0 + (seps.take n).length = n := by
  rw [List.length_take]
  omega

omit [DecidableEq α] in
theorem HasRead.separator {c : α} (h : HasRead seps push b s st) (hc : seps[st.nfield]? = some c) :
    HasRead seps push b (s ++ [c]) { st with nfield := st.nfield + 1 } := by
  obtain ⟨hle, f, hs, hf, hnew⟩ := h
  have hlen := length_take_nfield hle
  obtain ⟨hlt, hget⟩ := List.getElem?_eq_some_iff.mp hc
  refine ⟨hlt, Function.update f (st.nfield + 1) [], ?_, fun j hj => ?_, fun j hj => ?_⟩
  · show s ++ [c] = joinFields _ 0 (seps.take (st.nfield + 1))
    rw [List.take_succ_eq_append_getElem hlt, hget, joinFields_append_singleton, hlen,
      Function.update_self, hs]
    refine congrArg (· ++ [c]) (joinFields_congr fun j _ hj => ?_)
    rw [hlen] at hj
    exact (Function.update_of_ne (by omega) ..).symm
  · show (Function.update f (st.nfield + 1) [] j).foldlM push b = some (st.fields j)
    by_cases hj' : j = st.nfield + 1
    · subst hj'
      rw [Function.update_self, hnew _ (Nat.lt_succ_self _)]
      rfl
    · rw [Function.update_of_ne hj']
      exact hf j (Nat.le_of_lt_succ (Nat.lt_of_le_of_ne hj hj'))
  · exact hnew j (Nat.lt_of_succ_lt hj)

omit [DecidableEq α] in
theorem HasRead.item {c : α} {b' : β} (h : HasRead seps push b s st)
    (hb' : push (st.fields st.nfield) c = some b') :
    HasRead seps push b (s ++ [c]) { st with fields := Function.update st.fields st.nfield b' } := by
  obtain ⟨hle, f, hs, hf, hnew⟩ := h
  refine ⟨hle, Function.update f st.nfield (f st.nfield ++ [c]), ?_, fun j hj => ?_, fun j hj => ?_⟩
  · have hlast := joinFields_update_last f 0 (seps.take st.nfield) c
    rw [length_take_nfield hle] at hlast
    rw [hs]
    exact hlast.symm
  · show (Function.update f st.nfield (f st.nfield ++ [c]) j).foldlM push b =
      some (Function.update st.fields st.nfield b' j)
    by_cases hj' : j = st.nfield
    · subst hj'
      rw [Function.update_self, Function.update_self, List.foldlM_append, hf _ (Nat.le_refl _)]
      show (push (st.fields st.nfield) c).bind some = some b'
      rw [hb']
      rfl
    · rw [Function.update_of_ne hj', Function.update_of_ne hj']
      exact hf j hj
  · exact (Function.update_of_ne (Nat.ne_of_gt hj) ..).trans (hnew j hj)

/-- **What is scanned are fields.** -/
theorem hasRead_of_scan (h : scan seps push (start b) s = some st) : HasRead seps push b s st := by
  induction s using List.reverseRecOn generalizing st with
  | nil =>
    cases h
    exact ⟨Nat.zero_le _, fun _ => [], rfl, fun j _ => rfl, fun j _ => rfl⟩
  | append_singleton s c ih =>
    rw [scan_append] at h
    obtain ⟨st', hst', hc⟩ := Option.bind_eq_some_iff.mp h
    have hc : step seps push st' c = some st := by
      obtain ⟨t, ht, hlast⟩ := Option.bind_eq_some_iff.mp hc
      cases hlast
      exact ht
    unfold step at hc
    split at hc
    · rename_i hget
      cases hc
      exact (ih hst').separator hget
    · obtain ⟨b', hb', rfl⟩ := Option.map_eq_some_iff.mp hc
      exact (ih hst').item hb'

end FieldScan

/-- The fields of a string are unique if no separator is in one. -/
theorem joinFields_unique {seps : List α} {f g : Nat → List α}
    (hf : ∀ j ≤ seps.length, ∀ c ∈ f j, c ∉ seps) (hg : ∀ j ≤ seps.length, ∀ c ∈ g j, c ∉ seps)
    (h : joinFields f 0 seps = joinFields g 0 seps) {j : Nat} (hj : j ≤ seps.length) :
    f j = g j := by
  -- a scanner that keeps what it reads
  let push (l : List α) (c : α) : Option (List α) := if c ∈ seps then none else some (l ++ [c])
  have hsep : FieldScan.Separate seps push := fun c hc l => if_pos hc
  have hkeep {l t : List α} (hl : ∀ c ∈ l, c ∉ seps) : l.foldlM push t = some (t ++ l) := by
    induction l generalizing t with
    | nil => exact congrArg some (List.append_nil t).symm
    | cons c l ih =>
      obtain ⟨hc, hl⟩ := List.forall_mem_cons.mp hl
      show (push t c).bind (fun t => l.foldlM push t) = _
      rw [show push t c = some (t ++ [c]) from if_neg hc]
      exact (ih hl).trans (congrArg some (List.append_assoc t [c] l))
  have hscan {k : Nat → List α} (hk : ∀ j ≤ seps.length, ∀ c ∈ k j, c ∉ seps) :
      FieldScan.scan seps push (.start []) (joinFields k 0 seps) =
        some (.upTo seps.length k []) := by
    have hjoin := FieldScan.scan_join hsep (Nat.le_refl _) fun j hj => hkeep (t := []) (hk j hj)
    rw [List.take_length] at hjoin
    exact hjoin
  have heq := (hscan hf).symm.trans ((congrArg _ h).trans (hscan hg))
  have hfields := congrFun (congrArg FieldScan.fields (Option.some.inj heq)) j
  exact (if_pos hj).symm.trans (hfields.trans (if_pos hj))

end EmbeddedPlatform.Lib
