import Mathlib.Data.List.Basic

/-! # Mailboxes with one slot

A sender offers one message at a time and puts it into the slot when the slot is
empty; a receiver takes it out. A history of these acts keeps the messages in
order and loses none: those not yet taken are in the slot or on offer. -/

namespace EmbeddedPlatform.Lib

structure Mailbox (α : Type*) where
  offered : Option α
  slot : Option α

namespace Mailbox

variable {α : Type*}

def empty : Mailbox α := ⟨none, none⟩

/-- The mailboxes a history of offers and takes can end in. -/
inductive Reaches : List α → List α → Mailbox α → Prop where
  | start : Reaches [] [] empty
  | offer {offers takes : List α} {slot : Option α} (a : α) :
    Reaches offers takes ⟨none, slot⟩ → Reaches (offers ++ [a]) takes ⟨some a, slot⟩
  | put {offers takes : List α} {a : α} :
    Reaches offers takes ⟨some a, none⟩ → Reaches offers takes ⟨none, some a⟩
  | take {offers takes : List α} {offered : Option α} {a : α} :
    Reaches offers takes ⟨offered, some a⟩ → Reaches offers (takes ++ [a]) ⟨offered, none⟩

variable {offers takes : List α} {m : Mailbox α}

/-- **Nothing is lost, repeated or reordered.** -/
theorem Reaches.offers_eq (h : Reaches offers takes m) :
    offers = takes ++ (m.slot.toList ++ m.offered.toList) := by
  induction h with
  | start => rfl
  | offer a _ ih =>
    rw [ih]
    simp
  | put _ ih =>
    rw [ih]
    simp
  | take _ ih =>
    rw [ih]
    simp

end Mailbox

end EmbeddedPlatform.Lib
