import Mathlib.Data.List.Forall2
import Mathlib.Data.List.ReduceOption

/-!
# Slots that are filled in any order

A list of pieces is transferred into a list of slots of the same length, one piece
at a time and in any order. A slot is empty or holds something that yields the piece
at its place (`Fills`).

The contents of the slots in order are then a sublist of the pieces
(`Fills.sublist`), and all the pieces once no slot is empty (`Fills.full`).
-/

set_option autoImplicit false

universe u v

namespace Slots

variable {α : Type u} {β : Type v} {yield : α → β}

/-- Every slot that is not empty yields the piece at its place. -/
def Fills (yield : α → β) (slots : List (Option α)) (pieces : List β) : Prop :=
  List.Forall₂ (fun slot piece => ∀ a, slot = some a → yield a = piece) slots pieces

theorem fills_empty (pieces : List β) :
    Fills yield (List.replicate pieces.length none) pieces := by
  induction pieces with
  | nil => exact .nil
  | cons piece rest ih => exact .cons (fun a full => by cases full) ih

/-- Filling a slot with what yields its piece. -/
theorem Fills.set {slots : List (Option α)} {pieces : List β} (fills : Fills yield slots pieces)
    {i : Nat} {a : α} (piece : pieces[i]? = some (yield a)) :
    Fills yield (slots.set i (some a)) pieces := by
  induction fills generalizing i with
  | nil => cases piece
  | cons here rest ih =>
      cases i with
      | zero =>
          refine .cons ?_ rest
          intro b same
          rw [List.getElem?_cons_zero] at piece
          rw [← Option.some.inj same, Option.some.inj piece]
      | succ i => exact .cons here (ih (by simpa using piece))

/-- The contents in order are a sublist of the pieces. -/
theorem Fills.sublist {slots : List (Option α)} {pieces : List β}
    (fills : Fills yield slots pieces) : (slots.reduceOption.map yield).Sublist pieces := by
  induction fills with
  | nil => exact .refl []
  | @cons slot piece slots pieces here rest ih =>
      cases slot with
      | none =>
          rw [List.reduceOption_cons_of_none]
          exact ih.cons piece
      | some a =>
          rw [List.reduceOption_cons_of_some, List.map_cons, here a rfl]
          exact ih.cons_cons piece

/-- **Without an empty slot the contents are the pieces.** -/
theorem Fills.full {slots : List (Option α)} {pieces : List β} (fills : Fills yield slots pieces)
    (full : slots.reduceOption.length = slots.length) : slots.reduceOption.map yield = pieces := by
  apply fills.sublist.eq_of_length
  rw [List.length_map, full]
  exact List.Forall₂.length_eq fills

/-- Filling an empty slot adds to the contents. -/
theorem reduceOption_set_perm {slots : List (Option α)} {i : Nat} (a : α)
    (empty : slots[i]? = some none) :
    (slots.set i (some a)).reduceOption.Perm (a :: slots.reduceOption) := by
  induction slots generalizing i with
  | nil => cases empty
  | cons slot rest ih =>
      cases i with
      | zero =>
          rw [List.getElem?_cons_zero] at empty
          rw [Option.some.inj empty, List.set_cons_zero, List.reduceOption_cons_of_some,
            List.reduceOption_cons_of_none]
      | succ i =>
          rw [List.getElem?_cons_succ] at empty
          rw [List.set_cons_succ]
          cases slot with
          | none => simpa only [List.reduceOption_cons_of_none] using ih empty
          | some b =>
              simp only [List.reduceOption_cons_of_some]
              exact ((ih empty).cons b).trans (.swap a b _)

/-- Filling an empty slot adds one to the contents. -/
theorem length_reduceOption_set {slots : List (Option α)} {i : Nat} (a : α)
    (empty : slots[i]? = some none) :
    (slots.set i (some a)).reduceOption.length = slots.reduceOption.length + 1 :=
  (reduceOption_set_perm a empty).length_eq

end Slots
