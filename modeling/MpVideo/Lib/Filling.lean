import Mathlib.Algebra.BigOperators.Group.List.Basic
import Mathlib.Algebra.Order.BigOperators.Group.List
import Mathlib.Algebra.Order.Group.Int
import Mathlib.Tactic.Linarith

/-!
# Filling vessels in order

Items of given sizes are poured into vessels of given capacities, one after the other. A
vessel takes items as long as it has capacity left, so its last item can run over, and the
last vessel takes all that is left.

`Filled` says what comes out of this: the items are split in order, a vessel is used up
before the next one gets anything, and no vessel takes an item after it is used up. When the
capacities suffice for all items together, the last vessel does not run over either.
-/

set_option autoImplicit false

universe u

namespace Filling

variable {α : Type u} (size : α → ℤ)

/-- The size of several items. -/
def load (items : List α) : ℤ := (items.map size).sum

/-- The items that a vessel takes, and those that are left. -/
def pour : ℤ → List α → List α × List α
  | _, [] => ([], [])
  | capacity, item :: rest =>
      if 0 < capacity then
        let (taken, left) := pour (capacity - size item) rest
        (item :: taken, left)
      else ([], item :: rest)

/-- What each vessel takes. -/
def pourAll : List ℤ → List α → List (List α)
  | [], _ => []
  | [_], items => [items]
  | capacity :: next :: rest, items =>
      let (taken, left) := pour size capacity items
      taken :: pourAll (next :: rest) left

/-- The items are poured into the vessels in order. -/
structure Filled (capacities : List ℤ) (items : List α) (shares : List (List α)) : Prop where
  length : shares.length = capacities.length
  whole : shares.flatten = items
  /-- Before a vessel gets anything, each earlier one is used up. -/
  reached : ∀ (i j : ℕ) (capacity : ℤ) (share later : List α), i < j →
    capacities[i]? = some capacity → shares[i]? = some share → shares[j]? = some later →
    later ≠ [] → capacity ≤ load size share
  /-- Before its last item, a vessel has capacity left, unless it is the last one. -/
  before : ∀ (i : ℕ) (capacity : ℤ) (share : List α) (last : α), i + 1 < capacities.length →
    capacities[i]? = some capacity → shares[i]? = some (share ++ [last]) →
    load size share < capacity

variable {size}

@[simp] theorem load_nil : load size [] = 0 := rfl

@[simp] theorem load_cons (item : α) (items : List α) :
    load size (item :: items) = size item + load size items := by
  rw [load, List.map_cons, List.sum_cons, load]

theorem load_append (first second : List α) :
    load size (first ++ second) = load size first + load size second := by
  rw [load, List.map_append, List.sum_append, load, load]

/-! ## One vessel -/

theorem pour_whole (size : α → ℤ) (capacity : ℤ) (items : List α) :
    (pour size capacity items).1 ++ (pour size capacity items).2 = items := by
  induction items generalizing capacity with
  | nil => rfl
  | cons item rest ih =>
      rw [pour]
      split_ifs
      · exact congrArg (item :: ·) (ih (capacity - size item))
      · rfl

/-- Something is left only when the vessel is used up. -/
theorem pour_reached {capacity : ℤ} {items : List α} (left : (pour size capacity items).2 ≠ []) :
    capacity ≤ load size (pour size capacity items).1 := by
  induction items generalizing capacity with
  | nil => exact absurd rfl left
  | cons item rest ih =>
      rw [pour] at left ⊢
      split_ifs at left ⊢ with room
      · have reached := ih left
        rw [load_cons]
        linarith
      · exact not_lt.mp room

/-- The last item comes while capacity is left. -/
theorem pour_before {capacity : ℤ} {items share : List α} {last : α}
    (taken : (pour size capacity items).1 = share ++ [last]) : load size share < capacity := by
  induction items generalizing capacity share with
  | nil => simp [pour] at taken
  | cons item rest ih =>
      rw [pour] at taken
      split_ifs at taken with room
      · cases share with
        | nil => exact room
        | cons first share =>
            obtain ⟨rfl, more⟩ := List.cons.inj taken
            have before := ih more
            rw [load_cons]
            linarith
      · simp at taken

/-! ## All vessels -/

theorem pourAll_cons (capacity next : ℤ) (rest : List ℤ) (items : List α) :
    pourAll size (capacity :: next :: rest) items =
      (pour size capacity items).1 :: pourAll size (next :: rest) (pour size capacity items).2 :=
  rfl

theorem pourAll_nil (capacities : List ℤ) :
    ∀ share ∈ pourAll size capacities [], share = [] := by
  induction capacities with
  | nil => simp [pourAll]
  | cons capacity rest ih =>
      cases rest with
      | nil => simp [pourAll]
      | cons next rest =>
          intro share member
          rcases List.mem_cons.mp member with rfl | later
          · rfl
          · exact ih share later

/-- **Pouring fills the vessels in order.** -/
theorem pourAll_filled (size : α → ℤ) {capacities : List ℤ} (vessels : capacities ≠ [])
    (items : List α) : Filled size capacities items (pourAll size capacities items) := by
  induction capacities generalizing items with
  | nil => exact absurd rfl vessels
  | cons capacity rest ih =>
      cases rest with
      | nil =>
          refine ⟨rfl, List.append_nil _, ?_, ?_⟩
          · intro i j _ _ later less _ _ there
            have : j < 1 := (List.getElem?_eq_some_iff.mp there).1
            omega
          · intro i _ _ _ less
            simp at less
      | cons next rest =>
          obtain ⟨length, whole, reached, before⟩ :=
            ih (List.cons_ne_nil _ _) (pour size capacity items).2
          refine ⟨?_, ?_, ?_, ?_⟩
          · exact congrArg (· + 1) length
          · rw [pourAll_cons, List.flatten_cons, whole, pour_whole]
          · intro i j cap share later less there mine others gets
            cases j with
            | zero => omega
            | succ j =>
                cases i with
                | zero =>
                    obtain rfl := Option.some.inj there
                    obtain rfl := Option.some.inj mine
                    apply pour_reached
                    intro none
                    change (pourAll size (next :: rest) (pour size capacity items).2)[j]? = _
                      at others
                    rw [none] at others
                    exact gets (pourAll_nil _ later (List.mem_of_getElem? others))
                | succ i =>
                    exact reached i j cap share later (by omega) there mine others gets
          · intro i cap share last less there mine
            cases i with
            | zero =>
                obtain rfl := Option.some.inj there
                exact pour_before (Option.some.inj mine)
            | succ i => exact before i cap share last (Nat.lt_of_succ_lt_succ less) there mine

/-- **The last vessel does not run over when the capacities suffice.** -/
theorem pourAll_last {capacities : List ℤ} {items : List α}
    (nonneg : ∀ capacity ∈ capacities, 0 ≤ capacity)
    (suffice : load size items ≤ capacities.sum) {capacity : ℤ} {share : List α}
    (deepest : capacities.getLast? = some capacity)
    (last : (pourAll size capacities items).getLast? = some share) :
    load size share ≤ capacity := by
  induction capacities generalizing items with
  | nil => cases deepest
  | cons first rest ih =>
      cases rest with
      | nil =>
          obtain rfl := Option.some.inj deepest
          obtain rfl := Option.some.inj last
          simpa using suffice
      | cons next rest =>
          rw [List.getLast?_cons_cons] at deepest
          have tail : (pourAll size (next :: rest) (pour size first items).2).getLast? =
              some share := by
            have length := (pourAll_filled size (List.cons_ne_nil next rest)
              (pour size first items).2).length
            rw [pourAll_cons] at last
            cases shares : pourAll size (next :: rest) (pour size first items).2 with
            | nil => simp [shares] at length
            | cons one more => rwa [shares, List.getLast?_cons_cons] at last
          by_cases left : (pour size first items).2 = []
          · rw [left] at tail
            rw [pourAll_nil _ share (List.mem_of_getLast? tail), load_nil]
            exact nonneg capacity (List.mem_cons_of_mem _ (List.mem_of_getLast? deepest))
          · refine ih (fun cap member => nonneg cap (List.mem_cons_of_mem _ member)) ?_ deepest tail
            have reached := pour_reached left
            have whole := congrArg (load size) (pour_whole size first items)
            rw [load_append] at whole
            rw [List.sum_cons] at suffice
            linarith

end Filling
