import Mathlib.Data.List.Sort

/-!
# Sorting by a key

A sorting procedure that says nothing about elements with equal keys, as the sorting
procedures of most standard libraries are specified. What holds for all of them holds
for the one that a compiler comes with.
-/

set_option autoImplicit false

universe u v

/-- Any procedure that puts lists in the order of a key. -/
structure SortBy {α : Type u} {κ : Type v} [LE κ] (key : α → κ) where
  sort : List α → List α
  perm : ∀ list, (sort list).Perm list
  sorted : ∀ list, (sort list).Pairwise fun first second => key first ≤ key second

namespace SortBy

variable {α : Type u} {κ : Type v} [LinearOrder κ] {key : α → κ}

/-- Sorting by insertion is one of them. -/
def insertion (key : α → κ) : SortBy key where
  sort := List.insertionSort fun first second => key first ≤ key second
  perm := List.perm_insertionSort _
  sorted := List.pairwise_insertionSort _

theorem length_sort (sorter : SortBy key) (list : List α) : (sorter.sort list).length = list.length :=
  (sorter.perm list).length_eq

end SortBy
