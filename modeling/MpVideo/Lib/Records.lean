import Mathlib.Data.List.Basic
import Mathlib.Order.Basic
import Mathlib.Order.MinMax

/-!
# Records of a list

A record is an element above everything before it, and above a bound. The records of a list
are strictly increasing and end with the greatest element, so that going on with one element
more needs nothing else (`records_concat`). A strictly increasing list consists of records
(`records_eq_self`).
-/

set_option autoImplicit false

universe u

namespace Records

variable {α : Type u} [LinearOrder α]

/-- The elements above the bound and above all that come before them. -/
def records (bound : α) : List α → List α
  | [] => []
  | a :: rest => if bound < a then a :: records a rest else records bound rest

/-- The greatest of a bound and the elements of a list. -/
def greatest (bound : α) (list : List α) : α := list.foldl max bound

theorem greatest_concat (bound : α) (list : List α) (a : α) :
    greatest bound (list ++ [a]) = max (greatest bound list) a := by
  rw [greatest, List.foldl_append]
  rfl

/-- **One element more is a record if it is above the greatest one.** -/
theorem records_concat (bound : α) (list : List α) (a : α) :
    records bound (list ++ [a]) =
      records bound list ++ if greatest bound list < a then [a] else [] := by
  induction list generalizing bound with
  | nil =>
      change records bound [a] = if bound < a then [a] else []
      rw [records]
      split_ifs <;> rfl
  | cons b rest ih =>
      rw [List.cons_append, records, records]
      by_cases above : bound < b
      · have same : greatest bound (b :: rest) = greatest b rest :=
          congrArg (List.foldl max · rest) (max_eq_right (le_of_lt above))
        rw [if_pos above, if_pos above, ih, same]
        rfl
      · have same : greatest bound (b :: rest) = greatest bound rest :=
          congrArg (List.foldl max · rest) (max_eq_left (not_lt.mp above))
        rw [if_neg above, if_neg above, ih, same]

/-- A strictly increasing list above the bound consists of records. -/
theorem records_eq_self {bound : α} {list : List α} (above : ∀ a ∈ list, bound < a)
    (increasing : list.Pairwise (· < ·)) : records bound list = list := by
  induction list generalizing bound with
  | nil => rfl
  | cons a rest ih =>
      obtain ⟨first, later⟩ := List.pairwise_cons.mp increasing
      rw [records, if_pos (above a List.mem_cons_self), ih first later]

/-- The greatest one is the bound or an element. -/
theorem greatest_mem (bound : α) (list : List α) :
    greatest bound list = bound ∨ greatest bound list ∈ list := by
  induction list generalizing bound with
  | nil => exact .inl rfl
  | cons a rest ih =>
      change greatest (max bound a) rest = bound ∨ greatest (max bound a) rest ∈ a :: rest
      rcases ih (max bound a) with same | later
      · rw [same]
        rcases max_choice bound a with left | right
        · exact .inl left
        · rw [right]
          exact .inr List.mem_cons_self
      · exact .inr (List.mem_cons_of_mem _ later)

end Records
