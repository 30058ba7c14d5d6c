import Mathlib.Order.Basic
import Mathlib.Order.Lattice
import Mathlib.Data.List.Basic
import Mathlib.Data.Prod.Lex

/-!
# Scans for a least element

A scan goes through a list with the best element so far and its cost. An element takes
the place of the best one if its cost is less, so of equal ones the first is kept, and
a start that no element is less than stays. In a list in the order of a key, the scan ends
with the least element in the order by cost and then by key (`scan_lex_le`).

A scan of costs that may be undefined is defined if all of them are (`scan?_of_defined`), and
only then (`defined_of_scan?`).
-/

set_option autoImplicit false

universe u v w

namespace Least

variable {α : Type u} {β : Type v} [LinearOrder β] (cost : α → β)

/-- One element is looked at. -/
def better (best : α × β) (a : α) : α × β := if cost a < best.2 then (a, cost a) else best

/-- A whole list is looked at. -/
def scan (start : α × β) (list : List α) : α × β := list.foldl (better cost) start

variable {cost}

theorem scan_cons (start : α × β) (a : α) (rest : List α) :
    scan cost start (a :: rest) = scan cost (better cost start a) rest := rfl

theorem better_le_start (start : α × β) (a : α) : (better cost start a).2 ≤ start.2 := by
  rw [better]
  split_ifs with less
  · exact le_of_lt less
  · exact le_refl _

theorem better_le (start : α × β) (a : α) : (better cost start a).2 ≤ cost a := by
  rw [better]
  split_ifs with less
  · exact le_refl _
  · exact not_lt.mp less

theorem scan_le_start (start : α × β) (list : List α) : (scan cost start list).2 ≤ start.2 := by
  induction list generalizing start with
  | nil => exact le_refl _
  | cons a rest ih => exact le_trans (ih _) (better_le_start start a)

/-- Nothing in the list costs less than what the scan ends with. -/
theorem scan_le (cost : α → β) {list : List α} {a : α} (member : a ∈ list) (start : α × β) :
    (scan cost start list).2 ≤ cost a := by
  induction list generalizing start with
  | nil => cases member
  | cons b rest ih =>
      rw [scan_cons]
      rcases List.mem_cons.mp member with rfl | later
      · exact le_trans (scan_le_start _ rest) (better_le start a)
      · exact ih later _

/-- **The scan ends with the start, if nothing costs less, or else with an element that
costs less.** -/
theorem scan_cases (cost : α → β) (start : α × β) (list : List α) :
    (scan cost start list = start ∧ ∀ a ∈ list, start.2 ≤ cost a) ∨
      ∃ a ∈ list, scan cost start list = (a, cost a) ∧ cost a < start.2 := by
  induction list generalizing start with
  | nil => exact .inl ⟨rfl, fun _ member => absurd member List.not_mem_nil⟩
  | cons b rest ih =>
      rw [scan_cons, better]
      split_ifs with less
      · rcases ih (b, cost b) with ⟨same, -⟩ | ⟨a, member, same, below⟩
        · exact .inr ⟨b, List.mem_cons_self, same, less⟩
        · exact .inr ⟨a, List.mem_cons_of_mem b member, same, lt_trans below less⟩
      · rcases ih start with ⟨same, least⟩ | ⟨a, member, same, below⟩
        · refine .inl ⟨same, fun a member => ?_⟩
          rcases List.mem_cons.mp member with rfl | later
          · exact not_lt.mp less
          · exact least a later
        · exact .inr ⟨a, List.mem_cons_of_mem b member, same, below⟩

theorem scan_mem (cost : α → β) (start : α × β) (list : List α) :
    (scan cost start list).1 ∈ start.1 :: list := by
  rcases scan_cases cost start list with ⟨same, -⟩ | ⟨a, member, same, -⟩
  · rw [same]
    exact List.mem_cons_self
  · rw [same]
    exact List.mem_cons_of_mem _ member

/-- **In the order by cost and then by key, the scan ends with the least element.** -/
theorem scan_lex_le {κ : Type w} [LinearOrder κ] (cost : α → β) (key : α → κ) {start : α}
    {list : List α} (sorted : (start :: list).Pairwise fun a b => key a < key b) {a : α}
    (member : a ∈ start :: list) :
    toLex (cost (scan cost (start, cost start) list).1,
      key (scan cost (start, cost start) list).1) ≤ toLex (cost a, key a) := by
  induction list generalizing start a with
  | nil =>
      obtain rfl := List.mem_singleton.mp member
      exact le_rfl
  | cons b rest ih =>
      obtain ⟨ahead, later⟩ := List.pairwise_cons.mp sorted
      rw [scan_cons, better]
      split_ifs with less
      · rcases List.mem_cons.mp member with rfl | behind
        · exact (ih later List.mem_cons_self).trans (Prod.Lex.toLex_le_toLex.mpr (.inl less))
        · exact ih later behind
      · have skipped : (start :: rest).Pairwise fun a b => key a < key b :=
          List.pairwise_cons.mpr ⟨fun c behind => ahead c (List.mem_cons_of_mem b behind),
            (List.pairwise_cons.mp later).2⟩
        rcases List.mem_cons.mp member with rfl | behind
        · exact ih skipped List.mem_cons_self
        rcases List.mem_cons.mp behind with rfl | behind
        · refine (ih skipped List.mem_cons_self).trans (Prod.Lex.toLex_le_toLex.mpr ?_)
          exact (lt_or_eq_of_le (not_lt.mp less)).imp_right fun same =>
            ⟨same, (ahead a List.mem_cons_self).le⟩
        · exact ih skipped (List.mem_cons_of_mem _ behind)

/-! ## Undefined costs -/

/-- A scan of costs that may be undefined. -/
def scan? (cost : α → Option β) (start : α × β) (list : List α) : Option (α × β) :=
  list.foldlM (fun best a => (cost a).map fun c => if c < best.2 then (a, c) else best) start

theorem scan?_of_defined {cost? : α → Option β} {start : α × β} {list : List α}
    (defined : ∀ a ∈ list, cost? a = some (cost a)) :
    scan? cost? start list = some (scan cost start list) := by
  induction list generalizing start with
  | nil => rfl
  | cons a rest ih =>
      rw [scan?, List.foldlM_cons, defined a List.mem_cons_self]
      exact ih fun b later => defined b (List.mem_cons_of_mem a later)

theorem defined_of_scan? {cost? : α → Option β} {start best : α × β} {list : List α}
    (found : scan? cost? start list = some best) : ∀ a ∈ list, ∃ c, cost? a = some c := by
  induction list generalizing start with
  | nil => exact fun a member => absurd member List.not_mem_nil
  | cons b rest ih =>
      rw [scan?, List.foldlM_cons] at found
      obtain ⟨middle, seen, onwards⟩ := Option.bind_eq_some_iff.mp found
      obtain ⟨c, known, -⟩ := Option.map_eq_some_iff.mp seen
      intro a member
      rcases List.mem_cons.mp member with rfl | later
      · exact ⟨c, known⟩
      · exact ih onwards a later

end Least
