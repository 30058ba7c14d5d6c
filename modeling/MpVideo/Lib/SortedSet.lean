import Mathlib.Order.Defs.LinearOrder
import Mathlib.Order.Basic
import Mathlib.Order.Lattice
import Mathlib.Data.List.Basic

/-!
# Ordered sets as strictly increasing lists

An ordered set keeps its elements in a list together with the proof that the
list increases strictly. Iteration in order is then recursion on the list, and
removing elements from the front is removing a prefix of the list.

Each operation is described by what it does to membership.
-/

set_option autoImplicit false

universe u

/-- A finite ordered set. -/
structure SortedSet (α : Type u) [LinearOrder α] where
  /-- The elements in increasing order. -/
  elems : List α
  /-- The order is strict, so no element occurs twice. -/
  sorted : elems.Pairwise (· < ·)

namespace SortedSet

variable {α : Type u} [LinearOrder α]

instance : DecidableEq (SortedSet α) := fun first second =>
  decidable_of_iff (first.elems = second.elems)
    ⟨fun same => by cases first; cases second; simpa using same, fun same => by rw [same]⟩

instance : Membership α (SortedSet α) := ⟨fun set a => a ∈ set.elems⟩

theorem mem_def {a : α} {set : SortedSet α} : a ∈ set ↔ a ∈ set.elems := Iff.rfl

instance {a : α} {set : SortedSet α} : Decidable (a ∈ set) :=
  inferInstanceAs (Decidable (a ∈ set.elems))

/-- The set without elements. -/
def empty : SortedSet α := ⟨[], .nil⟩

@[simp] theorem not_mem_empty (a : α) : a ∉ (empty : SortedSet α) := by
  simp [mem_def, empty]

theorem nodup (set : SortedSet α) : set.elems.Nodup :=
  set.sorted.imp fun less => ne_of_lt less

/-- Two sets with the same elements are equal. -/
theorem ext_mem {first second : SortedSet α} (agree : ∀ a, a ∈ first ↔ a ∈ second) :
    first = second := by
  obtain ⟨elems₁, sorted₁⟩ := first
  obtain ⟨elems₂, sorted₂⟩ := second
  congr
  refine List.Perm.eq_of_pairwise (fun a b _ _ less more => absurd less more.asymm)
    sorted₁ sorted₂ ?_
  exact (List.perm_ext_iff_of_nodup (nodup ⟨elems₁, sorted₁⟩) (nodup ⟨elems₂, sorted₂⟩)).mpr agree

/-! ## Insertion -/

/-- Insertion into an increasing list. An element already present is kept. -/
def insertList (a : α) : List α → List α
  | [] => [a]
  | b :: rest =>
      if a < b then a :: b :: rest
      else if a = b then b :: rest
      else b :: insertList a rest

theorem mem_insertList {a b : α} {list : List α} :
    b ∈ insertList a list ↔ b = a ∨ b ∈ list := by
  induction list with
  | nil => simp [insertList]
  | cons c rest ih =>
      rw [insertList]
      split_ifs with less same
      · simp
      · subst same; simp
      · simp only [List.mem_cons, ih]
        tauto

theorem insertList_sorted {a : α} {list : List α} (sorted : list.Pairwise (· < ·)) :
    (insertList a list).Pairwise (· < ·) := by
  induction list with
  | nil => simp [insertList]
  | cons b rest ih =>
      obtain ⟨below, sortedRest⟩ := List.pairwise_cons.mp sorted
      rw [insertList]
      split_ifs with less same
      · refine List.pairwise_cons.mpr ⟨?_, sorted⟩
        intro c member
        rcases List.mem_cons.mp member with rfl | inRest
        · exact less
        · exact less.trans (below c inRest)
      · exact sorted
      · refine List.pairwise_cons.mpr ⟨?_, ih sortedRest⟩
        intro c member
        rcases mem_insertList.mp member with rfl | inRest
        · exact lt_of_le_of_ne (not_lt.mp less) (Ne.symm same)
        · exact below c inRest

/-- Insertion; a set that has the element is unchanged. -/
def insert (a : α) (set : SortedSet α) : SortedSet α :=
  ⟨insertList a set.elems, insertList_sorted set.sorted⟩

@[simp] theorem mem_insert {a b : α} {set : SortedSet α} :
    b ∈ set.insert a ↔ b = a ∨ b ∈ set :=
  mem_insertList

/-- The elements after the elements of a list are inserted. -/
theorem mem_foldl_insert {list : List α} {set : SortedSet α} {a : α} :
    a ∈ list.foldl (fun set b => set.insert b) set ↔ a ∈ list ∨ a ∈ set := by
  induction list generalizing set with
  | nil => simp
  | cons first rest ih =>
      rw [List.foldl_cons, ih, mem_insert, List.mem_cons]
      tauto

/-! ## Removal -/

/-- Removal of one element. -/
def erase (a : α) (set : SortedSet α) : SortedSet α :=
  ⟨set.elems.erase a, set.sorted.sublist List.erase_sublist⟩

@[simp] theorem mem_erase {a b : α} {set : SortedSet α} :
    b ∈ set.erase a ↔ b ≠ a ∧ b ∈ set :=
  set.nodup.mem_erase_iff

/-- Removal from the front, as long as the first element satisfies `p`. -/
def popWhile (p : α → Bool) (set : SortedSet α) : SortedSet α :=
  ⟨set.elems.dropWhile p, set.sorted.sublist (List.dropWhile_sublist p)⟩

theorem mem_dropWhile_of_sorted {p : α → Bool} (down : ∀ a b, a < b → p b = true → p a = true)
    {list : List α} (sorted : list.Pairwise (· < ·)) {a : α} :
    a ∈ list.dropWhile p ↔ a ∈ list ∧ p a = false := by
  induction list with
  | nil => simp
  | cons b rest ih =>
      obtain ⟨below, sortedRest⟩ := List.pairwise_cons.mp sorted
      cases holds : p b with
      | true =>
          rw [List.dropWhile_cons_of_pos holds, ih sortedRest]
          constructor
          · rintro ⟨member, fails⟩
            exact ⟨List.mem_cons_of_mem b member, fails⟩
          · rintro ⟨member, fails⟩
            rcases List.mem_cons.mp member with rfl | inRest
            · rw [holds] at fails
              cases fails
            · exact ⟨inRest, fails⟩
      | false =>
          rw [List.dropWhile_cons_of_neg (by simp [holds])]
          refine ⟨fun member => ⟨member, ?_⟩, And.left⟩
          rcases List.mem_cons.mp member with rfl | inRest
          · exact holds
          · by_contra fails
            have := down b a (below a inRest) (by simpa using fails)
            rw [holds] at this
            cases this

/-- For a condition that holds on a lower part of the order, removing from the
front removes exactly the elements that satisfy it. -/
theorem mem_popWhile {p : α → Bool} (down : ∀ a b, a < b → p b = true → p a = true)
    {set : SortedSet α} {a : α} : a ∈ set.popWhile p ↔ a ∈ set ∧ p a = false :=
  mem_dropWhile_of_sorted down set.sorted

/-- Removing everything up to a bound keeps exactly the elements above it. -/
@[simp] theorem mem_popWhile_le {bound a : α} {set : SortedSet α} :
    a ∈ set.popWhile (· ≤ bound) ↔ a ∈ set ∧ bound < a := by
  rw [mem_popWhile]
  · simp
  · intro b c less atMost
    simp only [decide_eq_true_eq] at atMost ⊢
    exact (less.trans_le atMost).le

/-! ## The greatest elements -/

/-- The list holds the greatest elements of a set, in increasing order. -/
structure Greatest (set : SortedSet α) (list : List α) : Prop where
  increasing : list.Pairwise (· < ·)
  subset : ∀ a ∈ list, a ∈ set
  upper : ∀ a ∈ set, a ∉ list → ∀ b ∈ list, a < b

/-- **The greatest elements are the last ones of the iteration.** -/
theorem greatest_iff_suffix {set : SortedSet α} {list : List α} :
    set.Greatest list ↔ list <:+ set.elems := by
  constructor
  · rintro ⟨increasing, subset, upper⟩
    have below := set.sorted.filter fun a => a ∉ list
    have joined : (set.elems.filter (· ∉ list) ++ list).Pairwise (· < ·) := by
      refine List.pairwise_append.mpr ⟨below, increasing, ?_⟩
      intro a kept b member
      obtain ⟨inSet, outside⟩ := List.mem_filter.mp kept
      exact upper a inSet (of_decide_eq_true outside) b member
    have same : set = ⟨set.elems.filter (· ∉ list) ++ list, joined⟩ := by
      apply ext_mem
      intro a
      simp only [mem_def, List.mem_append, List.mem_filter, decide_eq_true_eq]
      constructor
      · intro member
        by_cases inList : a ∈ list
        · exact .inr inList
        · exact .inl ⟨member, inList⟩
      · rintro (⟨member, -⟩ | member)
        · exact member
        · exact subset a member
    exact ⟨set.elems.filter (· ∉ list), (congrArg elems same).symm⟩
  · rintro ⟨front, same⟩
    have sorted := set.sorted
    rw [← same] at sorted
    obtain ⟨-, increasing, across⟩ := List.pairwise_append.mp sorted
    refine ⟨increasing, ?_, ?_⟩
    · intro a member
      rw [mem_def, ← same]
      exact List.mem_append_right front member
    · intro a member outside b last
      rw [mem_def, ← same] at member
      exact across a ((List.mem_append.mp member).resolve_right outside) b last

end SortedSet
