import Mathlib.Order.Defs.LinearOrder
import Mathlib.Order.Basic
import Mathlib.Order.Lattice
import Mathlib.Data.List.Nodup
import Mathlib.Algebra.BigOperators.Group.List.Basic
import Mathlib.Algebra.Order.BigOperators.Group.List
import Mathlib.Tactic.Abel

/-!
# Ordered maps as lists with strictly increasing keys

An ordered map keeps its entries in a list together with the proof that the
keys increase strictly. There are two ways to add an entry: `insert` keeps the
value of a key that is already present, and `set` replaces it.

An entry is in the list exactly when looking its key up returns its value
(`find?_eq_some_iff`), so statements about iteration and statements about
lookup translate into each other.

A quantity that every value contributes to is added up over the map (`total`). It changes
with a lookup by one summand (`total_erase`, `total_set`).
-/

set_option autoImplicit false

universe u v

/-- A finite ordered map. -/
structure SortedMap (κ : Type u) (β : Type v) [LinearOrder κ] where
  /-- The entries in increasing order of their keys. -/
  entries : List (κ × β)
  /-- The order is strict, so no key occurs twice. -/
  sorted : entries.Pairwise fun first second => first.1 < second.1

namespace SortedMap

variable {κ : Type u} {β : Type v} [LinearOrder κ]

/-- The map without entries. -/
def empty : SortedMap κ β := ⟨[], .nil⟩

/-- The keys in increasing order. -/
def keys (map : SortedMap κ β) : List κ := map.entries.map Prod.fst

/-- The number of entries. -/
def size (map : SortedMap κ β) : Nat := map.entries.length

theorem keys_sorted (map : SortedMap κ β) : map.keys.Pairwise (· < ·) :=
  List.pairwise_map.mpr map.sorted

theorem keys_nodup (map : SortedMap κ β) : map.keys.Nodup :=
  map.keys_sorted.imp fun less => ne_of_lt less

@[simp] theorem length_keys (map : SortedMap κ β) : map.keys.length = map.size := by
  simp only [keys, size, List.length_map]

/-- The value of a key. -/
def find? (map : SortedMap κ β) (k : κ) : Option β :=
  (map.entries.find? fun entry => entry.1 = k).map Prod.snd

@[simp] theorem find?_empty (k : κ) : (empty : SortedMap κ β).find? k = none := rfl

theorem mem_of_find? {map : SortedMap κ β} {k : κ} {value : β}
    (found : map.find? k = some value) : (k, value) ∈ map.entries := by
  obtain ⟨⟨k', value'⟩, hit, rfl⟩ := Option.map_eq_some_iff.mp found
  have key : k' = k := by simpa using List.find?_some hit
  exact key ▸ List.mem_of_find?_eq_some hit

/-- Two entries with one key are the same entry. -/
theorem entry_unique {map : SortedMap κ β} {k : κ} {first second : β}
    (one : (k, first) ∈ map.entries) (two : (k, second) ∈ map.entries) : first = second := by
  have same := List.inj_on_of_nodup_map map.keys_nodup one two rfl
  exact congrArg Prod.snd same

/-- **Looking a key up returns the value of its entry.** -/
theorem find?_eq_some_iff {map : SortedMap κ β} {k : κ} {value : β} :
    map.find? k = some value ↔ (k, value) ∈ map.entries := by
  refine ⟨mem_of_find?, ?_⟩
  intro member
  cases found : map.find? k with
  | some other => rw [entry_unique (mem_of_find? found) member]
  | none =>
      have absent := Option.map_eq_none_iff.mp found
      have := List.find?_eq_none.mp absent _ member
      simp at this

theorem find?_eq_none_iff {map : SortedMap κ β} {k : κ} :
    map.find? k = none ↔ ∀ value, (k, value) ∉ map.entries := by
  rw [Option.eq_none_iff_forall_ne_some]
  exact forall_congr' fun value => not_congr find?_eq_some_iff

/-- Two maps that agree on every key are equal. -/
theorem ext_find? {first second : SortedMap κ β}
    (agree : ∀ k, first.find? k = second.find? k) : first = second := by
  obtain ⟨entries₁, sorted₁⟩ := first
  obtain ⟨entries₂, sorted₂⟩ := second
  congr
  refine List.Perm.eq_of_pairwise (fun a b _ _ less more => absurd less more.asymm)
    sorted₁ sorted₂ ?_
  refine (List.perm_ext_iff_of_nodup ?_ ?_).mpr ?_
  · exact sorted₁.imp fun less same => (ne_of_lt less) (congrArg Prod.fst same)
  · exact sorted₂.imp fun less same => (ne_of_lt less) (congrArg Prod.fst same)
  · rintro ⟨k, value⟩
    have one : find? ⟨entries₁, sorted₁⟩ k = some value ↔ (k, value) ∈ entries₁ :=
      find?_eq_some_iff
    rw [← one, agree, find?_eq_some_iff]

theorem mem_keys_iff {map : SortedMap κ β} {k : κ} :
    k ∈ map.keys ↔ ∃ value, map.find? k = some value := by
  simp only [keys, List.mem_map, Prod.exists, exists_and_right, exists_eq_right,
    find?_eq_some_iff]

/-- The first key is the least one. -/
theorem front_le {map : SortedMap κ β} {k : κ} {value : β} {rest : List (κ × β)}
    (front : map.entries = (k, value) :: rest) {k' : κ} (member : k' ∈ map.keys) : k ≤ k' := by
  have sorted := map.keys_sorted
  rw [keys, front, List.map_cons] at member sorted
  rcases List.mem_cons.mp member with rfl | later
  · exact le_rfl
  · exact ((List.pairwise_cons.mp sorted).1 k' later).le

/-- The entry of the least key is in front. -/
theorem front_of_le {map : SortedMap κ β} {k : κ} {value : β} (found : map.find? k = some value)
    (least : ∀ k' ∈ map.keys, k ≤ k') : map.entries.head? = some (k, value) := by
  have member := find?_eq_some_iff.mp found
  cases front : map.entries with
  | nil => simp [front] at member
  | cons entry rest =>
      have key : entry.1 = k := by
        refine le_antisymm (front_le front (mem_keys_iff.mpr ⟨value, found⟩)) (least entry.1 ?_)
        exact List.mem_map.mpr ⟨entry, front ▸ List.mem_cons_self, rfl⟩
      have same : entry.2 = value := by
        refine entry_unique ?_ member
        rw [← key]
        exact front ▸ List.mem_cons_self
      rw [List.head?_cons, ← key, ← same]

/-- Maps with the same keys list them alike. -/
theorem keys_eq_iff {γ : Type v} {first : SortedMap κ β} {second : SortedMap κ γ} :
    first.keys = second.keys ↔ ∀ k, k ∈ first.keys ↔ k ∈ second.keys := by
  refine ⟨fun same k => by rw [same], fun agree => ?_⟩
  refine List.Perm.eq_of_pairwise (fun a b _ _ less more => absurd less more.asymm)
    first.keys_sorted second.keys_sorted ?_
  exact (List.perm_ext_iff_of_nodup first.keys_nodup second.keys_nodup).mpr agree

theorem entries_eq_nil_iff {map : SortedMap κ β} : map.entries = [] ↔ map = empty := by
  obtain ⟨entries, sorted⟩ := map
  exact ⟨fun none => by subst none; rfl, fun same => congrArg SortedMap.entries same⟩

theorem eq_empty_of_keys {map : SortedMap κ β} (none : ∀ k, k ∉ map.keys) : map = empty := by
  rw [← entries_eq_nil_iff, ← List.map_eq_nil_iff (f := Prod.fst)]
  exact List.eq_nil_iff_forall_not_mem.mpr none

/-! ## Adding an entry -/

/-- Putting an entry into a list with increasing keys; the value of a key that
is present is replaced. -/
def setList (k : κ) (value : β) : List (κ × β) → List (κ × β)
  | [] => [(k, value)]
  | entry :: rest =>
      if k < entry.1 then (k, value) :: entry :: rest
      else if k = entry.1 then (k, value) :: rest
      else entry :: setList k value rest

theorem mem_setList_of {k : κ} {value : β} {list : List (κ × β)} {entry : κ × β}
    (member : entry ∈ setList k value list) : entry = (k, value) ∨ entry ∈ list := by
  induction list with
  | nil => simpa [setList] using member
  | cons head rest ih =>
      rw [setList] at member
      split_ifs at member with less same
      · simpa using member
      · rcases List.mem_cons.mp member with rfl | inRest
        · exact .inl rfl
        · exact .inr (List.mem_cons_of_mem _ inRest)
      · rcases List.mem_cons.mp member with rfl | inRest
        · exact .inr List.mem_cons_self
        · exact (ih inRest).imp_right (List.mem_cons_of_mem _)

theorem setList_sorted {k : κ} {value : β} {list : List (κ × β)}
    (sorted : list.Pairwise fun first second => first.1 < second.1) :
    (setList k value list).Pairwise fun first second => first.1 < second.1 := by
  induction list with
  | nil => simp [setList]
  | cons head rest ih =>
      obtain ⟨below, sortedRest⟩ := List.pairwise_cons.mp sorted
      rw [setList]
      split_ifs with less same
      · refine List.pairwise_cons.mpr ⟨?_, sorted⟩
        intro entry member
        rcases List.mem_cons.mp member with rfl | inRest
        · exact less
        · exact less.trans (below entry inRest)
      · refine List.pairwise_cons.mpr ⟨?_, sortedRest⟩
        intro entry member
        exact same ▸ below entry member
      · refine List.pairwise_cons.mpr ⟨?_, ih sortedRest⟩
        intro entry member
        rcases mem_setList_of member with rfl | inRest
        · exact lt_of_le_of_ne (not_lt.mp less) (Ne.symm same)
        · exact below entry inRest

/-- Adding an entry, or replacing the value of a key that is present. -/
def set (k : κ) (value : β) (map : SortedMap κ β) : SortedMap κ β :=
  ⟨setList k value map.entries, setList_sorted map.sorted⟩

theorem find?_setList_self (k : κ) (value : β) (list : List (κ × β)) :
    (setList k value list).find? (fun entry => entry.1 = k) = some (k, value) := by
  induction list with
  | nil => simp [setList]
  | cons head rest ih =>
      rw [setList]
      split_ifs with less same
      · simp
      · simp
      · rw [List.find?_cons_of_neg (by simpa using Ne.symm same), ih]

theorem find?_setList_of_ne {k k' : κ} (differ : k' ≠ k) (value : β) (list : List (κ × β)) :
    (setList k value list).find? (fun entry => entry.1 = k') =
      list.find? fun entry => entry.1 = k' := by
  induction list with
  | nil => simp [setList, Ne.symm differ]
  | cons head rest ih =>
      rw [setList]
      split_ifs with less same
      · simp [Ne.symm differ]
      · rw [List.find?_cons_of_neg (by simpa using Ne.symm differ),
          List.find?_cons_of_neg (by simpa [← same] using Ne.symm differ)]
      · by_cases hit : head.1 = k'
        · rw [List.find?_cons_of_pos (by simpa using hit),
            List.find?_cons_of_pos (by simpa using hit)]
        · rw [List.find?_cons_of_neg (by simpa using hit),
            List.find?_cons_of_neg (by simpa using hit), ih]

theorem find?_set (map : SortedMap κ β) (k k' : κ) (value : β) :
    (map.set k value).find? k' = if k' = k then some value else map.find? k' := by
  split_ifs with same
  · subst same
    simp only [find?, set, find?_setList_self, Option.map_some]
  · simp only [find?, set, find?_setList_of_ne same]

@[simp] theorem find?_set_self (map : SortedMap κ β) (k : κ) (value : β) :
    (map.set k value).find? k = some value := by
  rw [find?_set, if_pos rfl]

theorem find?_set_of_ne (map : SortedMap κ β) {k k' : κ} (differ : k' ≠ k) (value : β) :
    (map.set k value).find? k' = map.find? k' := by
  rw [find?_set, if_neg differ]

theorem mem_keys_set {map : SortedMap κ β} {k k' : κ} {value : β} :
    k' ∈ (map.set k value).keys ↔ k' = k ∨ k' ∈ map.keys := by
  rw [mem_keys_iff, mem_keys_iff, find?_set]
  split_ifs with same
  · exact iff_of_true ⟨value, rfl⟩ (.inl same)
  · exact (or_iff_right same).symm

/-- Replacing a value keeps the keys. -/
theorem mem_keys_replace {map : SortedMap κ β} {k k' : κ} (value : β) (present : k ∈ map.keys) :
    k' ∈ (map.set k value).keys ↔ k' ∈ map.keys := by
  rw [mem_keys_set]
  exact or_iff_right_of_imp fun same => same ▸ present

/-- Setting the value that is there changes nothing. -/
theorem set_of_find?_some {map : SortedMap κ β} {k : κ} {value : β}
    (found : map.find? k = some value) : map.set k value = map := by
  apply ext_find?
  intro k'
  rw [find?_set]
  split_ifs with same
  · rw [same, found]
  · rfl

/-- Adding an entry; a key that is present keeps its value. -/
def insert (k : κ) (value : β) (map : SortedMap κ β) : SortedMap κ β :=
  match map.find? k with
  | none => map.set k value
  | some _ => map

theorem insert_of_find?_none {map : SortedMap κ β} {k : κ} (absent : map.find? k = none)
    (value : β) : map.insert k value = map.set k value := by
  rw [insert, absent]

theorem insert_of_find?_some {map : SortedMap κ β} {k : κ} {old : β}
    (present : map.find? k = some old) (value : β) : map.insert k value = map := by
  rw [insert, present]

theorem find?_insert (map : SortedMap κ β) (k k' : κ) (value : β) :
    (map.insert k value).find? k' =
      if k' = k then some ((map.find? k).getD value) else map.find? k' := by
  cases found : map.find? k with
  | none => rw [insert_of_find?_none found, find?_set, Option.getD_none]
  | some old =>
      rw [insert_of_find?_some found, Option.getD_some]
      split_ifs with same
      · rw [same, found]
      · rfl

theorem mem_insert_of {map : SortedMap κ β} {k : κ} {value : β} {entry : κ × β}
    (member : entry ∈ (map.insert k value).entries) :
    entry = (k, value) ∨ entry ∈ map.entries := by
  cases found : map.find? k with
  | none =>
      rw [insert_of_find?_none found] at member
      exact mem_setList_of member
  | some old =>
      rw [insert_of_find?_some found] at member
      exact .inr member

theorem mem_keys_insert {map : SortedMap κ β} {k k' : κ} {value : β} :
    k' ∈ (map.insert k value).keys ↔ k' = k ∨ k' ∈ map.keys := by
  rw [mem_keys_iff, mem_keys_iff, find?_insert]
  split_ifs with same
  · exact iff_of_true ⟨_, rfl⟩ (.inl same)
  · exact (or_iff_right same).symm

/-! ## Adding the entries of another map -/

/-- The entries of a second map are added; a key that is present keeps its value. -/
def merge (map other : SortedMap κ β) : SortedMap κ β :=
  other.entries.foldl (fun map entry => map.insert entry.1 entry.2) map

/-- The entries of a second map whose keys are new. -/
def newTo (map other : SortedMap κ β) : SortedMap κ β :=
  ⟨other.entries.filter fun entry => (map.find? entry.1).isNone,
    other.sorted.sublist List.filter_sublist⟩

theorem mem_newTo {map other : SortedMap κ β} {entry : κ × β} :
    entry ∈ (map.newTo other).entries ↔ entry ∈ other.entries ∧ map.find? entry.1 = none := by
  simp [newTo]

theorem newTo_eq_empty_iff {map other : SortedMap κ β} :
    map.newTo other = empty ↔ ∀ k ∈ other.keys, k ∈ map.keys := by
  rw [← entries_eq_nil_iff, newTo, List.filter_eq_nil_iff]
  constructor
  · intro present k member
    obtain ⟨entry, isEntry, rfl⟩ := List.mem_map.mp member
    have found : map.find? entry.1 ≠ none := by simpa using present entry isEntry
    exact mem_keys_iff.mpr (Option.ne_none_iff_exists'.mp found)
  · intro present entry member
    obtain ⟨value, found⟩ := mem_keys_iff.mp (present entry.1 (List.mem_map_of_mem member))
    simp [found]

theorem find?_merge (map other : SortedMap κ β) (k : κ) :
    (map.merge other).find? k = (map.find? k).or (other.find? k) := by
  obtain ⟨entries, sorted⟩ := other
  rw [merge]
  induction entries generalizing map with
  | nil => exact Option.or_none.symm
  | cons first rest ih =>
      obtain ⟨below, sortedRest⟩ := List.pairwise_cons.mp sorted
      rw [List.foldl_cons, ih _ sortedRest, find?_insert]
      by_cases same : k = first.1
      · subst same
        have head : find? ⟨first :: rest, sorted⟩ first.1 = some first.2 :=
          find?_eq_some_iff.mpr List.mem_cons_self
        rw [if_pos rfl, head]
        cases map.find? first.1 <;> rfl
      · have others : find? ⟨first :: rest, sorted⟩ k = find? ⟨rest, sortedRest⟩ k := by
          rw [find?, find?, List.find?_cons_of_neg (by simpa using Ne.symm same)]
        rw [if_neg same, others]

theorem mem_keys_merge {map other : SortedMap κ β} {k : κ} :
    k ∈ (map.merge other).keys ↔ k ∈ map.keys ∨ k ∈ other.keys := by
  rw [mem_keys_iff, mem_keys_iff, mem_keys_iff, find?_merge]
  cases map.find? k with
  | none => simp
  | some value => simp

theorem merge_empty_left (other : SortedMap κ β) : empty.merge other = other :=
  ext_find? fun k => by rw [find?_merge, find?_empty, Option.none_or]

/-! ## Removing an entry -/

/-- Removal of a key. -/
def erase (k : κ) (map : SortedMap κ β) : SortedMap κ β :=
  ⟨map.entries.filter fun entry => entry.1 ≠ k, map.sorted.sublist List.filter_sublist⟩

theorem mem_erase {map : SortedMap κ β} {k : κ} {entry : κ × β} :
    entry ∈ (map.erase k).entries ↔ entry ∈ map.entries ∧ entry.1 ≠ k := by
  simp [erase]

theorem find?_erase (map : SortedMap κ β) (k k' : κ) :
    (map.erase k).find? k' = if k' = k then none else map.find? k' := by
  split_ifs with same
  · subst same
    exact find?_eq_none_iff.mpr fun value member => (mem_erase.mp member).2 rfl
  · ext value
    rw [find?_eq_some_iff, mem_erase, find?_eq_some_iff]
    exact and_iff_left same

theorem mem_keys_erase {map : SortedMap κ β} {k k' : κ} :
    k' ∈ (map.erase k).keys ↔ k' ∈ map.keys ∧ k' ≠ k := by
  simp only [keys, List.mem_map, mem_erase]
  constructor
  · rintro ⟨entry, ⟨member, differ⟩, rfl⟩
    exact ⟨⟨entry, member, rfl⟩, differ⟩
  · rintro ⟨⟨entry, member, rfl⟩, differ⟩
    exact ⟨entry, ⟨member, differ⟩, rfl⟩

/-- An entry that is inserted and removed again leaves no trace. -/
theorem erase_insert {map : SortedMap κ β} {k : κ} (absent : map.find? k = none) (value : β) :
    (map.insert k value).erase k = map := by
  apply ext_find?
  intro k'
  rw [find?_erase, find?_insert]
  split_ifs with same
  · rw [same, absent]
  · rfl

/-- Removal of the first entry. -/
def tail (map : SortedMap κ β) : SortedMap κ β :=
  ⟨map.entries.tail, map.sorted.tail⟩

/-- Removal from the front, as long as the first key is at most the bound. -/
def popLe (bound : κ) (map : SortedMap κ β) : SortedMap κ β :=
  ⟨map.entries.dropWhile fun entry => entry.1 ≤ bound,
    map.sorted.sublist (List.dropWhile_sublist _)⟩

theorem mem_popLe {bound : κ} {map : SortedMap κ β} {entry : κ × β} :
    entry ∈ (map.popLe bound).entries ↔ entry ∈ map.entries ∧ bound < entry.1 := by
  obtain ⟨entries, sorted⟩ := map
  change entry ∈ entries.dropWhile _ ↔ entry ∈ entries ∧ _
  induction entries with
  | nil => simp
  | cons first rest ih =>
      obtain ⟨below, sortedRest⟩ := List.pairwise_cons.mp sorted
      by_cases low : first.1 ≤ bound
      · have dropped : (first :: rest).dropWhile (fun entry => entry.1 ≤ bound) =
            rest.dropWhile fun entry => entry.1 ≤ bound :=
          List.dropWhile_cons_of_pos (decide_eq_true low)
        rw [dropped, ih sortedRest, List.mem_cons]
        constructor
        · rintro ⟨member, above⟩
          exact ⟨.inr member, above⟩
        · rintro ⟨rfl | member, above⟩
          · exact absurd low (not_le.mpr above)
          · exact ⟨member, above⟩
      · have kept : (first :: rest).dropWhile (fun entry => entry.1 ≤ bound) = first :: rest :=
          List.dropWhile_cons_of_neg (by simpa using low)
        rw [kept]
        refine ⟨fun member => ⟨member, ?_⟩, And.left⟩
        rcases List.mem_cons.mp member with rfl | inRest
        · exact not_le.mp low
        · exact lt_trans (not_le.mp low) (below entry inRest)

/-- Everything above the bound stays. -/
theorem find?_popLe (bound : κ) (map : SortedMap κ β) (k : κ) :
    (map.popLe bound).find? k = if bound < k then map.find? k else none := by
  apply Option.ext
  intro value
  rw [find?_eq_some_iff, mem_popLe]
  split_ifs with above
  · rw [and_iff_left above, find?_eq_some_iff]
  · simp [above]

theorem mem_keys_popLe {bound : κ} {map : SortedMap κ β} {k : κ} :
    k ∈ (map.popLe bound).keys ↔ k ∈ map.keys ∧ bound < k := by
  simp only [keys, List.mem_map, mem_popLe]
  constructor
  · rintro ⟨entry, ⟨member, above⟩, rfl⟩
    exact ⟨⟨entry, member, rfl⟩, above⟩
  · rintro ⟨⟨entry, member, rfl⟩, above⟩
    exact ⟨entry, ⟨member, above⟩, rfl⟩

/-- Removal from the front, as long as the first value has the property. -/
def dropWhile (p : β → Bool) (map : SortedMap κ β) : SortedMap κ β :=
  ⟨map.entries.dropWhile fun entry => p entry.2, map.sorted.sublist (List.dropWhile_sublist _)⟩

/-- An entry stays if an entry that is not behind it lacks the property. -/
theorem mem_dropWhile {p : β → Bool} {map : SortedMap κ β} {entry : κ × β} :
    entry ∈ (map.dropWhile p).entries ↔ entry ∈ map.entries ∧
      ∃ earlier ∈ map.entries, earlier.1 ≤ entry.1 ∧ p earlier.2 = false := by
  obtain ⟨entries, sorted⟩ := map
  change entry ∈ entries.dropWhile _ ↔ entry ∈ entries ∧ ∃ earlier ∈ entries, _
  induction entries with
  | nil => simp
  | cons first rest ih =>
      obtain ⟨below, sortedRest⟩ := List.pairwise_cons.mp sorted
      cases has : p first.2 with
      | true =>
          have dropped : (first :: rest).dropWhile (fun entry => p entry.2) =
              rest.dropWhile fun entry => p entry.2 :=
            List.dropWhile_cons_of_pos has
          rw [dropped, ih sortedRest]
          constructor
          · rintro ⟨member, earlier, there, le, lacks⟩
            exact ⟨.tail _ member, earlier, .tail _ there, le, lacks⟩
          · rintro ⟨member, earlier, there, le, lacks⟩
            have later : earlier ∈ rest := by
              rcases List.mem_cons.mp there with rfl | inRest
              · exact absurd (has.symm.trans lacks) (by decide)
              · exact inRest
            refine ⟨?_, earlier, later, le, lacks⟩
            rcases List.mem_cons.mp member with rfl | inRest
            · exact absurd (below earlier later) (not_lt.mpr le)
            · exact inRest
      | false =>
          have kept : (first :: rest).dropWhile (fun entry => p entry.2) = first :: rest :=
            List.dropWhile_cons_of_neg (by simp [has])
          rw [kept]
          refine ⟨fun member => ⟨member, first, List.mem_cons_self, ?_, has⟩, And.left⟩
          rcases List.mem_cons.mp member with rfl | inRest
          · exact le_rfl
          · exact (below entry inRest).le

/-- **When the property goes on to the front**, exactly the entries without it stay. -/
theorem mem_dropWhile_of_ordered {p : β → Bool} {map : SortedMap κ β}
    (ordered : ∀ earlier ∈ map.entries, ∀ later ∈ map.entries, earlier.1 ≤ later.1 →
      p later.2 = true → p earlier.2 = true) {entry : κ × β} :
    entry ∈ (map.dropWhile p).entries ↔ entry ∈ map.entries ∧ p entry.2 = false := by
  rw [mem_dropWhile]
  constructor
  · rintro ⟨member, earlier, there, le, lacks⟩
    refine ⟨member, Bool.eq_false_iff.mpr fun has => ?_⟩
    exact Bool.eq_false_iff.mp lacks (ordered earlier there entry member le has)
  · rintro ⟨member, lacks⟩
    exact ⟨member, entry, member, le_rfl, lacks⟩

/-! ## Changing the values -/

variable {γ : Type v}

/-- The map with a function applied to every value. -/
def mapVal (f : β → γ) (map : SortedMap κ β) : SortedMap κ γ :=
  ⟨map.entries.map fun entry => (entry.1, f entry.2), List.pairwise_map.mpr map.sorted⟩

@[simp] theorem keys_mapVal (f : β → γ) (map : SortedMap κ β) : (map.mapVal f).keys = map.keys := by
  rw [keys, keys, mapVal, List.map_map]
  rfl

theorem find?_mapVal (f : β → γ) (map : SortedMap κ β) (k : κ) :
    (map.mapVal f).find? k = (map.find? k).map f := by
  simp only [find?, mapVal, List.find?_map, Option.map_map]
  rfl

/-- The map with a function applied to every value, without the entries for which the
function has no result. -/
def filterMapVal (f : β → Option γ) (map : SortedMap κ β) : SortedMap κ γ where
  entries := map.entries.filterMap fun entry => (f entry.2).map fun value => (entry.1, value)
  sorted := by
    refine List.pairwise_filterMap.mpr (map.sorted.imp ?_)
    intro first second less entry isFirst other isSecond
    obtain ⟨value, -, rfl⟩ := Option.map_eq_some_iff.mp isFirst
    obtain ⟨value', -, rfl⟩ := Option.map_eq_some_iff.mp isSecond
    exact less

theorem mem_filterMapVal {f : β → Option γ} {map : SortedMap κ β} {entry : κ × γ} :
    entry ∈ (map.filterMapVal f).entries ↔
      ∃ value, (entry.1, value) ∈ map.entries ∧ f value = some entry.2 := by
  simp only [filterMapVal, List.mem_filterMap, Option.map_eq_some_iff]
  constructor
  · rintro ⟨old, member, value, defined, rfl⟩
    exact ⟨old.2, member, defined⟩
  · rintro ⟨value, member, defined⟩
    exact ⟨(entry.1, value), member, entry.2, defined, rfl⟩

theorem setList_map (f : β → γ) (k : κ) (value : β) (list : List (κ × β)) :
    setList k (f value) (list.map fun entry => (entry.1, f entry.2)) =
      (setList k value list).map fun entry => (entry.1, f entry.2) := by
  induction list with
  | nil => rfl
  | cons head rest ih =>
      simp only [List.map_cons, setList, ih]
      split_ifs <;> rfl

theorem mapVal_set (f : β → γ) (map : SortedMap κ β) (k : κ) (value : β) :
    (map.set k value).mapVal f = (map.mapVal f).set k (f value) := by
  simp only [mapVal, set, setList_map]

/-! ## Totals -/

variable {M : Type*} [AddCommMonoid M]

/-- What the values contribute together. -/
def total (f : β → M) (map : SortedMap κ β) : M := (map.entries.map fun entry => f entry.2).sum

@[simp] theorem total_empty (f : β → M) : (empty : SortedMap κ β).total f = 0 := rfl

theorem entries_nodup (map : SortedMap κ β) : map.entries.Nodup :=
  map.sorted.imp fun less same => ne_of_lt less (congrArg Prod.fst same)

/-- The entry of a key and the entries of the others. -/
theorem entries_perm_erase {map : SortedMap κ β} {k : κ} {value : β}
    (found : map.find? k = some value) :
    map.entries.Perm ((k, value) :: (map.erase k).entries) := by
  refine (List.perm_ext_iff_of_nodup map.entries_nodup ?_).mpr ?_
  · refine List.nodup_cons.mpr ⟨fun member => ?_, entries_nodup _⟩
    exact (mem_erase.mp member).2 rfl
  · rintro ⟨k', value'⟩
    rw [List.mem_cons, mem_erase, ← find?_eq_some_iff]
    by_cases same : k' = k
    · subst same
      rw [found]
      simp [eq_comm]
    · simp [same]

/-- The value of a key contributes next to the others. -/
theorem total_erase (f : β → M) {map : SortedMap κ β} {k : κ} {value : β}
    (found : map.find? k = some value) : map.total f = f value + (map.erase k).total f := by
  rw [total, ((entries_perm_erase found).map _).sum_eq]
  exact List.sum_cons

/-- The entry that is set and the entries of the others. -/
theorem entries_perm_set (map : SortedMap κ β) (k : κ) (value : β) :
    (map.set k value).entries.Perm ((k, value) :: (map.erase k).entries) := by
  have others : (map.set k value).erase k = map.erase k := by
    apply ext_find?
    intro k'
    rw [find?_erase, find?_erase]
    split_ifs with same
    · rfl
    · exact find?_set_of_ne map same value
  exact others ▸ entries_perm_erase (find?_set_self map k value)

/-- A value that is set contributes instead of the old one. -/
theorem total_set (f : β → M) (map : SortedMap κ β) (k : κ) (value : β) :
    (map.set k value).total f = f value + (map.erase k).total f := by
  rw [total, ((entries_perm_set map k value).map _).sum_eq]
  exact List.sum_cons

theorem erase_of_find?_none {map : SortedMap κ β} {k : κ} (absent : map.find? k = none) :
    map.erase k = map := by
  apply ext_find?
  intro k'
  rw [find?_erase]
  split_ifs with same
  · rw [same, absent]
  · rfl

/-- A new key contributes in addition. -/
theorem total_insert (f : β → M) {map : SortedMap κ β} {k : κ} (absent : map.find? k = none)
    (value : β) : (map.insert k value).total f = f value + map.total f := by
  rw [insert_of_find?_none absent, total_set, erase_of_find?_none absent]

theorem total_mapVal (f : γ → M) (g : β → γ) (map : SortedMap κ β) :
    (map.mapVal g).total f = map.total fun value => f (g value) := by
  rw [total, mapVal, List.map_map]
  rfl

theorem total_add (f g : β → M) (map : SortedMap κ β) :
    (map.total fun value => f value + g value) = map.total f + map.total g :=
  List.sum_map_add

theorem entries_merge_perm (map other : SortedMap κ β) :
    (map.merge other).entries.Perm (map.entries ++ (map.newTo other).entries) := by
  refine (List.perm_ext_iff_of_nodup (entries_nodup _) ?_).mpr ?_
  · refine List.nodup_append'.mpr ⟨entries_nodup _, entries_nodup _, ?_⟩
    intro entry old new
    have found := find?_eq_some_iff.mpr (show (entry.1, entry.2) ∈ map.entries from old)
    rw [(mem_newTo.mp new).2] at found
    cases found
  · rintro ⟨k, value⟩
    rw [List.mem_append, mem_newTo, ← find?_eq_some_iff, ← find?_eq_some_iff,
      ← find?_eq_some_iff, find?_merge]
    cases map.find? k with
    | none => simp
    | some old => simp

/-- New entries contribute in addition. -/
theorem total_merge (f : β → M) (map other : SortedMap κ β) :
    (map.merge other).total f = map.total f + (map.newTo other).total f := by
  rw [total, ((entries_merge_perm map other).map _).sum_eq, List.map_append, List.sum_append]
  rfl

theorem total_nonneg [PartialOrder M] [IsOrderedCancelAddMonoid M] {f : β → M}
    {map : SortedMap κ β} (nonneg : ∀ entry ∈ map.entries, 0 ≤ f entry.2) : 0 ≤ map.total f := by
  apply List.sum_nonneg
  intro part isPart
  obtain ⟨entry, member, rfl⟩ := List.mem_map.mp isPart
  exact nonneg entry member

/-- Positive contributions add up to nothing only if there are none. -/
theorem total_eq_zero_iff [PartialOrder M] [IsOrderedCancelAddMonoid M]
    {f : β → M} {map : SortedMap κ β} (positive : ∀ entry ∈ map.entries, 0 < f entry.2) :
    map.total f = 0 ↔ map = empty := by
  refine ⟨fun zero => entries_eq_nil_iff.mp ?_, fun none => by rw [none, total_empty]⟩
  by_contra some
  refine ne_of_gt (List.sum_pos _ ?_ (by simpa using some)) zero
  intro part isPart
  obtain ⟨entry, member, rfl⟩ := List.mem_map.mp isPart
  exact positive entry member

/-- A value that is replaced contributes no more. -/
theorem total_replace {G : Type*} [AddCommGroup G] (f : β → G) {map : SortedMap κ β} {k : κ}
    {old : β} (found : map.find? k = some old) (value : β) :
    (map.set k value).total f = map.total f + (f value - f old) := by
  rw [total_set, total_erase f found]
  abel

/-- **What one entry gives and another one takes leaves the total as it is.** -/
theorem total_transfer {G : Type*} [AddCommGroup G] {map : SortedMap κ G} {k k' : κ}
    {value value' : G} (differ : k' ≠ k) (found : map.find? k = some value)
    (found' : map.find? k' = some value') (amount : G) :
    ((map.set k (value + amount)).set k' (value' - amount)).total id = map.total id := by
  have still : (map.set k (value + amount)).find? k' = some value' := by
    rw [find?_set_of_ne map differ, found']
  rw [total_replace id still, total_replace id found]
  simp only [id]
  abel

end SortedMap
