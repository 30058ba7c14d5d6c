import Mathlib.Data.List.Basic

/-!
# A memory with addresses

A memory holds a value at every address. Lists of values are stored from an address on and
loaded again; what is stored behind a part of the memory leaves that part as it is.

An allocator gives a new block for an old one, at an address of its choice, with the values
of the old block in front (`Realloc`).
-/

set_option autoImplicit false

universe u

/-- The values at all addresses. -/
abbrev Memory (β : Type u) := ℕ → β

namespace Memory

variable {β : Type u} {mem other : Memory β}

/-- Stores values from an address on. -/
def store (ptr : ℕ) (values : List β) (mem : Memory β) : Memory β := fun address =>
  if address < ptr then mem address else values[address - ptr]?.getD (mem address)

/-- Loads a number of values from an address on. -/
def load (ptr n : ℕ) (mem : Memory β) : List β := (List.range n).map fun i => mem (ptr + i)

@[simp] theorem length_load (ptr n : ℕ) (mem : Memory β) : (mem.load ptr n).length = n := by
  rw [load, List.length_map, List.length_range]

theorem load_congr {ptr ptr' n : ℕ} (same : ∀ i < n, mem (ptr + i) = other (ptr' + i)) :
    mem.load ptr n = other.load ptr' n :=
  List.map_congr_left fun i member => same i (List.mem_range.mp member)

theorem eq_of_load {ptr ptr' n i : ℕ} (same : mem.load ptr n = other.load ptr' n) (below : i < n) :
    mem (ptr + i) = other (ptr' + i) :=
  List.map_inj_left.mp same i (List.mem_range.mpr below)

/-- A block is loaded in two parts. -/
theorem load_add (ptr m n : ℕ) (mem : Memory β) :
    mem.load ptr (m + n) = mem.load ptr m ++ mem.load (ptr + m) n := by
  rw [load, List.range_add, List.map_append, List.map_map]
  congr 1
  exact List.map_congr_left fun i _ => congrArg mem (Nat.add_assoc ptr m i).symm

theorem drop_load (ptr m n : ℕ) (mem : Memory β) :
    (mem.load ptr (m + n)).drop m = mem.load (ptr + m) n := by
  rw [load_add, List.drop_left' (length_load ptr m mem)]

theorem take_load {ptr m n : ℕ} (le : m ≤ n) (mem : Memory β) :
    (mem.load ptr n).take m = mem.load ptr m := by
  obtain ⟨rest, rfl⟩ := Nat.exists_eq_add_of_le le
  rw [load_add, List.take_left' (length_load ptr m mem)]

/-- What is stored is loaded again. -/
theorem load_store (ptr : ℕ) (values : List β) (mem : Memory β) :
    (mem.store ptr values).load ptr values.length = values := by
  refine List.ext_getElem (length_load ..) fun i _ below => ?_
  simp only [load, List.getElem_map, List.getElem_range]
  rw [store, if_neg (by omega), Nat.add_sub_cancel_left, List.getElem?_eq_getElem below,
    Option.getD_some]

/-- What is stored behind a block leaves the block as it is. -/
theorem load_store_behind {ptr n ptr' : ℕ} (behind : ptr + n ≤ ptr') (values : List β)
    (mem : Memory β) : (mem.store ptr' values).load ptr n = mem.load ptr n :=
  load_congr fun i below => if_pos (by omega)

end Memory

/-- What `realloc` does with an address, the size of the block and the wanted size: it gives
the address of the new block, and what is in the memory then. -/
structure Realloc (β : Type u) where
  realloc : ℕ → ℕ → ℕ → Memory β → ℕ × Memory β
  copies : ∀ ptr oldSize newSize mem n, n ≤ oldSize → n ≤ newSize →
    (realloc ptr oldSize newSize mem).2.load (realloc ptr oldSize newSize mem).1 n = mem.load ptr n

namespace Realloc

variable {β : Type u}

/-- A block that moves behind its old place. -/
def moving : Realloc β where
  realloc ptr oldSize _ mem := (ptr + oldSize, mem.store (ptr + oldSize) (mem.load ptr oldSize))
  copies ptr oldSize newSize mem n fits _ := by
    have whole := Memory.load_store (ptr + oldSize) (mem.load ptr oldSize) mem
    rw [Memory.length_load] at whole
    rw [← Memory.take_load fits, whole, Memory.take_load fits]

end Realloc
