import Mathlib.Algebra.Group.Nat.Defs
import Mathlib.Data.Finset.Card
import Mathlib.Data.Finset.Image
import Mathlib.Data.Finset.Range
import Mathlib.Order.Defs.LinearOrder
import Mathlib.Data.List.Nodup
import Mathlib.Data.List.Perm.Subperm

/-!
# Machine words as linear orders

The machine words of the core library carry their order as separate lemmas.
Here they become linear orders, so that ordered containers and the order
library apply to them. The order is the existing one, so `decide`, `omega` and
`grind` see the same relation as before.
-/

set_option autoImplicit false

instance instLinearOrderWord8 : LinearOrder UInt8 where
  le_refl := UInt8.le_refl
  le_trans _ _ _ := UInt8.le_trans
  le_antisymm _ _ := UInt8.le_antisymm
  lt_iff_le_not_ge _ _ := by grind
  le_total := UInt8.le_total
  toDecidableLE := inferInstance

instance instLinearOrderWord16 : LinearOrder UInt16 where
  le_refl := UInt16.le_refl
  le_trans _ _ _ := UInt16.le_trans
  le_antisymm _ _ := UInt16.le_antisymm
  lt_iff_le_not_ge _ _ := by grind
  le_total := UInt16.le_total
  toDecidableLE := inferInstance

instance instLinearOrderWord32 : LinearOrder UInt32 where
  le_refl := UInt32.le_refl
  le_trans _ _ _ := UInt32.le_trans
  le_antisymm _ _ := UInt32.le_antisymm
  lt_iff_le_not_ge _ _ := by grind
  le_total := UInt32.le_total
  toDecidableLE := inferInstance

instance instLinearOrderWord64 : LinearOrder UInt64 where
  le_refl := UInt64.le_refl
  le_trans _ _ _ := UInt64.le_trans
  le_antisymm _ _ := UInt64.le_antisymm
  lt_iff_le_not_ge _ _ := by grind
  le_total := UInt64.le_total
  toDecidableLE := inferInstance

instance instLinearOrderInt16 : LinearOrder Int16 where
  le_refl := Int16.le_refl
  le_trans _ _ _ := Int16.le_trans
  le_antisymm _ _ := Int16.le_antisymm
  lt_iff_le_not_ge _ _ := by grind
  le_total := Int16.le_total
  toDecidableLE := inferInstance

/-- A word below `2 ^ 31` as a signed number. -/
theorem UInt32.toInt_toInt32_of_lt {word : UInt32} (small : word.toNat < 2 ^ 31) :
    word.toInt32.toInt = word.toNat := by
  change word.toBitVec.toInt = (word.toBitVec.toNat : Int)
  exact BitVec.toInt_eq_toNat_of_lt (by change 2 * word.toNat < 2 ^ 32; omega)

/-- A list of distinct values that are numbered below a bound is not longer than the
bound. -/
theorem List.Nodup.length_le_bound {α : Type*} {values : List α} (distinct : values.Nodup)
    {number : α → Nat} (injective : Function.Injective number) {bound : Nat}
    (below : ∀ value, number value < bound) : values.length ≤ bound := by
  have fits : (values.map number).length ≤ (List.range bound).length := by
    refine (List.subperm_of_subset (distinct.map injective) ?_).length_le
    intro image member
    obtain ⟨value, _, rfl⟩ := List.mem_map.mp member
    exact List.mem_range.mpr (below value)
  simpa only [List.length_map, List.length_range] using fits

/-- A list of distinct 32-bit words has at most `2 ^ 32` entries. -/
theorem UInt32.length_le_of_nodup {words : List UInt32} (distinct : words.Nodup) :
    words.length ≤ 2 ^ 32 :=
  distinct.length_le_bound (fun _ _ same => UInt32.toNat_inj.mp same) UInt32.toNat_lt

/-- A list of distinct 16-bit words has at most `2 ^ 16` entries. -/
theorem UInt16.length_le_of_nodup {words : List UInt16} (distinct : words.Nodup) :
    words.length ≤ 2 ^ 16 :=
  distinct.length_le_bound (fun _ _ same => UInt16.toNat_inj.mp same) UInt16.toNat_lt

/-- A list of distinct 8-bit words has at most `2 ^ 8` entries. -/
theorem UInt8.length_le_of_nodup {words : List UInt8} (distinct : words.Nodup) :
    words.length ≤ 2 ^ 8 :=
  distinct.length_le_bound (fun _ _ same => UInt8.toNat_inj.mp same) UInt8.toNat_lt

theorem UInt8.image_subset {words : List UInt8} {bound : UInt8}
    (below : ∀ word ∈ words, word < bound) :
    words.toFinset.image UInt8.toNat ⊆ Finset.range bound.toNat := by
  intro number member
  obtain ⟨word, found, rfl⟩ := Finset.mem_image.mp member
  exact Finset.mem_range.mpr (below word (List.mem_toFinset.mp found))

theorem UInt8.card_image_toNat (words : Finset UInt8) :
    (words.image UInt8.toNat).card = words.card :=
  Finset.card_image_of_injective _ fun _ _ same => UInt8.toNat_inj.mp same

/-- There are at most as many distinct words as numbers below their bound. -/
theorem UInt8.card_le {words : List UInt8} {bound : UInt8} (below : ∀ word ∈ words, word < bound) :
    words.toFinset.card ≤ bound.toNat := by
  have card := Finset.card_le_card (UInt8.image_subset below)
  rwa [UInt8.card_image_toNat, Finset.card_range] at card

/-- All words below the bound are there exactly when this many distinct ones are. -/
theorem UInt8.card_eq_iff {words : List UInt8} {bound : UInt8}
    (below : ∀ word ∈ words, word < bound) :
    words.toFinset.card = bound.toNat ↔ ∀ word < bound, word ∈ words := by
  constructor
  · intro full word less
    have all := Finset.eq_of_subset_of_card_le (UInt8.image_subset below) (by
      rw [UInt8.card_image_toNat, Finset.card_range, full])
    have member : word.toNat ∈ words.toFinset.image UInt8.toNat := by
      rw [all]
      exact Finset.mem_range.mpr less
    obtain ⟨other, found, same⟩ := Finset.mem_image.mp member
    rw [← UInt8.toNat_inj.mp same]
    exact List.mem_toFinset.mp found
  · intro all
    have onto : words.toFinset.image UInt8.toNat = Finset.range bound.toNat := by
      refine (UInt8.image_subset below).antisymm ?_
      intro number less
      have small : number < 2 ^ 8 :=
        Nat.lt_trans (Finset.mem_range.mp less) bound.toNat_lt
      have back : (UInt8.ofNat number).toNat = number := UInt8.toNat_ofNat_of_lt' small
      refine Finset.mem_image.mpr ⟨UInt8.ofNat number, ?_, back⟩
      refine List.mem_toFinset.mpr (all _ ?_)
      rw [UInt8.lt_iff_toNat_lt, back]
      exact Finset.mem_range.mp less
    rw [← UInt8.card_image_toNat, onto, Finset.card_range]
