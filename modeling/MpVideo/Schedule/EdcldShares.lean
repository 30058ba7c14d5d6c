import MpVideo.Schedule.EdcldTables
import Mathlib.Algebra.BigOperators.Ring.Finset
import Mathlib.Algebra.BigOperators.Ring.List

/-!
# The split of the EDCLD schedulers

Once a frame was split, the shares of `psi_table_` are meant to be a distribution over the
paths that had a positive rate when the tables were built, and `cost_table_` to have the
same keys (`EdcldTables.SplitWhole`).

A frame moves a part of the worst share to the best path, which keeps the split whole
whatever the root is (`EdcldTables.SplitWhole.move`). Building the tables inserts what is
missing and keeps what is there, and only the costs are removed before. So a new path gets
a share on top of the whole, and a path that is gone keeps its share. Building makes the
split whole exactly from tables that are empty, or that already are shares of a whole for
the same paths (`EdcldTables.Builds.splitWhole_iff`).
-/

set_option autoImplicit false

namespace MpVideo.Schedule

/-- The paths with a positive rate. -/
def ratedPaths (readings : Readings) (pids : List UInt8) : List UInt8 :=
  pids.filter fun pid => (readings pid).rate ≠ 0

theorem mem_ratedPaths {readings : Readings} {pids : List UInt8} {pid : UInt8} :
    pid ∈ ratedPaths readings pids ↔ pid ∈ pids ∧ (readings pid).rate ≠ 0 := by
  rw [ratedPaths, List.mem_filter, decide_eq_true_iff]

namespace EdcldTables

/-! ## What is inserted -/

/-- The rates as they are stored. -/
def storedRate (readings : Readings) (pid : UInt8) : UInt32 := (readings pid).rate.toUInt32

/-- The shares of the usable paths. -/
def ratios (readings : Readings) (pids : List UInt8) : SortedMap UInt8 ℚ :=
  (collectRates (storedRate readings) pids).1.mapVal fun rate =>
    (rate.toNat / (collectRates (storedRate readings) pids).2.toNat : ℚ)

section Ratios

variable {readings : Readings} {pids : List UInt8}

theorem mem_keys_ratios (distinct : pids.Nodup) {pid : UInt8} :
    pid ∈ (ratios readings pids).keys ↔ pid ∈ pids ∧ storedRate readings pid ≠ 0 := by
  rw [ratios, SortedMap.keys_mapVal, mem_keys_collectRates distinct]

/-- A usable path has a positive rate. -/
theorem rated_of_ratio (distinct : pids.Nodup) {pid : UInt8}
    (usable : pid ∈ (ratios readings pids).keys) : pid ∈ ratedPaths readings pids := by
  obtain ⟨registered, positive⟩ := (mem_keys_ratios distinct).mp usable
  refine mem_ratedPaths.mpr ⟨registered, ?_⟩
  intro zero
  rw [storedRate, zero] at positive
  exact positive rfl

/-- A share is positive if the total is. -/
theorem ratios_pos (distinct : pids.Nodup)
    (total : (collectRates (storedRate readings) pids).2 ≠ 0) :
    ∀ entry ∈ (ratios readings pids).entries, 0 < entry.2 := by
  intro entry member
  obtain ⟨old, isOld, rfl⟩ := List.mem_map.mp member
  obtain ⟨-, positive, same⟩ := (mem_collectRates distinct).mp isOld
  have part : 0 < old.2.toNat := by
    rw [same]
    exact Nat.pos_of_ne_zero fun zero => positive (UInt32.toNat_inj.mp zero)
  have whole : 0 < (collectRates (storedRate readings) pids).2.toNat :=
    Nat.pos_of_ne_zero fun zero => total (UInt32.toNat_inj.mp zero)
  exact div_pos (Nat.cast_pos.mpr part) (Nat.cast_pos.mpr whole)

theorem total_ratios (distinct : pids.Nodup) : (ratios readings pids).total id =
    rateSum (storedRate readings) pids / (collectRates (storedRate readings) pids).2.toNat := by
  rw [ratios, SortedMap.total_mapVal, SortedMap.total, rateSum_eq distinct]
  simp only [id, div_eq_mul_inv, List.sum_map_mul_right, Nat.cast_list_sum, List.map_map,
    Function.comp_def]

/-- The shares of a table that is built from nothing are at least the whole, and more if
the sum of the rates overflows. -/
theorem one_le_total_ratios (distinct : pids.Nodup)
    (total : (collectRates (storedRate readings) pids).2 ≠ 0) :
    1 ≤ (ratios readings pids).total id ∧
      ((ratios readings pids).total id = 1 ↔ rateSum (storedRate readings) pids < 2 ^ 32) := by
  have stored : (collectRates (storedRate readings) pids).2.toNat =
      rateSum (storedRate readings) pids % 2 ^ 32 := by
    rw [(collectRates_spec _ distinct).2, UInt32.toNat_ofNat']
  have positive : (0 : ℚ) < (collectRates (storedRate readings) pids).2.toNat :=
    Nat.cast_pos.mpr (Nat.pos_of_ne_zero fun zero => total (UInt32.toNat_inj.mp zero))
  rw [total_ratios distinct, one_le_div positive, div_eq_one_iff_eq (ne_of_gt positive),
    Nat.cast_le, Nat.cast_inj, stored, eq_comm, Nat.mod_eq_iff_lt (by decide)]
  exact ⟨Nat.mod_le _ _, Iff.rfl⟩

end Ratios

/-! ## Building -/

/-- What building does: a path that is in a table keeps its entry, and a usable path gets
one otherwise. -/
structure Builds (readings : Readings) (tables next : EdcldTables) : Prop where
  pids : next.pids = tables.pids
  cost : ∀ pid, pid ∈ next.costTable.keys ↔
    pid ∈ tables.costTable.keys ∨ pid ∈ (ratios readings tables.pids).keys
  psi : next.psiTable = tables.psiTable.merge (ratios readings tables.pids)
  total : ratios readings tables.pids = .empty ∨
    (collectRates (storedRate readings) tables.pids).2 ≠ 0

theorem insertEntries_spec (readings : Readings) (totalrate : UInt32)
    (list : List (UInt8 × UInt32)) (tables : EdcldTables) :
    (insertEntries readings totalrate list tables).pids = tables.pids ∧
      (insertEntries readings totalrate list tables).lastTs = tables.lastTs ∧
      (∀ pid, pid ∈ (insertEntries readings totalrate list tables).costTable.keys ↔
        pid ∈ tables.costTable.keys ∨ pid ∈ list.map Prod.fst) ∧
      (insertEntries readings totalrate list tables).psiTable =
        (list.map fun entry => (entry.1, (entry.2.toNat / totalrate.toNat : ℚ))).foldl
          (fun map entry => map.insert entry.1 entry.2) tables.psiTable := by
  induction list generalizing tables with
  | nil => exact ⟨rfl, rfl, fun pid => by simp [insertEntries], rfl⟩
  | cons entry rest ih =>
      obtain ⟨pids, lastTs, cost, psi⟩ := ih { tables with
        costTable := tables.costTable.insert entry.1 (readings entry.1).rtt.toNat
        psiTable := tables.psiTable.insert entry.1 (entry.2.toNat / totalrate.toNat) }
      refine ⟨pids, lastTs, ?_, psi⟩
      intro pid
      rw [insertEntries, cost pid, SortedMap.mem_keys_insert, List.map_cons, List.mem_cons]
      tauto

theorem insertUsable_spec {readings : Readings} {tables next : EdcldTables}
    (built : tables.insertUsable readings = some next) :
    Builds readings tables next ∧ next.lastTs = tables.lastTs := by
  have defined : ¬ ((collectRates (storedRate readings) tables.pids).2 = 0 ∧
      (collectRates (storedRate readings) tables.pids).1.entries ≠ []) := by
    intro undefined
    rw [insertUsable, getUsablePath] at built
    exact absurd (built.symm.trans (if_pos undefined)) (by simp)
  have inserted : next = insertEntries readings
      (collectRates (storedRate readings) tables.pids).2
      (collectRates (storedRate readings) tables.pids).1.entries tables :=
    Option.some.inj (built.symm.trans (if_neg defined))
  obtain ⟨pids, lastTs, cost, psi⟩ := insertEntries_spec readings
    (collectRates (storedRate readings) tables.pids).2
    (collectRates (storedRate readings) tables.pids).1.entries tables
  subst inserted
  refine ⟨⟨pids, ?_, psi, ?_⟩, lastTs⟩
  · intro pid
    rw [cost pid, ratios, SortedMap.keys_mapVal]
    rfl
  · rw [or_iff_not_imp_right, not_not]
    intro zero
    have none := not_not.mp (not_and.mp defined zero)
    exact SortedMap.entries_eq_nil_iff.mp (List.map_eq_nil_iff.mpr none)

/-- What holds of the tables, whether the split is whole or not. -/
structure Sound (tables : EdcldTables) : Prop where
  distinct : tables.pids.Nodup
  costKeys : ∀ pid ∈ tables.costTable.keys, pid ∈ tables.psiTable.keys
  nonneg : ∀ entry ∈ tables.psiTable.entries, 0 ≤ entry.2
  atLeast : tables.psiTable = .empty ∨ 1 ≤ tables.psiTable.total id

/-- **The split is a distribution** over the paths that had a positive rate when the
tables were built. -/
structure SplitWhole (built : List UInt8) (tables : EdcldTables) : Prop where
  sameKeys : tables.costTable.keys = tables.psiTable.keys
  keys : ∀ pid, pid ∈ tables.psiTable.keys ↔ pid ∈ built
  nonneg : ∀ entry ∈ tables.psiTable.entries, 0 ≤ entry.2
  total : tables.psiTable.total id = 1

/-- When building makes the split whole. There are no shares yet, and the rates add up
in 32 bits. Or there are shares of a whole already, of the paths that are rated now. The
stored rate of a path that has no cost yet must not be zero. -/
structure Buildable (readings : Readings) (tables : EdcldTables) : Prop where
  stored : ∀ pid ∈ ratedPaths readings tables.pids,
    storedRate readings pid ≠ 0 ∨ pid ∈ tables.costTable.keys
  shares : (tables.psiTable = .empty ∧ ratedPaths readings tables.pids ≠ [] ∧
      rateSum (storedRate readings) tables.pids < 2 ^ 32) ∨
    ((∀ pid, pid ∈ tables.psiTable.keys ↔ pid ∈ ratedPaths readings tables.pids) ∧
      tables.psiTable.total id = 1)

section Building

variable {readings : Readings} {pids : List UInt8} {tables next : EdcldTables}

/-- The new shares are positive. -/
theorem Builds.newShare_pos (builds : Builds readings tables next) (distinct : tables.pids.Nodup) :
    ∀ entry ∈ (tables.psiTable.newTo (ratios readings tables.pids)).entries, 0 < entry.2 := by
  intro entry member
  obtain ⟨isRatio, -⟩ := SortedMap.mem_newTo.mp member
  cases builds.total with
  | inl none =>
      rw [none] at isRatio
      exact absurd isRatio List.not_mem_nil
  | inr total => exact ratios_pos distinct total entry isRatio

/-- Building adds the new shares to the old ones. -/
theorem Builds.total_eq (builds : Builds readings tables next) :
    next.psiTable.total id = tables.psiTable.total id +
      (tables.psiTable.newTo (ratios readings tables.pids)).total id := by
  rw [builds.psi, SortedMap.total_merge]

theorem Builds.total_le (builds : Builds readings tables next) (distinct : tables.pids.Nodup) :
    tables.psiTable.total id ≤ next.psiTable.total id := by
  rw [builds.total_eq]
  apply le_add_of_nonneg_right
  exact SortedMap.total_nonneg fun entry member =>
    le_of_lt (builds.newShare_pos distinct entry member)

theorem Sound.build (sound : tables.Sound) (builds : Builds readings tables next) :
    next.Sound where
  distinct := by
    rw [builds.pids]
    exact sound.distinct
  costKeys pid member := by
    rw [builds.psi, SortedMap.mem_keys_merge]
    exact ((builds.cost pid).mp member).imp_left (sound.costKeys pid)
  nonneg entry member := by
    rw [builds.psi, (SortedMap.entries_merge_perm _ _).mem_iff, List.mem_append] at member
    cases member with
    | inl old => exact sound.nonneg entry old
    | inr new => exact le_of_lt (builds.newShare_pos sound.distinct entry new)
  atLeast := by
    cases sound.atLeast with
    | inl none =>
        rw [builds.psi, none, SortedMap.merge_empty_left]
        exact builds.total.imp_right fun total =>
          (one_le_total_ratios sound.distinct total).1
    | inr atLeast => exact .inr (le_trans atLeast (builds.total_le sound.distinct))

/-- Shares of a whole stay so if and only if no path gets a new one. -/
theorem Builds.total_eq_one_iff (builds : Builds readings tables next)
    (distinct : tables.pids.Nodup) (atLeast : 1 ≤ tables.psiTable.total id) :
    next.psiTable.total id = 1 ↔ tables.psiTable.total id = 1 ∧
      ∀ pid ∈ (ratios readings tables.pids).keys, pid ∈ tables.psiTable.keys := by
  have none : (tables.psiTable.newTo (ratios readings tables.pids)).total id = 0 ↔
      ∀ pid ∈ (ratios readings tables.pids).keys, pid ∈ tables.psiTable.keys := by
    rw [SortedMap.total_eq_zero_iff (builds.newShare_pos distinct), SortedMap.newTo_eq_empty_iff]
  have new := SortedMap.total_nonneg (f := id) fun entry member =>
    le_of_lt (builds.newShare_pos distinct entry member)
  rw [builds.total_eq, ← none]
  constructor
  · intro whole
    constructor <;> linarith
  · rintro ⟨old, zero⟩
    rw [old, zero, add_zero]

theorem Builds.mem_psiKeys (builds : Builds readings tables next) {pid : UInt8} :
    pid ∈ next.psiTable.keys ↔
      pid ∈ tables.psiTable.keys ∨ pid ∈ (ratios readings tables.pids).keys := by
  rw [builds.psi, SortedMap.mem_keys_merge]

/-- A path with a positive rate is usable if its rate is stored as a positive one. -/
theorem stored_iff_usable (distinct : pids.Nodup) {pid : UInt8}
    (rated : pid ∈ ratedPaths readings pids) :
    storedRate readings pid ≠ 0 ↔ pid ∈ (ratios readings pids).keys := by
  rw [mem_keys_ratios distinct]
  exact (and_iff_right (mem_ratedPaths.mp rated).1).symm

/-- A whole split shows what the tables were like before. -/
theorem Builds.buildable (builds : Builds readings tables next) (sound : tables.Sound)
    (whole : next.SplitWhole (ratedPaths readings tables.pids)) : tables.Buildable readings where
  stored pid member := by
    have inCost := (whole.keys pid).mpr member
    rw [← whole.sameKeys, builds.cost] at inCost
    exact inCost.symm.imp_left (stored_iff_usable sound.distinct member).mpr
  shares := by
    cases sound.atLeast with
    | inl none =>
        have total := whole.total
        have keys := whole.keys
        rw [builds.psi, none, SortedMap.merge_empty_left] at total keys
        have some : ratios readings tables.pids ≠ .empty := by
          intro nothing
          rw [nothing, SortedMap.total_empty] at total
          exact absurd total (by norm_num)
        have rated := builds.total.resolve_left some
        refine .inl ⟨none, ?_, (one_le_total_ratios sound.distinct rated).2.mp total⟩
        intro noPaths
        rw [noPaths] at keys
        exact some (SortedMap.eq_empty_of_keys fun pid member =>
          absurd ((keys pid).mp member) List.not_mem_nil)
    | inr atLeast =>
        obtain ⟨total, old⟩ := (builds.total_eq_one_iff sound.distinct atLeast).mp whole.total
        refine .inr ⟨?_, total⟩
        intro pid
        rw [← whole.keys pid, builds.mem_psiKeys]
        exact (or_iff_left_of_imp (old pid)).symm

/-- Shares that are built from nothing make a whole. -/
theorem Builds.splitWhole_of_empty (builds : Builds readings tables next) (sound : tables.Sound)
    (buildable : tables.Buildable readings) (none : tables.psiTable = .empty)
    (some : ratedPaths readings tables.pids ≠ [])
    (fits : rateSum (storedRate readings) tables.pids < 2 ^ 32) :
    next.SplitWhole (ratedPaths readings tables.pids) := by
  have noCost : ∀ pid, pid ∉ tables.costTable.keys := by
    intro pid member
    have inPsi := sound.costKeys pid member
    rw [none] at inPsi
    exact absurd inPsi List.not_mem_nil
  have psi : next.psiTable = ratios readings tables.pids := by
    rw [builds.psi, none, SortedMap.merge_empty_left]
  have same : ∀ pid, pid ∈ (ratios readings tables.pids).keys ↔
      pid ∈ ratedPaths readings tables.pids := by
    intro pid
    refine ⟨rated_of_ratio sound.distinct, fun member => ?_⟩
    have stored := (buildable.stored pid member).resolve_right (noCost pid)
    exact (stored_iff_usable sound.distinct member).mp stored
  have rated : (collectRates (storedRate readings) tables.pids).2 ≠ 0 := by
    obtain ⟨pid, member⟩ := List.exists_mem_of_ne_nil _ some
    refine builds.total.resolve_left fun nothing => ?_
    have isRatio := (same pid).mpr member
    rw [nothing] at isRatio
    exact absurd isRatio List.not_mem_nil
  refine ⟨?_, psi ▸ same, (sound.build builds).nonneg, ?_⟩
  · rw [psi, SortedMap.keys_eq_iff]
    intro pid
    rw [builds.cost]
    exact or_iff_right (noCost pid)
  · rw [psi]
    exact (one_le_total_ratios sound.distinct rated).2.mpr fits

/-- Shares of a whole that are kept make a whole. -/
theorem Builds.splitWhole_of_old (builds : Builds readings tables next) (sound : tables.Sound)
    (buildable : tables.Buildable readings)
    (old : ∀ pid, pid ∈ tables.psiTable.keys ↔ pid ∈ ratedPaths readings tables.pids)
    (total : tables.psiTable.total id = 1) :
    next.SplitWhole (ratedPaths readings tables.pids) := by
  have present : ∀ pid ∈ (ratios readings tables.pids).keys, pid ∈ tables.psiTable.keys :=
    fun pid member => (old pid).mpr (rated_of_ratio sound.distinct member)
  have same : ∀ pid, pid ∈ next.psiTable.keys ↔ pid ∈ ratedPaths readings tables.pids := by
    intro pid
    rw [builds.mem_psiKeys, ← old]
    exact or_iff_left_of_imp (present pid)
  refine ⟨?_, same, (sound.build builds).nonneg, ?_⟩
  · rw [SortedMap.keys_eq_iff]
    intro pid
    rw [same, builds.cost]
    constructor
    · rintro (inCost | isRatio)
      · exact (old pid).mp (sound.costKeys pid inCost)
      · exact rated_of_ratio sound.distinct isRatio
    · intro member
      exact (buildable.stored pid member).symm.imp_right
        (stored_iff_usable sound.distinct member).mp
  · exact (builds.total_eq_one_iff sound.distinct (le_of_eq total.symm)).mpr ⟨total, present⟩

/-- **Building makes the split whole if and only if** the tables were such that it can. -/
theorem Builds.splitWhole_iff (builds : Builds readings tables next) (sound : tables.Sound) :
    next.SplitWhole (ratedPaths readings tables.pids) ↔ tables.Buildable readings := by
  refine ⟨builds.buildable sound, fun buildable => ?_⟩
  rcases buildable.shares with ⟨none, some, fits⟩ | ⟨old, total⟩
  · exact builds.splitWhole_of_empty sound buildable none some fits
  · exact builds.splitWhole_of_old sound buildable old total

end Building

/-! ## Moving shares -/

theorem updateCosts_spec {readings : Readings} {T len : UInt32} {list : List (UInt8 × ℚ)}
    {loop last : CostLoop} (present : ∀ entry ∈ list, entry.1 ∈ loop.tables.costTable.keys)
    (updated : updateCosts readings T len list loop = some last) :
    last.tables.pids = loop.tables.pids ∧ last.tables.lastTs = loop.tables.lastTs ∧
      last.tables.psiTable = loop.tables.psiTable ∧
      ∀ pid, pid ∈ last.tables.costTable.keys ↔ pid ∈ loop.tables.costTable.keys := by
  induction list generalizing loop with
  | nil =>
      obtain rfl := Option.some.inj updated
      exact ⟨rfl, rfl, rfl, fun _ => Iff.rfl⟩
  | cons entry rest ih =>
      rw [updateCosts] at updated
      split at updated
      · cases updated
      · dsimp only at updated
        split at updated
        · cases updated
        · have here := present entry List.mem_cons_self
          obtain ⟨pids, lastTs, psi, cost⟩ := ih (fun other member =>
            (SortedMap.mem_keys_replace _ here).mpr
              (present other (List.mem_cons_of_mem _ member))) updated
          refine ⟨pids, lastTs, psi, ?_⟩
          intro pid
          rw [cost pid]
          exact SortedMap.mem_keys_replace _ here

/-- What moves is a part of the worst share. -/
theorem deltaPsi_bounds {sqrt : ℚ → ℚ} {coefficients : Coefficients ℚ} {worstPsi delta : ℚ}
    (nonneg : 0 ≤ worstPsi) (moved : deltaPsi sqrt coefficients worstPsi = some delta) :
    0 ≤ delta ∧ delta ≤ worstPsi := by
  rw [deltaPsi] at moved
  dsimp only at moved
  split at moved
  · obtain rfl := Option.some.inj moved
    exact ⟨nonneg, le_rfl⟩
  · split at moved
    · cases moved
    · obtain rfl := Option.some.inj moved
      grind

/-- The costs of a path are balanced with itself. -/
theorem balanceCoefficients_self (w L lambda : ℚ) (path : CostTerms ℚ) :
    balanceCoefficients w L lambda path path = { a := 0, b := lambda - 2, c := 0 } := by
  simp [balanceCoefficients, costGap]

/-- Nothing moves from a path to itself. -/
theorem deltaPsi_self {sqrt : ℚ → ℚ} {w L lambda worstPsi delta : ℚ} {path : CostTerms ℚ}
    (nonneg : 0 ≤ worstPsi)
    (moved : deltaPsi sqrt (balanceCoefficients w L lambda path path) worstPsi = some delta) :
    delta = 0 := by
  have square : ¬ (lambda - 2) * (lambda - 2) - 4 * 0 * 0 < 0 := by
    rw [mul_zero, sub_zero, not_lt]
    exact mul_self_nonneg _
  rw [balanceCoefficients_self, deltaPsi] at moved
  dsimp only at moved
  rw [if_neg square] at moved
  split at moved
  · cases moved
  · obtain rfl := Option.some.inj moved
    simp [not_lt.mpr nonneg]

/-- What a frame does to the tables: shares move, and the keys stay. -/
structure Moves (tables next : EdcldTables) : Prop where
  pids : next.pids = tables.pids
  costKeys : ∀ pid, pid ∈ next.costTable.keys ↔ pid ∈ tables.costTable.keys
  psiKeys : ∀ pid, pid ∈ next.psiTable.keys ↔ pid ∈ tables.psiTable.keys
  nonneg : ∀ entry ∈ next.psiTable.entries, 0 ≤ entry.2
  total : next.psiTable.total id = tables.psiTable.total id

theorem moveShare_spec {sqrt : ℚ → ℚ} {readings : Readings} {best worst : UInt8}
    {loop : CostLoop} {next : EdcldTables}
    (nonneg : ∀ entry ∈ loop.tables.psiTable.entries, 0 ≤ entry.2)
    (moved : moveShare sqrt readings best worst loop = some next) : Moves loop.tables next := by
  rw [moveShare] at moved
  dsimp only at moved
  split at moved
  case h_2 => cases moved
  case h_1 bestPsi worstPsi S_best S_worst bestFound worstFound bestS worstS =>
    split at moved
    · cases moved
    · obtain ⟨delta, isDelta, rfl⟩ := Option.map_eq_some_iff.mp moved
      have bestNonneg := nonneg _ (SortedMap.find?_eq_some_iff.mp bestFound)
      have worstNonneg := nonneg _ (SortedMap.find?_eq_some_iff.mp worstFound)
      obtain ⟨atLeast, atMost⟩ := deltaPsi_bounds worstNonneg isDelta
      have bestKey := SortedMap.mem_keys_iff.mpr ⟨bestPsi, bestFound⟩
      have worstKey := SortedMap.mem_keys_iff.mpr ⟨worstPsi, worstFound⟩
      refine ⟨rfl, fun _ => Iff.rfl, ?_, ?_, ?_⟩
      · intro pid
        rw [SortedMap.mem_keys_replace _ ((SortedMap.mem_keys_replace _ bestKey).mpr worstKey)]
        exact SortedMap.mem_keys_replace _ bestKey
      · intro entry member
        rcases SortedMap.mem_setList_of member with rfl | old
        · exact sub_nonneg.mpr atMost
        · rcases SortedMap.mem_setList_of old with rfl | older
          · exact add_nonneg bestNonneg atLeast
          · exact nonneg entry older
      · by_cases same : worst = best
        · subst same
          obtain rfl := Option.some.inj (bestFound.symm.trans worstFound)
          obtain rfl := Option.some.inj (bestS.symm.trans worstS)
          obtain rfl := deltaPsi_self worstNonneg isDelta
          rw [add_zero, sub_zero, SortedMap.set_of_find?_some bestFound,
            SortedMap.set_of_find?_some bestFound]
        · exact SortedMap.total_transfer same bestFound worstFound delta

theorem updateCostAndPsiTable_spec {sqrt : ℚ → ℚ} {readings : Readings} {now len : UInt32}
    {tables next : EdcldTables} (nonneg : ∀ entry ∈ tables.psiTable.entries, 0 ≤ entry.2)
    (updated : tables.updateCostAndPsiTable sqrt readings now len = some next) :
    Moves tables next := by
  obtain ⟨loop, looped, chosen⟩ := Option.bind_eq_some_iff.mp updated
  obtain ⟨⟨best, worst⟩, -, moved⟩ := Option.bind_eq_some_iff.mp chosen
  have present : ∀ entry ∈ tables.costTable.entries,
      entry.1 ∈ ({ tables } : CostLoop).tables.costTable.keys :=
    fun entry member => List.mem_map_of_mem member
  obtain ⟨pids, -, psi, cost⟩ := updateCosts_spec present looped
  have moves := moveShare_spec (psi ▸ nonneg) moved
  refine ⟨moves.pids.trans pids, fun pid => (moves.costKeys pid).trans (cost pid), ?_,
    moves.nonneg, ?_⟩
  · intro pid
    rw [moves.psiKeys, psi]
  · rw [moves.total, psi]

section Moving

variable {tables next : EdcldTables}

theorem Sound.move (sound : tables.Sound) (moves : Moves tables next) : next.Sound where
  distinct := by
    rw [moves.pids]
    exact sound.distinct
  costKeys pid member := (moves.psiKeys pid).mpr
    (sound.costKeys pid ((moves.costKeys pid).mp member))
  nonneg := moves.nonneg
  atLeast := by
    rw [moves.total]
    refine sound.atLeast.imp_left fun none => SortedMap.eq_empty_of_keys fun pid member => ?_
    have old := (moves.psiKeys pid).mp member
    rw [none] at old
    exact absurd old List.not_mem_nil

/-- A frame keeps the split whole. -/
theorem SplitWhole.move {built : List UInt8} (whole : tables.SplitWhole built)
    (moves : Moves tables next) : next.SplitWhole built where
  sameKeys := by
    rw [SortedMap.keys_eq_iff]
    intro pid
    rw [moves.costKeys, moves.psiKeys, whole.sameKeys]
  keys pid := (moves.psiKeys pid).trans (whole.keys pid)
  nonneg := moves.nonneg
  total := moves.total.trans whole.total

end Moving

/-! ## What a step does -/

theorem countPackets_spec {n size : UInt32} {tables next : EdcldTables}
    (counted : tables.countPackets n size = some next) :
    ∃ averagePacketLen packetCounter, next = { tables with averagePacketLen, packetCounter } := by
  rw [countPackets] at counted
  dsimp only at counted
  split_ifs at counted
  all_goals
    obtain rfl := Option.some.inj counted
    exact ⟨_, _, rfl⟩

/-- **What a frame does.** It is not split, or the tables are built, or shares move. -/
theorem incomingPackets_cases {whole : List UInt8 → Packets → Option Calls} {sqrt : ℚ → ℚ}
    {readings : Readings} {now size : UInt32} {packets : Packets} {tables next : EdcldTables}
    {calls : Calls} (nonneg : ∀ entry ∈ tables.psiTable.entries, 0 ≤ entry.2)
    (came : incomingPackets whole sqrt readings now packets size tables = some (next, calls)) :
    (Unsplit tables.pids packets ∧ ∃ averagePacketLen packetCounter,
        next = { tables with averagePacketLen, packetCounter }) ∨
      (¬ Unsplit tables.pids packets ∧ next.lastTs = now ∧
        ((tables.lastTs = 0 ∧ Builds readings tables next) ∨
          (tables.lastTs ≠ 0 ∧ Moves tables next))) := by
  obtain ⟨counted, isCounted, came⟩ := Option.bind_eq_some_iff.mp came
  obtain ⟨averagePacketLen, packetCounter, rfl⟩ := countPackets_spec isCounted
  split at came
  case isTrue unsplit =>
    obtain ⟨_, -, same⟩ := Option.map_eq_some_iff.mp came
    exact .inl ⟨unsplit, averagePacketLen, packetCounter, (Prod.mk.inj same).1.symm⟩
  case isFalse unsplit =>
    obtain ⟨split, isSplit, came⟩ := Option.bind_eq_some_iff.mp came
    obtain ⟨_, -, same⟩ := Option.map_eq_some_iff.mp came
    obtain rfl := (Prod.mk.inj same).1
    by_cases first : tables.lastTs = 0
    · obtain ⟨builds, -⟩ := insertUsable_spec ((if_pos first).symm.trans isSplit)
      exact .inr ⟨unsplit, rfl,
        .inl ⟨first, builds.pids, builds.cost, builds.psi, builds.total⟩⟩
    · have updated : updateCostAndPsiTable sqrt readings now size
          { tables with averagePacketLen, packetCounter } = some split :=
        (if_neg first).symm.trans isSplit
      have moves := updateCostAndPsiTable_spec (by exact nonneg) updated
      exact .inr ⟨unsplit, rfl, .inr ⟨first, moves.pids, moves.costKeys, moves.psiKeys,
        moves.nonneg, moves.total⟩⟩

section Membership

variable {readings : Readings} {pid : UInt8} {tables next : EdcldTables}

theorem Sound.addPid (sound : tables.Sound) (pid : UInt8) : (tables.addPid pid).Sound := by
  rw [EdcldTables.addPid]
  split_ifs with registered
  · exact sound
  · refine ⟨?_, sound.costKeys, sound.nonneg, sound.atLeast⟩
    exact List.nodup_append'.mpr ⟨sound.distinct, List.nodup_singleton pid,
      List.disjoint_singleton.mpr registered⟩

theorem Sound.removePid (sound : tables.Sound) (pid : UInt8) : (tables.removePid pid).Sound :=
  ⟨sound.distinct.erase pid, sound.costKeys, sound.nonneg, sound.atLeast⟩

theorem Sound.clearCost (sound : tables.Sound) : tables.clearCost.Sound :=
  ⟨sound.distinct, fun _ member => absurd member List.not_mem_nil, sound.nonneg, sound.atLeast⟩

/-- What registering adds is the path id. -/
theorem addPid_eq (pid : UInt8) (tables : EdcldTables) :
    ∃ pids, tables.addPid pid = { tables with pids } := by
  rw [addPid]
  split_ifs
  · exact ⟨tables.pids, rfl⟩
  · exact ⟨_, rfl⟩

/-- **What registering a path does**: the tables are built if there was a frame. -/
theorem registerPath_cases (registered : tables.registerPath pid readings = some next) :
    next.lastTs = tables.lastTs ∧
      ((tables.lastTs = 0 ∧ next = tables.addPid pid) ∨
        (tables.lastTs ≠ 0 ∧ Builds readings (tables.addPid pid).clearCost next)) := by
  have same : (tables.addPid pid).lastTs = tables.lastTs := by
    obtain ⟨pids, added⟩ := addPid_eq pid tables
    rw [added]
  by_cases first : tables.lastTs = 0
  · obtain rfl := Option.some.inj ((if_neg (not_not.mpr (same.trans first))).symm.trans registered)
    exact ⟨same, .inl ⟨first, rfl⟩⟩
  · have later : (tables.addPid pid).lastTs ≠ 0 := by rwa [same]
    obtain ⟨builds, still⟩ := insertUsable_spec ((if_pos later).symm.trans registered)
    exact ⟨still.trans same, .inr ⟨first, builds⟩⟩

/-- **What unregistering a path does**: the tables are built. -/
theorem unregisterPath_cases (unregistered : tables.unregisterPath pid readings = some next) :
    next.lastTs = tables.lastTs ∧ Builds readings (tables.removePid pid).clearCost next :=
  (insertUsable_spec unregistered).symm

end Membership

end EdcldTables

end MpVideo.Schedule
