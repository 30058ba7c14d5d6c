import MpVideo.Schedule.WaterFilling

/-!
# The level that AllocateWater finds

The loop returns at the first level whose bytes suffice, as `GetTotalWater` counts them
(`allocateFrom_spec`). The product of a height in milliseconds and a rate in bits per second
is formed in 32 bits there. Over the integers, every path has the bytes of `exactRoom`, and
the level should be the least multiple of the step at which they suffice.

The table holds these bytes at this level if and only if no product wraps there and the sum
does not either (`water_level_exact_iff`). A level beyond 268 milliseconds above a path of
`MAX_BITRATE` is enough for a product to wrap (`wrapped_level`).
-/

set_option autoImplicit false

namespace MpVideo.Schedule

/-- The table with the bytes of a level above the largest delay. -/
def raised (watertable : List PathWater) (deepest : PathWater) (compensate : UInt32) :
    List PathWater :=
  watertable.map (PathWater.fill (deepest.owd + compensate).toInt32)

/-- The sum that `GetTotalWater` returns for the entries it has written. -/
def waterOf (filled : List PathWater) : UInt32 :=
  filled.foldl (fun water info => water + info.byte.toUInt32) 0

/-! ## Exact levels -/

/-- The product of a height above the delay and the rate, over the integers. -/
def exactProduct (deepest : PathWater) (c : Nat) (info : PathWater) : Nat :=
  (deepest.owd.toNat + c - info.owd.toNat) * info.bps.toNat

/-- The bytes of a path at a level, over the integers. -/
def exactRoom (deepest : PathWater) (c : Nat) (info : PathWater) : Nat :=
  exactProduct deepest c info / 8000

/-- The bytes of all paths at a level, over the integers. -/
def exactCapacity (watertable : List PathWater) (deepest : PathWater) (c : Nat) : Nat :=
  (watertable.map (exactRoom deepest c)).sum

/-- The level is the least multiple of the step with sufficient capacity. -/
structure LeastLevel (watertable : List PathWater) (deepest : PathWater) (filling step : UInt32)
    (c : Nat) : Prop where
  multiple : ∃ i, c = step.toNat * i
  enough : filling.toNat ≤ exactCapacity watertable deepest c
  least : ∀ i, step.toNat * i < c →
    exactCapacity watertable deepest (step.toNat * i) < filling.toNat

/-- No product wraps in 32 bits at the level. -/
def NoWrap (watertable : List PathWater) (deepest : PathWater) (c : Nat) : Prop :=
  ∀ info ∈ watertable, exactProduct deepest c info < 2 ^ 32

/-- The table is filled at the least sufficient level, and holds the exact bytes. -/
structure ExactAt (watertable : List PathWater) (deepest : PathWater) (filling step : UInt32)
    (table : List PathWater) (c : Nat) : Prop where
  level : LeastLevel watertable deepest filling step c
  filled : table = raised watertable deepest (UInt32.ofNat c)
  bytes : (table.map fun info => info.byte.toInt) =
    watertable.map fun info => (exactRoom deepest c info : ℤ)
  sum : (filling.toNat : ℤ) ≤ (table.map fun info => info.byte.toInt).sum

/-! ## The loop -/

/-- The last delay of a sorted table is the largest. -/
theorem owd_le_of_last {watertable : List PathWater} {deepest : PathWater}
    (ascending : watertable.Pairwise fun first second => first.owd ≤ second.owd)
    (last : watertable.getLast? = some deepest) :
    ∀ info ∈ watertable, info.owd ≤ deepest.owd := by
  obtain ⟨init, rfl⟩ := List.getLast?_eq_some_iff.mp last
  intro info member
  rcases List.mem_append.mp member with earlier | same
  · exact (List.pairwise_append.mp ascending).2.2 info earlier deepest List.mem_cons_self
  · rw [List.mem_singleton.mp same]

variable {watertable : List PathWater} {deepest : PathWater} {filling step : UInt32}

theorem getTotalWater_raised (last : watertable.getLast? = some deepest) (compensate : UInt32) :
    getTotalWater watertable compensate = some
      (waterOf (raised watertable deepest compensate), raised watertable deepest compensate) := by
  rw [getTotalWater, last]
  rfl

/-- Writing the bytes of one level over those of another. -/
theorem raised_raised (watertable : List PathWater) (deepest filled : PathWater)
    (owd : filled.owd = deepest.owd) (first second : UInt32) :
    raised (raised watertable deepest first) filled second = raised watertable deepest second := by
  rw [raised, raised, raised, List.map_map, owd]
  rfl

/-- **The loop returns at the first level that suffices.** -/
theorem allocateFrom_spec {turns i : Nat} {table : List PathWater}
    (last : watertable.getLast? = some deepest)
    (returned : allocateFrom filling step turns i watertable = some table) :
    ∃ j, i ≤ j ∧ j < i + turns ∧ table = raised watertable deepest (step * UInt32.ofNat j) ∧
      filling ≤ waterOf table ∧
      ∀ k, i ≤ k → k < j →
        waterOf (raised watertable deepest (step * UInt32.ofNat k)) < filling := by
  induction turns generalizing i watertable deepest with
  | zero => cases returned
  | succ turns ih =>
      rw [allocateFrom, getTotalWater_raised last, Option.bind_some] at returned
      dsimp only at returned
      split_ifs at returned with enough
      · obtain rfl := Option.some.inj returned
        exact ⟨i, le_rfl, by omega, rfl, enough, fun k above below => by omega⟩
      · have deeper : (raised watertable deepest (step * UInt32.ofNat i)).getLast? =
            some (deepest.fill (deepest.owd + step * UInt32.ofNat i).toInt32) := by
          rw [raised, List.getLast?_map, last]
          rfl
        obtain ⟨j, above, below, table_eq, reached, earlier⟩ := ih deeper returned
        have same := raised_raised watertable deepest
          (deepest.fill (deepest.owd + step * UInt32.ofNat i).toInt32) rfl
          (step * UInt32.ofNat i)
        refine ⟨j, by omega, by omega, table_eq.trans (same _), reached, fun k from_ before => ?_⟩
        rcases from_.lt_or_eq with later | rfl
        · rw [← same]
          exact earlier k later before
        · exact not_le.mp enough

/-! ## Words and integers -/

/-- The sum of the bytes as a word. -/
theorem toNat_waterOf (filled : List PathWater) :
    (waterOf filled).toNat = (filled.map fun info => info.byte.toUInt32.toNat).sum % 2 ^ 32 := by
  have general : ∀ (list : List PathWater) (start : UInt32),
      (list.foldl (fun water info => water + info.byte.toUInt32) start).toNat =
        (start.toNat + (list.map fun info => info.byte.toUInt32.toNat).sum) % 2 ^ 32 := by
    intro list
    induction list with
    | nil => exact fun start => (Nat.mod_eq_of_lt start.toNat_lt).symm
    | cons info rest ih =>
        intro start
        rw [List.foldl_cons, ih, UInt32.toNat_add, List.map_cons, List.sum_cons]
        omega
  have zero : (0 : UInt32).toNat = 0 := rfl
  rw [waterOf, general, zero, Nat.zero_add]

/-- The word that `GetTotalWater` divides is the product, wrapped. -/
theorem toNat_product {info : PathWater} (sorted : info.owd ≤ deepest.owd) (j : Nat) :
    ((deepest.owd + step * UInt32.ofNat j - info.owd) * info.bps).toNat =
      exactProduct deepest (step.toNat * j) info % 2 ^ 32 := by
  have below : info.owd.toNat ≤ deepest.owd.toNat + step.toNat * j :=
    (UInt32.le_iff_toNat_le.mp sorted).trans (Nat.le_add_right ..)
  have word : (deepest.owd + step * UInt32.ofNat j - info.owd) * info.bps =
      UInt32.ofNat (exactProduct deepest (step.toNat * j) info) := by
    rw [exactProduct, UInt32.ofNat_mul, UInt32.ofNat_sub below, UInt32.ofNat_add,
      UInt32.ofNat_mul]
    simp only [UInt32.ofNat_toNat]
  rw [word, UInt32.toNat_ofNat']

/-- The bytes of a path at a level as the code has them. -/
def wrappedRoom (deepest : PathWater) (c : Nat) (info : PathWater) : Nat :=
  exactProduct deepest c info % 2 ^ 32 / 8000

theorem wrappedRoom_le (deepest : PathWater) (c : Nat) (info : PathWater) :
    wrappedRoom deepest c info ≤ exactRoom deepest c info :=
  Nat.div_le_div_right (Nat.mod_le _ _)

/-- The bytes that are stored. -/
theorem room_raised {info : PathWater} (sorted : info.owd ≤ deepest.owd) (j : Nat) :
    info.room (deepest.owd + step * UInt32.ofNat j) =
      wrappedRoom deepest (step.toNat * j) info := by
  rw [PathWater.room, toNat_product sorted, wrappedRoom]

/-- The bytes that are stored, as a signed number. -/
theorem PathWater.toInt_byte_fill (depth : UInt32) (info : PathWater) :
    (info.fill depth.toInt32).byte.toInt = info.room depth := by
  have word : (info.fill depth.toInt32).byte =
      ((depth - info.owd) * info.bps / (8 * 1000)).toInt32 := by
    rw [fill, UInt32.toUInt32_toInt32]
  have value : ((depth - info.owd) * info.bps / (8 * 1000)).toNat = info.room depth := by
    rw [UInt32.toNat_div, room]
    rfl
  have small := info.room_le depth
  rw [word, UInt32.toInt_toInt32_of_lt (by omega), value]

/-- The bytes of a table at a level. -/
theorem bytes_raised (sorted : ∀ info ∈ watertable, info.owd ≤ deepest.owd) (j : Nat) :
    ((raised watertable deepest (step * UInt32.ofNat j)).map fun info => info.byte.toInt) =
      watertable.map fun info => (wrappedRoom deepest (step.toNat * j) info : ℤ) := by
  rw [raised, List.map_map]
  refine List.map_congr_left fun info member => ?_
  rw [← room_raised (sorted info member)]
  exact info.toInt_byte_fill _

/-- The water of a table at a level. -/
theorem waterOf_raised (sorted : ∀ info ∈ watertable, info.owd ≤ deepest.owd) (j : Nat) :
    (waterOf (raised watertable deepest (step * UInt32.ofNat j))).toNat =
      (watertable.map (wrappedRoom deepest (step.toNat * j))).sum % 2 ^ 32 := by
  rw [toNat_waterOf, raised, List.map_map]
  congr 2
  refine List.map_congr_left fun info member => ?_
  rw [← room_raised (sorted info member)]
  exact info.toNat_byte_fill _

/-- There is never more water than the exact capacity. -/
theorem waterOf_raised_le (sorted : ∀ info ∈ watertable, info.owd ≤ deepest.owd) (j : Nat) :
    (waterOf (raised watertable deepest (step * UInt32.ofNat j))).toNat ≤
      exactCapacity watertable deepest (step.toNat * j) := by
  rw [waterOf_raised sorted]
  exact (Nat.mod_le _ _).trans (List.sum_le_sum fun info _ => wrappedRoom_le _ _ info)

/-! ## The least level -/

/-- Two least levels are the same. -/
theorem LeastLevel.unique {c c' : Nat} (one : LeastLevel watertable deepest filling step c)
    (two : LeastLevel watertable deepest filling step c') : c = c' := by
  obtain ⟨i, rfl⟩ := one.multiple
  obtain ⟨i', rfl⟩ := two.multiple
  rcases Nat.lt_trichotomy (step.toNat * i) (step.toNat * i') with less | same | more
  · exact absurd one.enough (not_le.mpr (two.least i less))
  · exact same
  · exact absurd two.enough (not_le.mpr (one.least i' more))

/-- Where the capacity suffices at some multiple, there is a least one, not above it. -/
theorem exists_leastLevel {j : Nat}
    (enough : filling.toNat ≤ exactCapacity watertable deepest (step.toNat * j)) :
    ∃ i ≤ j, LeastLevel watertable deepest filling step (step.toNat * i) := by
  induction j using Nat.strong_induction_on with
  | _ j ih =>
      by_cases lower : ∃ i, step.toNat * i < step.toNat * j ∧
          filling.toNat ≤ exactCapacity watertable deepest (step.toNat * i)
      · obtain ⟨i, less, reached⟩ := lower
        have before : i < j := Nat.lt_of_mul_lt_mul_left less
        obtain ⟨first, le, level⟩ := ih i before reached
        exact ⟨first, le.trans before.le, level⟩
      · refine ⟨j, le_rfl, ⟨j, rfl⟩, enough, fun i less => ?_⟩
        by_contra reached
        exact lower ⟨i, less, not_lt.mp reached⟩

/-- A product that wraps loses more than the division by 8000 hides. -/
theorem wrappedRoom_eq_iff {c : Nat} {info : PathWater} :
    wrappedRoom deepest c info = exactRoom deepest c info ↔
      exactProduct deepest c info < 2 ^ 32 := by
  rw [wrappedRoom, exactRoom]
  omega

theorem NoWrap.rooms {c : Nat} (noWrap : NoWrap watertable deepest c) :
    watertable.map (wrappedRoom deepest c) = watertable.map (exactRoom deepest c) :=
  List.map_congr_left fun info member => wrappedRoom_eq_iff.mpr (noWrap info member)

theorem sum_toInt_bytes {α : Type} (room : α → Nat) (list : List α) :
    (list.map fun x => (room x : ℤ)).sum = (list.map room).sum := by
  induction list with
  | nil => rfl
  | cons x rest ih =>
      rw [List.map_cons, List.sum_cons, ih, List.map_cons, List.sum_cons, Nat.cast_add]

theorem step_mul_ofNat (j : Nat) : step * UInt32.ofNat j = UInt32.ofNat (step.toNat * j) := by
  rw [UInt32.ofNat_mul, UInt32.ofNat_toNat]

/-- **When `AllocateWater` returns, the table is filled at the least sufficient multiple of
the step and holds the exact bytes if and only if** no product wraps at that level, and
neither does the sum. -/
theorem water_level_exact_iff (watertable table : List PathWater) (deepest : PathWater)
    (filling step : UInt32) (last : watertable.getLast? = some deepest)
    (ascending : watertable.Pairwise fun first second => first.owd ≤ second.owd)
    (returned : allocateWater watertable filling step = some table) :
    (∃ c, ExactAt watertable deepest filling step table c) ↔
      ∃ c, LeastLevel watertable deepest filling step c ∧ NoWrap watertable deepest c ∧
        filling.toNat ≤ exactCapacity watertable deepest c % 2 ^ 32 := by
  have sorted := owd_le_of_last ascending last
  obtain ⟨j, -, -, table_eq, reached, earlier⟩ := allocateFrom_spec last returned
  rw [UInt32.le_iff_toNat_le] at reached
  constructor
  · rintro ⟨c, level, filled, bytes, sum⟩
    obtain ⟨i, rfl⟩ := level.multiple
    rw [← step_mul_ofNat] at filled
    have noWrap : NoWrap watertable deepest (step.toNat * i) := by
      intro info member
      rw [filled, bytes_raised sorted, List.map_inj_left] at bytes
      exact wrappedRoom_eq_iff.mp (Int.ofNat.inj (bytes info member))
    refine ⟨_, level, noWrap, ?_⟩
    rw [filled, waterOf_raised sorted, noWrap.rooms] at reached
    exact reached
  · rintro ⟨c, level, noWrap, whole⟩
    have enough : filling.toNat ≤ exactCapacity watertable deepest (step.toNat * j) := by
      rw [table_eq] at reached
      exact reached.trans (waterOf_raised_le sorted j)
    obtain ⟨i, le, first⟩ := exists_leastLevel enough
    obtain rfl := level.unique first
    -- the loop cannot pass the level, since the water there is exact
    have here : i = j := by
      rcases le.lt_or_eq with before | same
      · have less := earlier i (Nat.zero_le i) before
        rw [UInt32.lt_iff_toNat_lt, waterOf_raised sorted, noWrap.rooms] at less
        exact absurd whole (not_le.mpr less)
      · exact same
    subst here
    have bytes : (table.map fun info => info.byte.toInt) =
        watertable.map fun info => (exactRoom deepest (step.toNat * i) info : ℤ) := by
      rw [table_eq, bytes_raised sorted]
      exact List.map_congr_left fun info member =>
        congrArg Nat.cast (wrappedRoom_eq_iff.mpr (noWrap info member))
    refine ⟨_, level, ?_, bytes, ?_⟩
    · rw [table_eq, step_mul_ofNat]
    · rw [bytes, sum_toInt_bytes]
      exact Nat.cast_le.mpr enough

/-- Two paths of a megabit per second with delays of 0 and 20 milliseconds. -/
def megabitTable : List PathWater := [⟨1, 0, 1000000, 0⟩, ⟨2, 20, 1000000, 0⟩]

/-- The first level, which has room for 2500 bytes, does not suffice, and the second does. -/
theorem water_level_exact_megabit :
    ∃ c, ExactAt megabitTable ⟨2, 20, 1000000, 0⟩ 3000 8
      [⟨1, 0, 1000000, 3500⟩, ⟨2, 20, 1000000, 1000⟩] c := by
  refine (water_level_exact_iff megabitTable _ _ 3000 8 rfl (by decide) rfl).mpr
    ⟨8, ⟨⟨1, rfl⟩, by decide, ?_⟩, by unfold NoWrap; decide, by decide⟩
  intro i less
  change 8 * i < 8 at less
  obtain rfl : i = 0 := by omega
  decide

/-- Two paths of `MAX_BITRATE` with delays of 0 and 300 milliseconds: the water of the first
path wraps at the lowest level, which suffices already. -/
theorem wrapped_level :
    allocateWater [⟨1, 0, 16000000, 0⟩, ⟨2, 300, 16000000, 0⟩] 2060 1 =
        some [⟨1, 0, 16000000, 63129⟩, ⟨2, 300, 16000000, 0⟩] ∧
      ¬ ∃ c, ExactAt [⟨1, 0, 16000000, 0⟩, ⟨2, 300, 16000000, 0⟩] ⟨2, 300, 16000000, 0⟩ 2060 1
        [⟨1, 0, 16000000, 63129⟩, ⟨2, 300, 16000000, 0⟩] c := by
  refine ⟨rfl, ?_⟩
  rintro ⟨c, -, -, bytes, -⟩
  have first := (List.cons.inj bytes).1
  have exact_ : (63129 : ℤ) = ((300 + c - 0) * 16000000 / 8000 : ℕ) := first
  omega

end MpVideo.Schedule
