import MpVideo.Lib.Rounding
import MpVideo.Lib.Sorting
import MpVideo.Schedule.Basic

/-!
# Water filling

`SFLSchedule`, `WaterFillingSchedule` and `SFLScheduleV1`. The paths are vessels whose
bottoms are at the height of their delays. Water is filled in, one step of the level at
a time, until it suffices for the frame, and the packets then follow the water. The
three schedulers differ in the delay they read; `GetTotalWater`, `AllocateWater` and the
loop over the packets have the same text in each.

The step is the time that the path with the largest delay takes for the first packet, in
whole milliseconds. A path that is fast enough makes it zero; the level then never rises,
and the loop ends only if the water at the lowest level suffices already
(`allocateWater_exits`).
-/

set_option autoImplicit false

namespace MpVideo.Schedule

open Rounding

/-- `path_water_t`. -/
structure PathWater where
  pid : UInt8
  owd : UInt32
  bps : UInt32
  byte : Int32 := 0

/-! ## The level -/

/-- The assignment to `byte` in the loop of `GetTotalWater`. -/
def PathWater.fill (depth : Int32) (info : PathWater) : PathWater :=
  { info with byte := ((depth.toUInt32 - info.owd) * info.bps / (8 * 1000)).toInt32 }

/-- `GetTotalWater`: the sum, and the table with the new entries. -/
def getTotalWater (watertable : List PathWater) (compensate : UInt32) :
    Option (UInt32 × List PathWater) :=
  watertable.getLast?.map fun deepest =>
    let filled := watertable.map (PathWater.fill (deepest.owd + compensate).toInt32)
    (filled.foldl (fun water info => water + info.byte.toUInt32) 0, filled)

/-- The loop of `AllocateWater`, a number of turns of it. -/
def allocateFrom (filling step : UInt32) : Nat → Nat → List PathWater → Option (List PathWater)
  | 0, _, _ => none
  | turns + 1, i, watertable =>
      (getTotalWater watertable (step * UInt32.ofNat i)).bind fun (water, watertable) =>
        if water ≥ filling then some watertable
        else allocateFrom filling step turns (i + 1) watertable

/-- `AllocateWater`. The loop has no bound of its own; its counter is an `int`, beyond
which nothing is defined. -/
def allocateWater (watertable : List PathWater) (filling step : UInt32) :
    Option (List PathWater) :=
  allocateFrom filling step (2 ^ 31) 0 watertable

/-! ## A frame -/

/-- `delay_water_table`, sorted. -/
def delayWaterTable (sorter : SortBy PathWater.owd) (owd bps : UInt8 → UInt32)
    (pids : List UInt8) : List PathWater :=
  sorter.sort ((pids.filter fun pid => bps pid > 0).map fun pid =>
    { pid, owd := owd pid, bps := bps pid })

/-- `step`, the conversion of the `double` named `ms`. -/
def stepOf (L bps : UInt32) : Option UInt32 :=
  let ms : ℚ := round 53 (round 53 (round 53 ((L.toNat : ℚ) * 8) * 1000) / bps.toNat)
  if bps = 0 ∨ 2 ^ 32 ≤ ⌊ms⌋₊ then none else some (UInt32.ofNat ⌊ms⌋₊)

/-- The table after `AllocateWater`. -/
def allocation (sorter : SortBy PathWater.owd) (owd bps : UInt8 → UInt32) (pids : List UInt8)
    (packets : Packets) (size : UInt32) : Option (List PathWater) :=
  packets.entries.head?.bind fun first =>
    (delayWaterTable sorter owd bps pids).getLast?.bind fun deepest =>
      (stepOf first.2 deepest.bps).bind fun step =>
        allocateWater (delayWaterTable sorter owd bps pids) size step

/-- The loop over the table for a packet: the path that takes it and the remaining table. -/
def place (len : UInt32) : List PathWater → Option (UInt8 × List PathWater)
  | [] => none
  | [water] => some (water.pid, [water])
  | water :: next :: rest =>
      if water.byte > 0 then
        -- The `L` that the remainder is compared with is the outer one, which is zero.
        some (water.pid,
          { water with byte := (water.byte.toUInt32 - len).toInt32 } :: next :: rest)
      else place len (next :: rest)

/-- The loop over the packets. -/
def placeAll : List (UInt32 × UInt32) → List PathWater → Calls
  | [], _ => []
  | (packetId, len) :: rest, watertable =>
      match place len watertable with
      | none => placeAll rest []
      | some (pid, watertable) => (packetId, pid) :: placeAll rest watertable

namespace SFLSchedule

/-- `SFLSchedule::IncomingPackets`. -/
def incomingPackets (sorter : SortBy PathWater.owd) (rtt rate : UInt8 → UInt32)
    (pids : List UInt8) (packets : Packets) (size : UInt32) : Option Calls :=
  if pids.length = 1 ∨ packetNum packets = 1 then roundRobin pids packets
  else (allocation sorter (fun pid => rtt pid / 2) rate pids packets size).map
    (placeAll packets.entries)

end SFLSchedule

namespace WaterFillingSchedule

/-- `WaterFillingSchedule::IncomingPackets`. -/
def incomingPackets (sorter : SortBy PathWater.owd) (cost rate : UInt8 → UInt32)
    (pids : List UInt8) (packets : Packets) (size : UInt32) : Option Calls :=
  if pids.length = 1 ∨ packetNum packets = 1 then roundRobin pids packets
  else (allocation sorter cost rate pids packets size).map (placeAll packets.entries)

end WaterFillingSchedule

namespace SFLScheduleV1

/-- `SFLScheduleV1::IncomingPackets`. Delay and rate have 64 bits and are stored in 32. -/
def incomingPackets (sorter : SortBy PathWater.owd) (aggregateDelay rate : UInt8 → UInt64)
    (pids : List UInt8) (packets : Packets) (size : UInt32) : Option Calls :=
  match pids with
  | [pid] => some (sendAllPackesToPath packets pid)
  | pids =>
      let owd := fun pid => (aggregateDelay pid).toUInt32
      let bps := fun pid => (rate pid).toUInt32
      if packetNum packets = 1 then
        (delayWaterTable sorter owd bps pids).head?.map fun water =>
          sendAllPackesToPath packets water.pid
      else (allocation sorter owd bps pids packets size).map (placeAll packets.entries)

end SFLScheduleV1

/-! ## Capacity -/

/-- The bytes of a path above its delay, the product in 32 bits. -/
def PathWater.room (depth : UInt32) (info : PathWater) : Nat :=
  ((depth - info.owd) * info.bps).toNat / 8000

/-- The bytes of all paths when the level is raised above the largest delay. -/
def capacity (watertable : List PathWater) (compensate : UInt32) : Nat :=
  (watertable.map (PathWater.room
    ((watertable.getLast?.map PathWater.owd).getD 0 + compensate))).sum

theorem PathWater.room_le (depth : UInt32) (info : PathWater) : info.room depth ≤ 536870 := by
  have small := UInt32.toNat_lt ((depth - info.owd) * info.bps)
  rw [room]
  omega

/-- The bytes that are stored are never negative. -/
theorem PathWater.toNat_byte_fill (depth : UInt32) (info : PathWater) :
    (info.fill depth.toInt32).byte.toUInt32.toNat = info.room depth := by
  rw [fill, UInt32.toUInt32_toInt32, UInt32.toUInt32_toInt32, UInt32.toNat_div, room]
  rfl

theorem toNat_total {α : Type} (bytes : α → UInt32) (list : List α) (start : UInt32)
    (bound : start.toNat + (list.map fun x => (bytes x).toNat).sum < 2 ^ 32) :
    (list.foldl (fun water x => water + bytes x) start).toNat =
      start.toNat + (list.map fun x => (bytes x).toNat).sum := by
  induction list generalizing start with
  | nil => rfl
  | cons x rest ih =>
      rw [List.map_cons, List.sum_cons, ← Nat.add_assoc] at bound ⊢
      have here : (start + bytes x).toNat = start.toNat + (bytes x).toNat := by
        rw [UInt32.toNat_add, Nat.mod_eq_of_lt (by omega)]
      rw [List.foldl_cons, ih (start + bytes x) (by rw [here]; exact bound), here]

/-- **The total of at most 256 paths does not wrap**, and the table keeps its capacity. -/
theorem getTotalWater_spec {watertable : List PathWater} (some : watertable ≠ [])
    (few : watertable.length ≤ 256) (compensate : UInt32) :
    ∃ water filled, getTotalWater watertable compensate = .some (water, filled) ∧
      water.toNat = capacity watertable compensate ∧ filled.length = watertable.length ∧
      ∀ level, capacity filled level = capacity watertable level := by
  obtain ⟨init, deepest, rfl⟩ : ∃ init deepest, watertable = init ++ [deepest] :=
    ⟨_, _, (List.dropLast_append_getLast some).symm⟩
  have last : (init ++ [deepest]).getLast? = .some deepest := by simp
  refine ⟨_, _, by rw [getTotalWater, last]; rfl, ?_, List.length_map _, ?_⟩
  · have rooms : ((init ++ [deepest]).map (PathWater.fill (deepest.owd + compensate).toInt32)).map
        (fun info => info.byte.toUInt32.toNat) =
          (init ++ [deepest]).map (PathWater.room (deepest.owd + compensate)) := by
      rw [List.map_map]
      exact List.map_congr_left fun info _ => info.toNat_byte_fill _
    have bound : ((init ++ [deepest]).map (PathWater.room (deepest.owd + compensate))).sum ≤
        (init ++ [deepest]).length * 536870 := by
      refine (List.sum_le_card_nsmul _ 536870 ?_).trans (by simp)
      intro room member
      obtain ⟨info, -, rfl⟩ := List.mem_map.mp member
      exact info.room_le _
    have fits := Nat.mul_le_mul_right 536870 few
    have sum := toNat_total (fun info : PathWater => info.byte.toUInt32)
      ((init ++ [deepest]).map (PathWater.fill (deepest.owd + compensate).toInt32)) 0
      (by rw [rooms]; change 0 + _ < _; omega)
    rw [rooms] at sum
    rw [capacity, last]
    exact sum.trans (Nat.zero_add _)
  · intro level
    rw [capacity, capacity, List.getLast?_map, last, List.map_map]
    rfl

/-! ## Termination -/

/-- **The loop ends if and only if one of its levels has the capacity.** -/
theorem allocateFrom_isSome_iff {watertable : List PathWater} (some : watertable ≠ [])
    (few : watertable.length ≤ 256) (filling step : UInt32) (turns i : Nat) :
    (∃ table, allocateFrom filling step turns i watertable = .some table) ↔
      ∃ j, i ≤ j ∧ j < i + turns ∧
        filling.toNat ≤ capacity watertable (step * UInt32.ofNat j) := by
  induction turns generalizing i watertable with
  | zero =>
      refine iff_of_false (fun ⟨_, ends⟩ => nomatch ends) ?_
      rintro ⟨j, above, below, -⟩
      omega
  | succ turns ih =>
      obtain ⟨water, filled, total, sum, length, same⟩ :=
        getTotalWater_spec some few (step * UInt32.ofNat i)
      have nonempty : filled ≠ [] := by
        rw [← List.length_pos_iff, length]
        exact List.length_pos_iff.mpr some
      rw [allocateFrom, total, Option.bind_some]
      dsimp only
      by_cases enough : water ≥ filling
      · rw [if_pos enough]
        refine iff_of_true ⟨filled, rfl⟩ ⟨i, le_refl i, by omega, ?_⟩
        rw [← sum]
        exact UInt32.le_iff_toNat_le.mp enough
      · rw [if_neg enough, ih nonempty (length ▸ few)]
        simp only [same]
        constructor
        · rintro ⟨j, above, below, reached⟩
          exact ⟨j, by omega, by omega, reached⟩
        · rintro ⟨j, above, below, reached⟩
          refine ⟨j, ?_, by omega, reached⟩
          refine lt_of_le_of_ne above fun now => enough (UInt32.le_iff_toNat_le.mpr ?_)
          rw [sum, now]
          exact reached

/-- The step is the exact quotient, as long as it fits 32 bits. -/
theorem stepOf_eq_some_iff {L bps : UInt32} (rated : bps ≠ 0) (step : UInt32) :
    stepOf L bps = some step ↔ step.toNat = 8000 * L.toNat / bps.toNat := by
  have length := UInt32.toNat_lt L
  have positive : 0 < bps.toNat := Nat.pos_of_ne_zero fun zero => rated (UInt32.toNat_inj.mp zero)
  have product : round 53 (round 53 ((L.toNat : ℚ) * 8) * 1000) = (8000 * L.toNat : ℕ) := by
    have eight : (L.toNat : ℚ) * 8 = (8 * L.toNat : ℕ) := by push_cast; ring
    have thousand : ((8 * L.toNat : ℕ) : ℚ) * 1000 = (8000 * L.toNat : ℕ) := by push_cast; ring
    rw [eight, round_of_lt (by omega), thousand, round_of_lt (by omega)]
  have quotient : ⌊round 53 (((8000 * L.toNat : ℕ) : ℚ) / bps.toNat)⌋₊ =
      8000 * L.toNat / bps.toNat :=
    floor_round_div positive (by omega)
  rw [stepOf, product, quotient]
  split_ifs with undefined
  · apply iff_of_false (fun defined => nomatch defined)
    intro same
    have small := UInt32.toNat_lt step
    rw [same] at small
    exact absurd small (not_lt.mpr (undefined.resolve_left rated))
  · obtain ⟨-, fits⟩ := not_or.mp undefined
    rw [Option.some.injEq, ← UInt32.toNat_inj, UInt32.toNat_ofNat', Nat.mod_eq_of_lt (not_le.mp fits)]
    exact eq_comm

/-- What is enough for the loop: the step fits 32 bits, and either the water suffices at once,
or the step is positive and the path with the largest delay can take the filling alone. -/
structure LevelReached (watertable : List PathWater) (deepest : PathWater) (L filling : UInt32) :
    Prop where
  stepFits : 8000 * L.toNat < 2 ^ 32 * deepest.bps.toNat
  level : filling.toNat ≤ capacity watertable 0 ∨
    deepest.bps.toNat ≤ 8000 * L.toNat ∧ filling.toNat + L.toNat ≤ 536870

/-- A step that is positive and short raises the level of the path with the largest delay
to less than a step below the 32-bit limit. -/
theorem exists_level {watertable : List PathWater} {deepest : PathWater}
    (last : watertable.getLast? = some deepest) (rated : deepest.bps ≠ 0) {L filling step : UInt32}
    (isStep : step.toNat = 8000 * L.toNat / deepest.bps.toNat)
    (slow : deepest.bps.toNat ≤ 8000 * L.toNat) (fits : filling.toNat + L.toNat ≤ 536870) :
    ∃ i < 2 ^ 31, filling.toNat ≤ capacity watertable (step * UInt32.ofNat i) := by
  have positive : 0 < deepest.bps.toNat :=
    Nat.pos_of_ne_zero fun zero => rated (UInt32.toNat_inj.mp zero)
  have one : 0 < step.toNat := by
    rw [isStep]
    exact Nat.div_pos slow positive
  -- What one step adds to the product of level and rate.
  have atMost : step.toNat * deepest.bps.toNat ≤ 8000 * L.toNat := by
    rw [isStep]
    exact Nat.div_mul_le_self _ _
  have atLeast : 2 ≤ step.toNat * deepest.bps.toNat := by
    have above := Nat.lt_mul_div_succ (8000 * L.toNat) positive
    rw [← isStep, Nat.mul_add_one, Nat.mul_comm deepest.bps.toNat] at above
    have once := Nat.le_mul_of_pos_left deepest.bps.toNat one
    omega
  refine ⟨(2 ^ 32 - 1) / (step.toNat * deepest.bps.toNat), ?_, ?_⟩
  · apply (Nat.div_lt_iff_lt_mul (by omega)).mpr
    have double := Nat.mul_le_mul_left (2 ^ 31) atLeast
    omega
  · have below := Nat.mul_div_le (2 ^ 32 - 1) (step.toNat * deepest.bps.toNat)
    have above := Nat.lt_mul_div_succ (2 ^ 32 - 1)
      (show 0 < step.toNat * deepest.bps.toNat by omega)
    rw [Nat.mul_add_one] at above
    generalize (2 ^ 32 - 1) / (step.toNat * deepest.bps.toNat) = i at below above ⊢
    have product : (step * UInt32.ofNat i * deepest.bps).toNat =
        step.toNat * deepest.bps.toNat * i := by
      rw [UInt32.toNat_mul, UInt32.toNat_mul, UInt32.toNat_ofNat', Nat.mul_mod_mod, Nat.mod_mul_mod,
        Nat.mul_right_comm, Nat.mod_eq_of_lt (by omega)]
    have room : deepest.room (deepest.owd + step * UInt32.ofNat i) =
        step.toNat * deepest.bps.toNat * i / 8000 := by
      rw [PathWater.room, UInt32.add_comm, UInt32.add_sub_cancel, product]
    have part : deepest.room (deepest.owd + step * UInt32.ofNat i) ≤
        capacity watertable (step * UInt32.ofNat i) := by
      rw [capacity, last]
      exact List.single_le_sum (fun _ _ => Nat.zero_le _) _
        (List.mem_map_of_mem (List.mem_of_getLast? last))
    omega

/-- **AllocateWater ends when the level is reached.** -/
theorem LevelReached.isSome {watertable : List PathWater} {deepest : PathWater}
    (last : watertable.getLast? = some deepest) (few : watertable.length ≤ 256)
    (rated : deepest.bps ≠ 0) {L filling : UInt32}
    (reached : LevelReached watertable deepest L filling) :
    ∃ table, (stepOf L deepest.bps).bind (allocateWater watertable filling) = some table := by
  have positive : 0 < deepest.bps.toNat :=
    Nat.pos_of_ne_zero fun zero => rated (UInt32.toNat_inj.mp zero)
  have nonempty : watertable ≠ [] := by
    rintro rfl
    cases last
  have fits : 8000 * L.toNat / deepest.bps.toNat < 2 ^ 32 :=
    (Nat.div_lt_iff_lt_mul positive).mpr reached.stepFits
  have isStep : (UInt32.ofNat (8000 * L.toNat / deepest.bps.toNat)).toNat =
      8000 * L.toNat / deepest.bps.toNat := by
    rw [UInt32.toNat_ofNat', Nat.mod_eq_of_lt fits]
  rw [(stepOf_eq_some_iff rated _).mpr isStep, Option.bind_some, allocateWater,
    allocateFrom_isSome_iff nonempty few]
  rcases reached.level with now | ⟨slow, alone⟩
  · refine ⟨0, le_refl 0, by decide, ?_⟩
    rw [show UInt32.ofNat 0 = 0 from rfl, UInt32.mul_zero]
    exact now
  · obtain ⟨i, below, enough⟩ := exists_level last rated isStep slow alone
    exact ⟨i, Nat.zero_le i, by omega, enough⟩

variable {sorter : SortBy PathWater.owd} {owd bps : UInt8 → UInt32} {pids : List UInt8}
  {packets : Packets}

/-- The first packet, which sets the step together with the path that the sorting puts last. -/
def OnFrame (holds : List PathWater → PathWater → UInt32 → Prop) (sorter : SortBy PathWater.owd)
    (owd bps : UInt8 → UInt32) (pids : List UInt8) (packets : Packets) : Prop :=
  ∃ first ∈ packets.entries.head?, ∃ deepest ∈ (delayWaterTable sorter owd bps pids).getLast?,
    holds (delayWaterTable sorter owd bps pids) deepest first.2

/-- The inputs for which the level is reached. -/
def Fills (sorter : SortBy PathWater.owd) (owd bps : UInt8 → UInt32) (pids : List UInt8)
    (packets : Packets) (filling : UInt32) : Prop :=
  OnFrame (LevelReached · · · filling) sorter owd bps pids packets

end MpVideo.Schedule
