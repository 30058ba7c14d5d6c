import MpVideo.Lib.Filling
import MpVideo.Schedule.WaterLevel

/-!
# The packets follow the water

The loop over the packets takes each packet to the first path of the table that has bytes
left and removes the paths before it. In machine words this is pouring the packets into the
paths in the order of their delays (`placeAll_eq`): after `AllocateWater` the bytes are small
enough for the signed and unsigned arithmetic of the loop to be exact.

So the three schedulers respect the allocation (`dispatch_respects_allocation`): every packet
is scheduled once, a path gets a run of the packets, it is used up before the next one gets
any, and no path gets a packet after it is used up. The last path has room for all that is
left, since the water suffices for the frame.
-/

set_option autoImplicit false

namespace MpVideo.Schedule

open Filling

/-- The length of a packet. -/
def packetLen (entry : UInt32 × UInt32) : ℤ := entry.2.toNat

/-- The allocation of a path. -/
def PathWater.allocated (info : PathWater) : ℤ := info.byte.toInt

/-- The calls for the packets of one path. -/
def served (info : PathWater) (share : List (UInt32 × UInt32)) : Calls :=
  share.map fun entry => (entry.1, info.pid)

/-- The calls when each path of the table gets its share. -/
def servedAll (table : List PathWater) (shares : List (List (UInt32 × UInt32))) : Calls :=
  (table.zip shares).flatMap fun pair => served pair.1 pair.2

/-- The calls follow the allocation in the table: the packets are split into the shares of
the paths, in the order of the delays. -/
structure Respects (table : List PathWater) (packets : Packets) (calls : Calls)
    (shares : List (List (UInt32 × UInt32))) : Prop where
  once : calls.map Prod.fst = packets.keys
  ascending : table.Pairwise fun first second => first.owd ≤ second.owd
  distinct : (table.map PathWater.pid).Nodup
  calls : calls = servedAll table shares
  filled : Filled packetLen (table.map PathWater.allocated) packets.entries shares
  last : ∀ info share, table.getLast? = some info → shares.getLast? = some share →
    load packetLen share ≤ info.allocated

/-! ## The loop over the packets -/

theorem packetLen_nonneg (entry : UInt32 × UInt32) : 0 ≤ packetLen entry := Int.natCast_nonneg _

theorem load_nonneg (entries : List (UInt32 × UInt32)) : 0 ≤ load packetLen entries := by
  refine List.sum_nonneg fun len member => ?_
  obtain ⟨entry, -, rfl⟩ := List.mem_map.mp member
  exact packetLen_nonneg entry

/-- Subtracting a length from a positive number of bytes in machine words. -/
theorem toInt_byte_sub {byte : Int32} {len : UInt32} (positive : 0 < byte.toInt)
    (short : len.toNat < 2 ^ 31) :
    (byte.toUInt32 - len).toInt32.toInt = byte.toInt - len.toNat := by
  have word : len.toBitVec.toInt = len.toNat := UInt32.toInt_toInt32_of_lt short
  have bound := byte.toInt_lt
  change (byte.toBitVec - len.toBitVec).toInt = _
  rw [BitVec.toInt_sub, word]
  exact Int.bmod_eq_of_le (by change _ ≤ byte.toInt - _; omega)
    (by change byte.toInt - _ < _; omega)

theorem placeAll_nil (table : List PathWater) : placeAll [] table = [] := by
  cases table <;> rfl

/-- A path with bytes left takes the packet. -/
theorem placeAll_take {info next : PathWater} (more : 0 < info.byte) (entry : UInt32 × UInt32)
    (entries : List (UInt32 × UInt32)) (rest : List PathWater) :
    placeAll (entry :: entries) (info :: next :: rest) =
      (entry.1, info.pid) :: placeAll entries
        ({ info with byte := (info.byte.toUInt32 - entry.2).toInt32 } :: next :: rest) := by
  rw [placeAll, place, if_pos more]

/-- A path without bytes is removed. -/
theorem placeAll_skip {info next : PathWater} (none : ¬ 0 < info.byte) (entry : UInt32 × UInt32)
    (entries : List (UInt32 × UInt32)) (rest : List PathWater) :
    placeAll (entry :: entries) (info :: next :: rest) =
      placeAll (entry :: entries) (next :: rest) := by
  rw [placeAll, place, if_neg none, placeAll]

theorem placeAll_single (entries : List (UInt32 × UInt32)) (info : PathWater) :
    placeAll entries [info] = served info entries := by
  induction entries with
  | nil => rfl
  | cons entry rest ih => exact congrArg ((entry.1, info.pid) :: ·) ih

/-- A path that is not the last one takes what is poured into it. -/
theorem placeAll_pour {entries : List (UInt32 × UInt32)}
    (small : load packetLen entries < 2 ^ 31) (info next : PathWater) (rest : List PathWater) :
    placeAll entries (info :: next :: rest) =
      served info (pour packetLen info.allocated entries).1 ++
        placeAll (pour packetLen info.allocated entries).2 (next :: rest) := by
  induction entries generalizing info with
  | nil => rw [placeAll_nil, pour, placeAll_nil]; rfl
  | cons entry entries ih =>
      have one := packetLen_nonneg entry
      have others := load_nonneg entries
      rw [load_cons] at small
      rw [pour]
      by_cases more : 0 < info.byte
      · have positive : 0 < info.allocated := Int32.lt_iff_toInt_lt.mp more
        have left : ({ info with byte := (info.byte.toUInt32 - entry.2).toInt32 } :
            PathWater).allocated = info.allocated - packetLen entry :=
          toInt_byte_sub positive (by
            have len : packetLen entry = entry.2.toNat := rfl
            omega)
        rw [placeAll_take more, ih (by omega), if_pos positive, left]
        rfl
      · have empty : ¬ 0 < info.allocated :=
          fun positive => more (Int32.lt_iff_toInt_lt.mpr positive)
        rw [placeAll_skip more, if_neg empty]
        rfl

/-- **The loop over the packets pours them into the paths.** -/
theorem placeAll_eq {entries : List (UInt32 × UInt32)} {table : List PathWater}
    (some : table ≠ []) (small : load packetLen entries < 2 ^ 31) :
    placeAll entries table =
      servedAll table (pourAll packetLen (table.map PathWater.allocated) entries) := by
  induction table generalizing entries with
  | nil => exact absurd rfl some
  | cons info rest ih =>
      cases rest with
      | nil =>
          rw [placeAll_single]
          exact (List.append_nil _).symm
      | cons next rest =>
          have whole := congrArg (load packetLen)
            (pour_whole packetLen info.allocated entries)
          have taken := load_nonneg (pour packetLen info.allocated entries).1
          rw [load_append] at whole
          rw [placeAll_pour small, ih (List.cons_ne_nil _ _) (by omega)]
          rfl

/-- Every packet is scheduled once when the shares make up the frame. -/
theorem map_fst_servedAll {table : List PathWater} {shares : List (List (UInt32 × UInt32))}
    (length : shares.length = table.length) :
    (servedAll table shares).map Prod.fst = shares.flatten.map Prod.fst := by
  induction table generalizing shares with
  | nil =>
      obtain rfl := List.length_eq_zero_iff.mp length
      rfl
  | cons info rest ih =>
      cases shares with
      | nil => cases length
      | cons share shares =>
          have rest_eq := ih (Nat.succ.inj length)
          rw [servedAll, List.zip_cons_cons, List.flatMap_cons, List.map_append, List.flatten_cons,
            List.map_append]
          refine congrArg₂ _ ?_ rest_eq
          rw [served, List.map_map]
          rfl

/-! ## The allocation -/

variable {watertable table : List PathWater} {deepest : PathWater} {filling step : UInt32}

/-- What the dispatch needs of a table that `AllocateWater` returned. -/
structure Allocation (watertable table : List PathWater) (filling : UInt32) : Prop where
  pids : table.map PathWater.pid = watertable.map PathWater.pid
  owds : table.map PathWater.owd = watertable.map PathWater.owd
  bounds : ∀ info ∈ table, 0 ≤ info.allocated ∧ info.allocated ≤ 536870
  enough : (filling.toNat : ℤ) ≤ (table.map PathWater.allocated).sum

theorem allocateWater_allocation (last : watertable.getLast? = some deepest)
    (returned : allocateWater watertable filling step = some table) :
    Allocation watertable table filling := by
  obtain ⟨j, -, -, rfl, enough, -⟩ := allocateFrom_spec last returned
  generalize step * UInt32.ofNat j = c at enough
  have rooms : (raised watertable deepest c).map PathWater.allocated =
      watertable.map fun info => (info.room (deepest.owd + c) : ℤ) := by
    rw [raised, List.map_map]
    exact List.map_congr_left fun info _ => info.toInt_byte_fill _
  refine ⟨?_, ?_, ?_, ?_⟩
  · rw [raised, List.map_map]
    rfl
  · rw [raised, List.map_map]
    rfl
  · intro info member
    obtain ⟨before, -, rfl⟩ := List.mem_map.mp member
    have room := before.room_le (deepest.owd + c)
    rw [PathWater.allocated, before.toInt_byte_fill]
    omega
  · rw [rooms, sum_toInt_bytes]
    rw [UInt32.le_iff_toNat_le, toNat_waterOf, raised, List.map_map] at enough
    have same : (watertable.map ((fun info => info.byte.toUInt32.toNat) ∘
        PathWater.fill (deepest.owd + c).toInt32)) =
          watertable.map (PathWater.room (deepest.owd + c)) :=
      List.map_congr_left fun info _ => info.toNat_byte_fill _
    rw [same] at enough
    exact Nat.cast_le.mpr (enough.trans (Nat.mod_le _ _))

/-- A frame that the water suffices for is small, since there are at most 256 paths. -/
theorem Allocation.small (allocation : Allocation watertable table filling)
    (distinct : (watertable.map PathWater.pid).Nodup) : (filling.toNat : ℤ) < 2 ^ 31 := by
  have few := UInt8.length_le_of_nodup distinct
  rw [← allocation.pids, List.length_map] at few
  have sum := List.sum_le_card_nsmul (table.map PathWater.allocated) 536870 (by
    intro bytes member
    obtain ⟨info, isInfo, rfl⟩ := List.mem_map.mp member
    exact (allocation.bounds info isInfo).2)
  have enough := allocation.enough
  rw [List.length_map, nsmul_eq_mul] at sum
  omega

/-- **The loop over the packets respects what `AllocateWater` returned.** -/
theorem Allocation.respects (allocation : Allocation watertable table filling)
    (some : watertable ≠ []) (distinct : (watertable.map PathWater.pid).Nodup)
    (ascending : watertable.Pairwise fun first second => first.owd ≤ second.owd)
    {packets : Packets} (whole : (filling.toNat : ℤ) = load packetLen packets.entries) :
    ∃ shares, Respects table packets (placeAll packets.entries table) shares := by
  have nonempty : table ≠ [] := by
    rintro rfl
    exact some (List.map_eq_nil_iff.mp allocation.pids.symm)
  have small := allocation.small distinct
  have vessels : table.map PathWater.allocated ≠ [] := by simpa using nonempty
  have filled := pourAll_filled packetLen vessels packets.entries
  have frame : load packetLen packets.entries < 2 ^ 31 := whole ▸ small
  have calls := placeAll_eq nonempty frame
  refine ⟨_, ⟨?_, ?_, ?_, calls, filled, ?_⟩⟩
  · have length := filled.length
    rw [List.length_map] at length
    rw [calls, map_fst_servedAll length, filled.whole]
    rfl
  · rw [← List.pairwise_map (f := PathWater.owd) (R := (· ≤ ·))] at ascending ⊢
    rwa [allocation.owds]
  · rwa [allocation.pids]
  · intro info share deepest last
    refine pourAll_last ?_ (whole ▸ allocation.enough) ?_ last
    · intro capacity member
      obtain ⟨other, isOther, rfl⟩ := List.mem_map.mp member
      exact (allocation.bounds other isOther).1
    · rw [List.getLast?_map, deepest]
      rfl

/-! ## The schedulers -/

variable {sorter : SortBy PathWater.owd} {owd bps : UInt8 → UInt32} {pids : List UInt8}

theorem delayWaterTable_ascending :
    (delayWaterTable sorter owd bps pids).Pairwise fun first second => first.owd ≤ second.owd :=
  sorter.sorted _

theorem delayWaterTable_distinct (distinct : pids.Nodup) :
    ((delayWaterTable sorter owd bps pids).map PathWater.pid).Nodup := by
  rw [delayWaterTable, ((sorter.perm _).map PathWater.pid).nodup_iff, List.map_map]
  exact (List.map_id' (pids.filter fun pid => bps pid > 0)).symm ▸ distinct.filter _

theorem allocation_respects (distinct : pids.Nodup) {packets : Packets} {size : UInt32}
    (whole : (size.toNat : ℤ) = load packetLen packets.entries)
    (allocated : allocation sorter owd bps pids packets size = some table) :
    ∃ shares, Respects table packets (placeAll packets.entries table) shares := by
  rw [allocation] at allocated
  obtain ⟨first, -, allocated⟩ := Option.bind_eq_some_iff.mp allocated
  obtain ⟨deepest, last, allocated⟩ := Option.bind_eq_some_iff.mp allocated
  obtain ⟨step, -, allocated⟩ := Option.bind_eq_some_iff.mp allocated
  refine (allocateWater_allocation last allocated).respects ?_
    (delayWaterTable_distinct distinct) delayWaterTable_ascending whole
  intro none
  rw [none] at last
  cases last

/-- There are at least as many paths as entries of the table. -/
theorem delayWaterTable_length_le :
    (delayWaterTable sorter owd bps pids).length ≤ pids.length := by
  rw [delayWaterTable, SortBy.length_sort, List.length_map]
  exact List.length_filter_le _ _

/-- **The three schedulers respect the allocation**, whenever `AllocateWater` returns for a
frame of at least two packets and a table of at least two paths. -/
theorem dispatch_respects_allocation (sorter : SortBy PathWater.owd) (distinct : pids.Nodup)
    (packets : Packets) (many : 2 ≤ packets.size) (size : UInt32)
    (whole : (size.toNat : ℤ) = load packetLen packets.entries) (table : List PathWater) :
    (∀ rtt rate : UInt8 → UInt32,
      2 ≤ (delayWaterTable sorter (fun pid => rtt pid / 2) rate pids).length →
      allocation sorter (fun pid => rtt pid / 2) rate pids packets size = some table →
      ∃ calls shares, SFLSchedule.incomingPackets sorter rtt rate pids packets size = some calls ∧
        Respects table packets calls shares) ∧
    (∀ cost rate : UInt8 → UInt32, 2 ≤ (delayWaterTable sorter cost rate pids).length →
      allocation sorter cost rate pids packets size = some table →
      ∃ calls shares,
        WaterFillingSchedule.incomingPackets sorter cost rate pids packets size = some calls ∧
        Respects table packets calls shares) ∧
    ∀ delay rate : UInt8 → UInt64,
      2 ≤ (delayWaterTable sorter (fun pid => (delay pid).toUInt32)
        (fun pid => (rate pid).toUInt32) pids).length →
      allocation sorter (fun pid => (delay pid).toUInt32) (fun pid => (rate pid).toUInt32) pids
        packets size = some table →
      ∃ calls shares, SFLScheduleV1.incomingPackets sorter delay rate pids packets size =
          some calls ∧ Respects table packets calls shares := by
  have general : ∀ {owd bps : UInt8 → UInt32}, 2 ≤ (delayWaterTable sorter owd bps pids).length →
      2 ≤ pids.length ∧ ¬ (pids.length = 1 ∨ packetNum packets = 1) := by
    intro owd bps two
    have paths := two.trans delayWaterTable_length_le
    exact ⟨paths, not_or.mpr ⟨by omega, packetNum_ne_one many⟩⟩
  refine ⟨?_, ?_, ?_⟩
  · intro rtt rate two allocated
    obtain ⟨shares, respects⟩ := allocation_respects distinct whole allocated
    refine ⟨_, shares, ?_, respects⟩
    rw [SFLSchedule.incomingPackets, if_neg (general two).2, allocated, Option.map_some]
  · intro cost rate two allocated
    obtain ⟨shares, respects⟩ := allocation_respects distinct whole allocated
    refine ⟨_, shares, ?_, respects⟩
    rw [WaterFillingSchedule.incomingPackets, if_neg (general two).2, allocated, Option.map_some]
  · intro delay rate two allocated
    obtain ⟨shares, respects⟩ := allocation_respects distinct whole allocated
    refine ⟨_, shares, ?_, respects⟩
    have paths := (general two).1
    rcases pids with _ | ⟨first, _ | ⟨second, rest⟩⟩
    · exact absurd paths (by simp)
    · exact absurd paths (by simp)
    · refine (if_neg (packetNum_ne_one many)).trans ?_
      rw [allocated, Option.map_some]

/-- The allocation for two packets on two equal paths. -/
def megabitAllocation : List PathWater := [⟨1, 20, 1000000, 2000⟩, ⟨2, 20, 1000000, 2000⟩]

theorem allocation_megabit :
    allocation (.insertion PathWater.owd) (fun _ => 20) (fun _ => 1000000) [1, 2] twoPackets 2060 =
      some megabitAllocation := by
  have step : stepOf 1030 1000000 = some 8 := (stepOf_eq_some_iff (by decide) 8).mpr rfl
  have head : twoPackets.entries.head? = some (1, 1030) := rfl
  have paths : delayWaterTable (.insertion PathWater.owd) (fun _ => 20) (fun _ => 1000000) [1, 2] =
      [⟨1, 20, 1000000, 0⟩, ⟨2, 20, 1000000, 0⟩] := rfl
  have level : allocateWater [⟨1, 20, 1000000, 0⟩, ⟨2, 20, 1000000, 0⟩] 2060 8 =
      some megabitAllocation := rfl
  rw [allocation, head, Option.bind_some, paths, List.getLast?_cons_cons, List.getLast?_singleton,
    Option.bind_some, step, Option.bind_some, level]

theorem dispatch_respects_megabit :
    ∃ calls shares, SFLSchedule.incomingPackets (.insertion PathWater.owd) (fun _ => 40)
        (fun _ => 1000000) [1, 2] twoPackets 2060 = some calls ∧
      Respects megabitAllocation twoPackets calls shares :=
  (dispatch_respects_allocation (.insertion PathWater.owd) (show [1, 2].Nodup by decide) twoPackets
    (by decide) 2060 (by decide) megabitAllocation).1 (fun _ => 40) (fun _ => 1000000) (by decide)
    allocation_megabit

end MpVideo.Schedule
