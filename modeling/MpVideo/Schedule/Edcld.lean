import MpVideo.Schedule.Basic
import MpVideo.Schedule.WeightRoundRobin

/-!
# Dispatch of the EDCLD schedulers

`WeightRoundRobinSchedule` of `edcldschedule.cc` and `edcld_v1.cc`, in exact
arithmetic. The shares of the paths are multiplied by the number of packets and
rounded down, each for itself, and the results are the weights of a round robin.

When the shares are so small that each rounds to zero, nothing is left and the round
robin divides by the number of its servers, which is zero. Otherwise every packet is
dispatched (`weightRoundRobinSchedule_iff`).
-/

set_option autoImplicit false

namespace MpVideo.Schedule

/-- The map `path_packets`: the share of each path in the packets, rounded down. The
keys are path ids, which the source widens. -/
def pathPackets (packetNum : UInt32) (lambda : SortedMap UInt8 ℚ) : SortedMap UInt8 UInt32 :=
  lambda.filterMapVal fun psi =>
    if psi > 0 then
      let packets := UInt32.ofNat ⌊(packetNum.toNat : ℚ) * psi⌋₊
      if packets > 0 then some packets else none
    else none

/-- The body of `WeightRoundRobinSchedule`, which is the same in both schedulers: the
calls of `PacketSchedule`. The conversion of a number that does not fit 32 bits is
undefined (`none`). -/
def dispatchByShares (packets : Packets) (lambda : SortedMap UInt8 ℚ) : Option Calls :=
  if ∃ entry ∈ lambda.entries, ((packetNum packets).toNat : ℚ) * entry.2 ≥ 2 ^ 32 then none
  else
    WeightRoundRobin.dispatch packets.keys
      (WeightRoundRobin.ofWeights (pathPackets (packetNum packets) lambda))

namespace EDCLDSchedule

/-- `EDCLDSchedule::WeightRoundRobinSchedule`. -/
def weightRoundRobinSchedule : Packets → SortedMap UInt8 ℚ → Option Calls :=
  dispatchByShares

end EDCLDSchedule

namespace EDCLDScheduleV1

/-- `EDCLDScheduleV1::WeightRoundRobinSchedule`. -/
def weightRoundRobinSchedule : Packets → SortedMap UInt8 ℚ → Option Calls :=
  dispatchByShares

end EDCLDScheduleV1

/-! ## Shares and weights -/

/-- A psi table: its keys are registered, and its entries are shares of a whole. -/
structure Distribution (registered : List UInt8) (psi : SortedMap UInt8 ℚ) : Prop where
  keys : ∀ pid ∈ psi.keys, pid ∈ registered
  nonneg : ∀ entry ∈ psi.entries, 0 ≤ entry.2
  total : (psi.entries.map Prod.snd).sum = 1

theorem Distribution.le_one {registered : List UInt8} {psi : SortedMap UInt8 ℚ}
    (distribution : Distribution registered psi) {entry : UInt8 × ℚ}
    (member : entry ∈ psi.entries) : entry.2 ≤ 1 := by
  rw [← distribution.total]
  refine List.single_le_sum ?_ _ (List.mem_map_of_mem member)
  intro share isShare
  obtain ⟨other, isEntry, rfl⟩ := List.mem_map.mp isShare
  exact distribution.nonneg other isEntry

/-- A share of the packets fits 32 bits. -/
theorem Distribution.inRange {registered : List UInt8} {psi : SortedMap UInt8 ℚ}
    (distribution : Distribution registered psi) (n : UInt32) :
    ¬ ∃ entry ∈ psi.entries, (n.toNat : ℚ) * entry.2 ≥ 2 ^ 32 := by
  rintro ⟨entry, member, large⟩
  have small : (n.toNat : ℚ) < 2 ^ 32 := by exact_mod_cast UInt32.toNat_lt n
  have share : (n.toNat : ℚ) * entry.2 ≤ n.toNat :=
    mul_le_of_le_one_right (Nat.cast_nonneg _) (distribution.le_one member)
  exact absurd (lt_of_le_of_lt share small) (not_lt_of_ge large)

/-- An entry becomes a positive weight if its share of the packets is at least one. -/
theorem Distribution.pathPackets_pos {registered : List UInt8} {psi : SortedMap UInt8 ℚ}
    (distribution : Distribution registered psi) (n : UInt32) :
    (∃ entry ∈ (pathPackets n psi).entries, 0 < entry.2) ↔
      ∃ entry ∈ psi.entries, 1 ≤ (n.toNat : ℚ) * entry.2 := by
  have positive : ∀ entry ∈ psi.entries,
      (0 < UInt32.ofNat ⌊(n.toNat : ℚ) * entry.2⌋₊ ↔ 1 ≤ (n.toNat : ℚ) * entry.2) := by
    intro entry member
    have small : ⌊(n.toNat : ℚ) * entry.2⌋₊ < 2 ^ 32 := by
      apply (Nat.floor_lt (mul_nonneg (Nat.cast_nonneg _) (distribution.nonneg entry member))).mpr
      exact_mod_cast not_le.mp fun large => distribution.inRange n ⟨entry, member, large⟩
    rw [UInt32.lt_iff_toNat_lt, UInt32.toNat_ofNat', Nat.mod_eq_of_lt small]
    exact Nat.floor_pos
  constructor
  · rintro ⟨⟨pid, weight⟩, member, heavy⟩
    obtain ⟨share, isShare, defined⟩ := SortedMap.mem_filterMapVal.mp member
    refine ⟨(pid, share), isShare, (positive _ isShare).mp ?_⟩
    dsimp only at defined
    split_ifs at defined
    obtain rfl := Option.some.inj defined
    exact heavy
  · rintro ⟨⟨pid, share⟩, member, enough⟩
    have heavy := (positive _ member).mpr enough
    have some : share > 0 := by
      by_contra none
      have atMost : (n.toNat : ℚ) * share ≤ 0 :=
        mul_nonpos_of_nonneg_of_nonpos (Nat.cast_nonneg _) (not_lt.mp none)
      exact absurd (le_trans enough atMost) (by norm_num)
    refine ⟨(pid, UInt32.ofNat ⌊(n.toNat : ℚ) * share⌋₊),
      SortedMap.mem_filterMapVal.mpr ⟨share, member, ?_⟩, heavy⟩
    rw [if_pos some]
    exact if_pos heavy

/-- Only positive shares become weights. -/
theorem pathPackets_find? {n : UInt32} {psi : SortedMap UInt8 ℚ} {pid : UInt8} {weight : UInt32}
    (found : (pathPackets n psi).find? pid = some weight) :
    ∃ share, psi.find? pid = some share ∧ 0 < share := by
  obtain ⟨share, member, defined⟩ :=
    SortedMap.mem_filterMapVal.mp (SortedMap.find?_eq_some_iff.mp found)
  refine ⟨share, SortedMap.find?_eq_some_iff.mpr member, ?_⟩
  by_contra none
  rw [if_neg none] at defined
  cases defined

/-! ## Dispatch -/

/-- The round robin has a server, and every packet is dispatched once, to a path with a
positive share. -/
def DispatchesByShares (schedule : Packets → SortedMap UInt8 ℚ → Option Calls)
    (packets : Packets) (psi : SortedMap UInt8 ℚ) : Prop :=
  (WeightRoundRobin.ofWeights (pathPackets (packetNum packets) psi)).servers ≠ [] ∧
    ∃ calls, schedule packets psi = some calls ∧
      Schedules packets (fun pid => ∃ share, psi.find? pid = some share ∧ 0 < share) calls

theorem dispatchByShares_iff {registered : List UInt8} {psi : SortedMap UInt8 ℚ}
    (distribution : Distribution registered psi) {packets : Packets} (some : 0 < packets.size) :
    DispatchesByShares dispatchByShares packets psi ↔
      ∃ entry ∈ psi.entries, 1 ≤ ((packetNum packets).toNat : ℚ) * entry.2 := by
  have ids : packets.keys ≠ [] := List.ne_nil_of_length_pos (by rwa [SortedMap.length_keys])
  have defined : dispatchByShares packets psi = WeightRoundRobin.dispatch packets.keys
      (WeightRoundRobin.ofWeights (pathPackets (packetNum packets) psi)) :=
    if_neg (distribution.inRange _)
  rw [← distribution.pathPackets_pos, DispatchesByShares, defined]
  rcases WeightRoundRobin.dispatch_ofWeights ids (pathPackets (packetNum packets) psi) with
    ⟨positive, calls, dispatched, keys, served⟩ | ⟨zero, noServers, undefined⟩
  · refine iff_of_true
      ⟨?_, calls, dispatched, ⟨keys, ?_⟩⟩ positive
    · intro noServers
      rw [WeightRoundRobin.dispatch_noServers ids noServers] at dispatched
      cases dispatched
    · intro call isCall
      obtain ⟨weight, found, -⟩ := served call isCall
      exact pathPackets_find? found
  · apply iff_of_false (fun dispatches => dispatches.1 noServers)
    rintro ⟨entry, member, positive⟩
    exact absurd (zero entry member) (ne_of_gt positive)

/-- **Both EDCLD schedulers dispatch every packet once if and only if some path's share
of the packets is at least one.** -/
theorem weightRoundRobinSchedule_iff {registered : List UInt8} {psi : SortedMap UInt8 ℚ}
    (distribution : Distribution registered psi) {packets : Packets} (many : 2 ≤ packets.size) :
    (DispatchesByShares EDCLDSchedule.weightRoundRobinSchedule packets psi ↔
        ∃ entry ∈ psi.entries, 1 ≤ ((packetNum packets).toNat : ℚ) * entry.2) ∧
      (DispatchesByShares EDCLDScheduleV1.weightRoundRobinSchedule packets psi ↔
        ∃ entry ∈ psi.entries, 1 ≤ ((packetNum packets).toNat : ℚ) * entry.2) :=
  ⟨dispatchByShares_iff distribution (by omega), dispatchByShares_iff distribution (by omega)⟩

/-- Two paths with equal shares. -/
def halves : SortedMap UInt8 ℚ := ⟨[(1, 1 / 2), (2, 1 / 2)], by decide⟩

/-- Three paths with equal shares. -/
def thirds : SortedMap UInt8 ℚ := ⟨[(1, 1 / 3), (2, 1 / 3), (3, 1 / 3)], by decide⟩

theorem distribution_halves : Distribution [1, 2] halves where
  keys := fun _ member => member
  nonneg := by simp [halves]
  total := by norm_num [halves]

theorem distribution_thirds : Distribution [1, 2, 3] thirds where
  keys := fun _ member => member
  nonneg := by simp [thirds]
  total := by norm_num [thirds]

theorem weightRoundRobinSchedule_halves :
    DispatchesByShares EDCLDSchedule.weightRoundRobinSchedule twoPackets halves :=
  (weightRoundRobinSchedule_iff distribution_halves (by decide)).1.mpr
    ⟨(1, 1 / 2), List.mem_cons_self, by norm_num [packetNum, twoPackets, SortedMap.size]⟩

/-- Each share of two packets among three paths is below one, and no server is left. -/
theorem thirds_dropped : Distribution [1, 2, 3] thirds ∧ 2 ≤ twoPackets.size ∧
    ¬ DispatchesByShares EDCLDSchedule.weightRoundRobinSchedule twoPackets thirds ∧
    ¬ DispatchesByShares EDCLDScheduleV1.weightRoundRobinSchedule twoPackets thirds := by
  have dropped : ¬ DispatchesByShares dispatchByShares twoPackets thirds := by
    rw [dispatchByShares_iff distribution_thirds (by decide)]
    norm_num [thirds, packetNum, twoPackets, SortedMap.size]
  exact ⟨distribution_thirds, by decide, dropped, dropped⟩

end MpVideo.Schedule
