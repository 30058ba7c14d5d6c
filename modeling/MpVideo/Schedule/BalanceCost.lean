import MpVideo.Lib.Rounding
import MpVideo.Schedule.GreedyDispatch

/-!
# Dispatch by cost

`BalanceCostSchedule` of `balancecostschedule.cc`. The cost of a path is the delay of its queue
and half of its round-trip time, computed in single precision. `GetCost` uses the rate of the
path and `GetSmoothCost` the smooth rate.

The loop over the paths begins with `GetCost` of the first one, also when the other ones are
compared by `GetSmoothCost`. So every packet goes to a path of least smooth cost if and only
if the two costs of the first path compare alike with those of the others
(`incomingPackets_iff_cheapest`).
-/

set_option autoImplicit false

namespace MpVideo.Schedule

open Rounding Sender

/-- What a path knows about its rates and its round-trip time. -/
structure PathReadings extends PathRates where
  rtt : UInt32

namespace BalanceCostSchedule

/-- `expect_pending`, in single precision. -/
def expectPending (pendingLen rate : UInt32) : ℚ :=
  if rate = 0 then 0
  else
    round 24 (round 24 (round 24 (round 24 (pendingLen.toNat : ℚ) * 8) * 1000) /
      round 24 (rate.toNat : ℚ))

/-- `temp` without its fraction. -/
def costValue (pendingLen rate rtt : UInt32) : Nat :=
  ⌊round 24 (expectPending pendingLen rate + round 24 ((rtt / 2).toNat : ℚ))⌋₊

/-- The conversion to `cost`, which is undefined beyond 32 bits. -/
def toCost (value : Nat) : Option UInt32 :=
  if value < 2 ^ 32 then some (UInt32.ofNat value) else none

/-- The cost that a cost type asks for, without a bound. -/
def configured (costType : CostType) (info : UInt8 → PathReadings) (sender : MultipathSender)
    (pid : UInt8) : Nat :=
  costValue (pendingLen sender pid) ((info pid).ofCostType costType) (info pid).rtt

/-- `GetCost`. -/
def getCost (readings : PathReadings) (path : PathSender) : Option UInt32 :=
  toCost (costValue path.pendingLen readings.rate readings.rtt)

/-- `GetSmoothCost`. -/
def getSmoothCost (readings : PathReadings) (path : PathSender) : Option UInt32 :=
  toCost (costValue path.pendingLen readings.sRate readings.rtt)

/-- `temp_cost` in the loop over `pathrate`. -/
def tempCost (costType : CostType) (info : UInt8 → PathReadings) (sender : MultipathSender)
    (entry : UInt8 × UInt32) : Option UInt32 :=
  (sender.usablePath.find? entry.1).bind fun path =>
    match costType with
    | .cIntant => getCost (info entry.1) path
    | .cSmooth => getSmoothCost (info entry.1) path

/-- The loop over `pathrate`. The first path is costed before it. -/
def choose (costType : CostType) (info : UInt8 → PathReadings) (pathrate : SortedMap UInt8 UInt32)
    (sender : MultipathSender) : Option UInt8 :=
  match pathrate.entries with
  | [] => none
  | first :: rest =>
      (sender.usablePath.find? first.1).bind fun path =>
        (getCost (info first.1) path).bind fun minCost =>
          (Least.scan? (tempCost costType info sender) (first, minCost) rest).map fun best =>
            best.1.1

/-- The rates that the first loop reads. -/
def rates (costType : CostType) (info : UInt8 → PathReadings) (pid : UInt8) : UInt32 :=
  (info pid).ofCostType costType

/-- `BalanceCostSchedule::IncomingPackets`. -/
def incomingPackets (costType : CostType) (info : UInt8 → PathReadings) (pids : List UInt8)
    (packets : Packets) (sender : MultipathSender) : Option (MultipathSender × Calls) :=
  if Unsplit pids packets then
    (roundRobin pids packets).map fun calls => (afterCalls calls sender, calls)
  else if Resolvable pids sender then
    let (pathrate, _) := collectRates (rates costType info) pids
    (dispatcher (choose costType info pathrate)).run sender packets.keys
  else none

variable {costType : CostType} {info : UInt8 → PathReadings} {pids : List UInt8}
  {packets : Packets} {sender : MultipathSender}

/-- A registered path with a positive rate. -/
def Rated (costType : CostType) (info : UInt8 → PathReadings) (pids : List UInt8) (pid : UInt8) :
    Prop :=
  pid ∈ pids ∧ rates costType info pid ≠ 0

/-- A path with a positive rate and a least cost of the configured type. -/
def Cheapest (costType : CostType) (info : UInt8 → PathReadings) (pids : List UInt8)
    (sender : MultipathSender) (pid : UInt8) : Prop :=
  Rated costType info pids pid ∧ ∀ other, Rated costType info pids other →
    configured costType info sender pid ≤ configured costType info sender other

/-- What the choice depends on: the costs that are computed have 32 bits, and `GetCost` of the
first path is below, or above, the costs of the others if its configured cost is. -/
structure Alike (costType : CostType) (info : UInt8 → PathReadings) (pids : List UInt8)
    (sender : MultipathSender) (first : UInt8) : Prop where
  minCost : configured .cIntant info sender first < 2 ^ 32
  tempCost : ∀ other, Rated costType info pids other → other ≠ first →
    configured costType info sender other < 2 ^ 32
  below : (∀ other, Rated costType info pids other → other ≠ first →
      configured costType info sender first < configured costType info sender other) →
    ∀ other, Rated costType info pids other → other ≠ first →
      configured .cIntant info sender first ≤ configured costType info sender other
  above : (∃ other, Rated costType info pids other ∧ other ≠ first ∧
      configured costType info sender other < configured costType info sender first) →
    ∃ other, Rated costType info pids other ∧ other ≠ first ∧
      configured costType info sender other < configured .cIntant info sender first

/-- The first path of `pathrate`. -/
def First (costType : CostType) (info : UInt8 → PathReadings) (pids : List UInt8) (pid : UInt8) :
    Prop :=
  Rated costType info pids pid ∧ ∀ other, Rated costType info pids other → pid ≤ other

/-- The entries of `pathrate` are the first path and the others. -/
theorem entries_cons (distinct : pids.Nodup) (some : ∃ pid, Rated costType info pids pid) :
    ∃ first rest, (collectRates (rates costType info) pids).1.entries = first :: rest ∧
      First costType info pids first.1 ∧
      ∀ pid, (∃ entry ∈ rest, entry.1 = pid) ↔ Rated costType info pids pid ∧ pid ≠ first.1 := by
  have rated : ∀ pid, (∃ entry ∈ (collectRates (rates costType info) pids).1.entries,
      entry.1 = pid) ↔ Rated costType info pids pid := by
    intro pid
    rw [← List.mem_map]
    exact mem_keys_collectRates distinct
  have sorted := (collectRates (rates costType info) pids).1.sorted
  cases entries : (collectRates (rates costType info) pids).1.entries with
  | nil =>
      obtain ⟨pid, isRated⟩ := some
      obtain ⟨entry, member, -⟩ := (rated pid).mpr isRated
      rw [entries] at member
      cases member
  | cons first rest =>
      rw [entries] at rated sorted
      obtain ⟨ahead, -⟩ := List.pairwise_cons.mp sorted
      refine ⟨first, rest, rfl, ⟨(rated _).mp ⟨first, List.mem_cons_self, rfl⟩, ?_⟩, ?_⟩
      · intro other isRated
        obtain ⟨entry, member, rfl⟩ := (rated other).mpr isRated
        rcases List.mem_cons.mp member with rfl | later
        · exact le_rfl
        · exact (ahead entry later).le
      · intro pid
        rw [← rated pid]
        constructor
        · rintro ⟨entry, later, rfl⟩
          exact ⟨⟨entry, List.mem_cons_of_mem first later, rfl⟩, (ahead entry later).ne'⟩
        · rintro ⟨⟨entry, member, rfl⟩, differ⟩
          rcases List.mem_cons.mp member with rfl | later
          · exact absurd rfl differ
          · exact ⟨entry, later, rfl⟩

/-! ## The choice -/

theorem toCost_eq_some {value : Nat} {cost : UInt32} (defined : toCost value = some cost) :
    value < 2 ^ 32 := by
  rw [toCost] at defined
  split_ifs at defined with small
  exact small

theorem toCost_of_lt {value : Nat} (small : value < 2 ^ 32) :
    toCost value = some (UInt32.ofNat value) := if_pos small

/-- Costs of 32 bits compare as numbers. -/
theorem ofNat_le_ofNat_iff {first second : Nat} (firstSmall : first < 2 ^ 32)
    (secondSmall : second < 2 ^ 32) :
    UInt32.ofNat first ≤ UInt32.ofNat second ↔ first ≤ second := by
  rw [UInt32.ofNat_le_iff firstSmall, UInt32.toNat_ofNat', Nat.mod_eq_of_lt secondSmall]

/-- What the loop computes for a path. -/
theorem tempCost_eq {entry : UInt8 × UInt32} {path : PathSender}
    (found : sender.usablePath.find? entry.1 = some path) :
    tempCost costType info sender entry = toCost (configured costType info sender entry.1) := by
  rw [tempCost, found, Option.bind_some, configured, pendingLen, found]
  cases costType <;> rfl

theorem getCost_eq {pid : UInt8} {path : PathSender}
    (found : sender.usablePath.find? pid = some path) :
    getCost (info pid) path = toCost (configured .cIntant info sender pid) := by
  rw [getCost, configured, pendingLen, found]
  rfl

/-- The choice is only defined if all costs are. -/
theorem defined_of_choose (distinct : pids.Nodup) (resolvable : Resolvable pids sender)
    {first pid : UInt8} (isFirst : First costType info pids first)
    (chosen : choose costType info (collectRates (rates costType info) pids).1 sender = some pid) :
    configured .cIntant info sender first < 2 ^ 32 ∧
      ∀ other, Rated costType info pids other → other ≠ first →
        configured costType info sender other < 2 ^ 32 := by
  obtain ⟨front, rest, entries, frontFirst, others⟩ := entries_cons distinct ⟨first, isFirst.1⟩
  obtain rfl : front.1 = first :=
    le_antisymm (frontFirst.2 first isFirst.1) (isFirst.2 front.1 frontFirst.1)
  rw [choose, entries] at chosen
  obtain ⟨path, found, costed⟩ := Option.bind_eq_some_iff.mp chosen
  obtain ⟨minCost, known, scanned⟩ := Option.bind_eq_some_iff.mp costed
  obtain ⟨best, ends, -⟩ := Option.map_eq_some_iff.mp scanned
  rw [getCost_eq found] at known
  refine ⟨toCost_eq_some known, fun other rated differ => ?_⟩
  obtain ⟨entry, later, rfl⟩ := (others other).mpr ⟨rated, differ⟩
  obtain ⟨path, found⟩ := resolvable entry.1 rated.1
  obtain ⟨cost, known⟩ := Least.defined_of_scan? ends entry later
  rw [tempCost_eq found] at known
  exact toCost_eq_some known

/-- **What the loop chooses**: the first path, if no other one costs less, or else one of the
others that costs least. -/
theorem choose_cases (distinct : pids.Nodup) (resolvable : Resolvable pids sender)
    {first : UInt8} (isFirst : First costType info pids first)
    (minCost : configured .cIntant info sender first < 2 ^ 32)
    (costs : ∀ other, Rated costType info pids other → other ≠ first →
      configured costType info sender other < 2 ^ 32) :
    ∃ pid, choose costType info (collectRates (rates costType info) pids).1 sender = some pid ∧
      (pid = first ∧ (∀ other, Rated costType info pids other → other ≠ first →
          configured .cIntant info sender first ≤ configured costType info sender other) ∨
        Rated costType info pids pid ∧ pid ≠ first ∧
          configured costType info sender pid < configured .cIntant info sender first ∧
          ∀ other, Rated costType info pids other → other ≠ first →
            configured costType info sender pid ≤ configured costType info sender other) := by
  obtain ⟨front, rest, entries, frontFirst, others⟩ := entries_cons distinct ⟨first, isFirst.1⟩
  obtain rfl : front.1 = first :=
    le_antisymm (frontFirst.2 first isFirst.1) (isFirst.2 front.1 frontFirst.1)
  obtain ⟨path, found⟩ := resolvable front.1 isFirst.1.1
  have rated : ∀ entry ∈ rest, Rated costType info pids entry.1 ∧ entry.1 ≠ front.1 :=
    fun entry later => (others entry.1).mp ⟨entry, later, rfl⟩
  have known : ∀ entry ∈ rest, tempCost costType info sender entry =
      some (UInt32.ofNat (configured costType info sender entry.1)) := by
    intro entry later
    obtain ⟨path, found⟩ := resolvable entry.1 (rated entry later).1.1
    rw [tempCost_eq found]
    exact toCost_of_lt (costs entry.1 (rated entry later).1 (rated entry later).2)
  rw [choose, entries]
  dsimp only
  rw [found, Option.bind_some, getCost_eq found, toCost_of_lt minCost, Option.bind_some,
    Least.scan?_of_defined known, Option.map_some]
  refine ⟨_, rfl, ?_⟩
  have least := fun entry (later : entry ∈ rest) => Least.scan_le
    (fun entry : UInt8 × UInt32 => UInt32.ofNat (configured costType info sender entry.1)) later
    (front, UInt32.ofNat (configured .cIntant info sender front.1))
  rcases Least.scan_cases
    (fun entry : UInt8 × UInt32 => UInt32.ofNat (configured costType info sender entry.1))
    (front, UInt32.ofNat (configured .cIntant info sender front.1)) rest with
    ⟨same, stays⟩ | ⟨entry, later, same, less⟩
  · rw [same]
    refine .inl ⟨rfl, fun other isRated differ => ?_⟩
    obtain ⟨entry, later, rfl⟩ := (others other).mpr ⟨isRated, differ⟩
    exact (ofNat_le_ofNat_iff minCost (costs entry.1 isRated differ)).mp (stays entry later)
  · obtain ⟨isRated, differ⟩ := rated entry later
    have small := costs entry.1 isRated differ
    rw [same] at least ⊢
    refine .inr ⟨isRated, differ, ?_, fun other otherRated otherDiffer => ?_⟩
    · exact not_le.mp (mt (ofNat_le_ofNat_iff minCost small).mpr (not_le.mpr less))
    · obtain ⟨behind, isBehind, rfl⟩ := (others other).mpr ⟨otherRated, otherDiffer⟩
      exact (ofNat_le_ofNat_iff small (costs behind.1 otherRated otherDiffer)).mp
        (least behind isBehind)

/-- **The choice is a cheapest path if and only if** the costs of the first path compare
alike. -/
theorem choose_cheapest_iff (distinct : pids.Nodup) (resolvable : Resolvable pids sender)
    {first : UInt8} (isFirst : First costType info pids first) :
    (∃ pid, choose costType info (collectRates (rates costType info) pids).1 sender = some pid ∧
      Cheapest costType info pids sender pid) ↔ Alike costType info pids sender first := by
  constructor
  · rintro ⟨pid, chosen, rated, cheapest⟩
    obtain ⟨minCost, costs⟩ := defined_of_choose distinct resolvable isFirst chosen
    obtain ⟨same, chosen', cases'⟩ := choose_cases distinct resolvable isFirst minCost costs
    obtain rfl := Option.some.inj (chosen.symm.trans chosen')
    refine ⟨minCost, costs, ?_, ?_⟩
    · intro least
      rcases cases' with ⟨-, atMost⟩ | ⟨-, differ, -⟩
      · exact atMost
      · exact absurd (least pid rated differ) (not_lt.mpr (cheapest first isFirst.1))
    · rintro ⟨other, otherRated, otherDiffer, less⟩
      rcases cases' with ⟨rfl, -⟩ | ⟨-, differ, below, -⟩
      · exact absurd less (not_lt.mpr (cheapest other otherRated))
      · exact ⟨pid, rated, differ, below⟩
  · intro alike
    obtain ⟨pid, chosen, cases'⟩ :=
      choose_cases distinct resolvable isFirst alike.minCost alike.tempCost
    refine ⟨pid, chosen, ?_⟩
    rcases cases' with ⟨rfl, atMost⟩ | ⟨rated, differ, below, least⟩
    · refine ⟨isFirst.1, fun other rated => ?_⟩
      by_contra less
      have differ : other ≠ pid := by
        rintro rfl
        exact less le_rfl
      obtain ⟨cheaper, cheaperRated, cheaperDiffer, under⟩ :=
        alike.above ⟨other, rated, differ, not_le.mp less⟩
      exact absurd under (not_lt.mpr (atMost cheaper cheaperRated cheaperDiffer))
    · refine ⟨rated, fun other otherRated => ?_⟩
      rcases eq_or_ne other first with rfl | otherDiffer
      · by_contra less
        exact absurd below (not_lt.mpr (alike.below (fun third thirdRated thirdDiffer =>
          (not_le.mp less).trans_le (least third thirdRated thirdDiffer)) pid rated differ))
      · exact least other otherRated otherDiffer

/-- Without the smooth costs, it only matters that the costs have 32 bits. -/
theorem alike_cIntant_iff {first : UInt8} (rated : Rated .cIntant info pids first) :
    Alike .cIntant info pids sender first ↔
      ∀ pid, Rated .cIntant info pids pid → configured .cIntant info sender pid < 2 ^ 32 := by
  constructor
  · intro alike pid isRated
    rcases eq_or_ne pid first with rfl | differ
    · exact alike.minCost
    · exact alike.tempCost pid isRated differ
  · intro small
    exact ⟨small first rated, fun other isRated _ => small other isRated,
      fun least other isRated differ => (least other isRated differ).le, id⟩

/-- **Every packet goes to a path of least configured cost if and only if** at every packet
the costs of the first path compare alike with those of the others. -/
theorem incomingPackets_iff_cheapest (distinct : pids.Nodup) (several : 2 ≤ pids.length)
    (many : 2 ≤ packets.size) (resolvable : Resolvable pids sender) {first : UInt8}
    (isFirst : First costType info pids first) :
    (∃ last calls, incomingPackets costType info pids packets sender = some (last, calls) ∧
      Serves (Cheapest costType info pids) packets.keys sender calls) ↔
      (dispatcher (choose costType info (collectRates (rates costType info) pids).1)).Along
        (fun sender _ => Alike costType info pids sender first) sender packets.keys := by
  have split : ¬ Unsplit pids packets := fun unsplit =>
    unsplit.elim (fun one => by omega) (packetNum_ne_one many)
  rw [incomingPackets, if_neg split, if_pos resolvable, dispatcher_serves_iff]
  exact Machine.along_congr Resolvable.step
    (fun sender _ known => choose_cheapest_iff distinct known isFirst) resolvable

/-! ## Two paths -/

/-- Without a round-trip time, and with numbers that single precision holds, the cost is the
delay of the queue. -/
theorem costValue_of_small {pending rate : UInt32} (some : rate ≠ 0)
    (smallRate : rate.toNat < 2 ^ 24) (small : pending.toNat * 8000 < 2 ^ 24) :
    costValue pending rate 0 = pending.toNat * 8000 / rate.toNat := by
  have positive : 0 < rate.toNat := Nat.pos_of_ne_zero fun zero => some (UInt32.toNat_inj.mp zero)
  have product : round 24 (round 24 (round 24 (pending.toNat : ℚ) * 8) * 1000) =
      ((pending.toNat * 8000 : ℕ) : ℚ) := by
    have eight : (pending.toNat : ℚ) * 8 = ((pending.toNat * 8 : ℕ) : ℚ) := by push_cast; rfl
    have thousand : ((pending.toNat * 8 : ℕ) : ℚ) * 1000 = ((pending.toNat * 8000 : ℕ) : ℚ) := by
      push_cast
      ring
    rw [round_of_lt (by omega), eight, round_of_lt (by omega), thousand, round_of_lt small]
  have quotient : (0 : ℚ) ≤ ((pending.toNat * 8000 : ℕ) : ℚ) / (rate.toNat : ℚ) := by positivity
  rw [costValue, expectPending, if_neg some, product, round_of_lt smallRate]
  change ⌊round 24 (_ + round 24 ((0 : ℕ) : ℚ))⌋₊ = _
  rw [Nat.cast_zero, Rounding.round_zero, add_zero,
    round_of_representable (representable_round quotient)]
  exact floor_round_div positive small

/-- The first path has 8 Mbps, but one at the moment; the second one has 4 Mbps. -/
def slowNow (pid : UInt8) : PathReadings :=
  if pid = 1 then ⟨⟨1000000, 8000000⟩, 0⟩ else ⟨⟨4000000, 4000000⟩, 0⟩

theorem rated_slowNow (costType : CostType) (pid : UInt8) :
    Rated costType slowNow [1, 2] pid ↔ pid = 1 ∨ pid = 2 := by
  rw [Rated, List.mem_cons, List.mem_singleton]
  refine and_iff_left_of_imp ?_
  rintro (rfl | rfl) <;> cases costType <;> decide

theorem first_slowNow (costType : CostType) : First costType slowNow [1, 2] 1 := by
  refine ⟨(rated_slowNow costType 1).mpr (.inl rfl), fun other rated => ?_⟩
  rcases (rated_slowNow costType other).mp rated with rfl | rfl <;> decide

/-- With the rates of the moment, short queues cost less than 32 bits. -/
theorem alike_slowNow (small : ∀ pid, pid = 1 ∨ pid = 2 →
    (pendingLen sender pid).toNat * 8000 < 2 ^ 24) :
    Alike .cIntant slowNow [1, 2] sender 1 := by
  refine (alike_cIntant_iff ((rated_slowNow .cIntant 1).mpr (.inl rfl))).mpr fun pid rated => ?_
  have which := (rated_slowNow .cIntant pid).mp rated
  have short := small pid which
  have cost : configured .cIntant slowNow sender pid =
      (pendingLen sender pid).toNat * 8000 / (rates .cIntant slowNow pid).toNat := by
    rcases which with rfl | rfl <;> exact costValue_of_small (by decide) (by decide) short
  have quotient := Nat.div_le_self ((pendingLen sender pid).toNat * 8000)
    (rates .cIntant slowNow pid).toNat
  omega

/-- With the rates of the moment, the costs are compared as they should be. -/
theorem incomingPackets_cheapest_instant :
    ∃ last calls, incomingPackets .cIntant slowNow [1, 2] twoPackets (twoQueues 1000 900) =
        some (last, calls) ∧
      Serves (Cheapest .cIntant slowNow [1, 2]) twoPackets.keys (twoQueues 1000 900) calls := by
  have alike : Alike .cIntant slowNow [1, 2] (twoQueues 1000 900) 1 := by
    refine alike_slowNow ?_
    rintro pid (rfl | rfl) <;> decide
  refine (incomingPackets_iff_cheapest (by decide) (by decide) (by decide)
    (resolvable_twoQueues 1000 900) (first_slowNow .cIntant)).mpr
    ⟨alike, fun next out stepped => ⟨alike_slowNow ?_, fun _ _ _ => trivial⟩⟩
  obtain ⟨pid, chosen, rated, -⟩ := (choose_cheapest_iff (by decide)
    (resolvable_twoQueues 1000 900) (first_slowNow .cIntant)).mpr alike
  obtain ⟨same, chosen', result⟩ := Option.map_eq_some_iff.mp stepped
  obtain rfl := Option.some.inj (chosen.symm.trans chosen')
  obtain ⟨rfl, -⟩ := Prod.mk.inj result
  -- whichever path got the first packet, both queues are short
  rcases (rated_slowNow .cIntant pid).mp rated with rfl | rfl <;> rintro other (rfl | rfl) <;>
    decide +kernel

theorem configured_slowNow :
    configured .cSmooth slowNow (twoQueues 1000 1000) 1 = 1 ∧
      configured .cSmooth slowNow (twoQueues 1000 1000) 2 = 2 ∧
      configured .cIntant slowNow (twoQueues 1000 1000) 1 = 8 :=
  ⟨costValue_of_small (by decide) (by decide) (by decide),
    costValue_of_small (by decide) (by decide) (by decide),
    costValue_of_small (by decide) (by decide) (by decide)⟩

/-- The smooth cost of the first path is least, and its other cost is not: the second path is
chosen. -/
theorem smoothCost_missed :
    configured .cSmooth slowNow (twoQueues 1000 1000) 1 <
        configured .cSmooth slowNow (twoQueues 1000 1000) 2 ∧
      choose .cSmooth slowNow (collectRates (rates .cSmooth slowNow) [1, 2]).1
        (twoQueues 1000 1000) = some 2 ∧
      ¬ ∃ last calls, incomingPackets .cSmooth slowNow [1, 2] twoPackets (twoQueues 1000 1000) =
          some (last, calls) ∧
        Serves (Cheapest .cSmooth slowNow [1, 2]) twoPackets.keys (twoQueues 1000 1000) calls := by
  obtain ⟨smooth, second, instant⟩ := configured_slowNow
  have chosen : choose .cSmooth slowNow (collectRates (rates .cSmooth slowNow) [1, 2]).1
      (twoQueues 1000 1000) = some 2 := by
    obtain ⟨pid, chosen, cases'⟩ := choose_cases (by decide) (resolvable_twoQueues 1000 1000)
      (first_slowNow .cSmooth) (by rw [instant]; decide) (by
        intro other rated differ
        obtain rfl := ((rated_slowNow .cSmooth other).mp rated).resolve_left differ
        rw [second]
        decide)
    rcases cases' with ⟨rfl, atMost⟩ | ⟨rated, differ, -⟩
    · have bound := atMost 2 ((rated_slowNow .cSmooth 2).mpr (.inr rfl)) (by decide)
      rw [instant, second] at bound
      exact absurd bound (by decide)
    · rwa [((rated_slowNow .cSmooth pid).mp rated).resolve_left differ] at chosen
  refine ⟨by rw [smooth, second]; decide, chosen, ?_⟩
  rintro ⟨last, calls, scheduled, serves⟩
  have split : ¬ Unsplit [1, 2] twoPackets := by decide
  rw [incomingPackets, if_neg split, if_pos (resolvable_twoQueues 1000 1000)] at scheduled
  obtain ⟨⟨pid, picked, -, cheapest⟩, -⟩ :=
    dispatcher_serves_iff.mp ⟨last, calls, scheduled, serves⟩
  obtain rfl := Option.some.inj (chosen.symm.trans picked)
  have bound := cheapest 1 ((rated_slowNow .cSmooth 1).mpr (.inl rfl))
  rw [smooth, second] at bound
  exact absurd bound (by decide)

end BalanceCostSchedule

end MpVideo.Schedule
