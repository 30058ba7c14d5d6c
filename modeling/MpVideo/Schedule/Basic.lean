import MpVideo.Lib.MachineInt
import MpVideo.Lib.SortedMap
import Mathlib.Algebra.Order.BigOperators.Group.List
import Mathlib.Algebra.Order.Floor.Semiring
import Mathlib.Data.Rat.Floor

/-!
# Schedulers

What the schedulers have in common. A scheduler gets the packets of a frame and
answers with calls of `PacketSchedule`; it is a function from the packets, the
registered paths and what it reads from them to the calls it makes, in order. It is
undefined (`none`) where the source divides by zero, leaves an array or a map, or
converts a number that does not fit. Assertions are taken as compiled out, and a path
id as registered once.
-/

set_option autoImplicit false

namespace MpVideo.Schedule

/-- The packets of a frame: the length under the schedule id. -/
abbrev Packets := SortedMap UInt32 UInt32

/-- Two packets of 1030 bytes. -/
def twoPackets : Packets := ⟨[(1, 1030), (2, 1030)], by decide⟩

/-- The calls of `PacketSchedule` that a scheduler makes: schedule id and path. -/
abbrev Calls := List (UInt32 × UInt8)

/-- `packets.size()`, as stored in 32 bits. -/
def packetNum (packets : Packets) : UInt32 := UInt32.ofNat packets.size

/-- Every packet is scheduled once, in the order of the ids, on a path with the property. -/
structure Schedules (packets : Packets) (allowed : UInt8 → Prop) (calls : Calls) : Prop where
  ids : calls.map Prod.fst = packets.keys
  paths : ∀ call ∈ calls, allowed call.2

theorem length_keys_le (packets : Packets) : packets.size ≤ 2 ^ 32 := by
  rw [← SortedMap.length_keys]
  exact UInt32.length_le_of_nodup packets.keys_nodup

/-- There are as many packets as the counter says, unless there are `2 ^ 32`. -/
theorem toNat_packetNum (packets : Packets) :
    (packetNum packets).toNat = packets.size ∨
      packets.size = 2 ^ 32 ∧ (packetNum packets).toNat = 0 := by
  have atMost := length_keys_le packets
  rw [packetNum, UInt32.toNat_ofNat']
  cases Nat.lt_or_eq_of_le atMost with
  | inl less => exact .inl (Nat.mod_eq_of_lt less)
  | inr all => exact .inr ⟨all, by rw [all]; rfl⟩

theorem toNat_packetNum_of_lt {packets : Packets} (counted : packets.size < 2 ^ 32) :
    (packetNum packets).toNat = packets.size :=
  (toNat_packetNum packets).resolve_right fun all => absurd all.1 (Nat.ne_of_lt counted)

theorem packetNum_ne_one {packets : Packets} (many : 2 ≤ packets.size) : packetNum packets ≠ 1 := by
  intro one
  have count := toNat_packetNum packets
  rw [one] at count
  change 1 = packets.size ∨ packets.size = 2 ^ 32 ∧ 1 = 0 at count
  omega

/-! ## Without rates -/

/-- The loop of `RoundRobin`. The number of paths is kept in 8 bits. -/
def roundRobinFrom (pids : List UInt8) : UInt32 → List UInt32 → Option Calls
  | _, [] => some []
  | lastIndex, packetId :: rest =>
      let total := UInt8.ofNat pids.length
      if total = 0 then none
      else
        match pids[(lastIndex % total.toUInt32).toNat]? with
        | none => none
        | some pid => (roundRobinFrom pids (lastIndex + 1) rest).map ((packetId, pid) :: ·)

/-- `RoundRobin`. -/
def roundRobin (pids : List UInt8) (packets : Packets) : Option Calls :=
  roundRobinFrom pids 0 packets.keys

/-- The frame is not split: there is one path, or one packet. -/
def Unsplit (pids : List UInt8) (packets : Packets) : Prop :=
  pids.length = 1 ∨ packetNum packets = 1

instance (pids : List UInt8) (packets : Packets) : Decidable (Unsplit pids packets) :=
  inferInstanceAs (Decidable (_ ∨ _))

/-- `SendAllPackesToPath`. -/
def sendAllPackesToPath (packets : Packets) (pid : UInt8) : Calls :=
  packets.keys.map fun packetId => (packetId, pid)

theorem roundRobinFrom_spec {pids : List UInt8} (some : pids ≠ []) (few : pids.length < 256)
    (lastIndex : UInt32) (ids : List UInt32) :
    ∃ calls, roundRobinFrom pids lastIndex ids = .some calls ∧ calls.map Prod.fst = ids ∧
      ∀ call ∈ calls, call.2 ∈ pids := by
  have total : (UInt8.ofNat pids.length).toNat = pids.length := Nat.mod_eq_of_lt few
  have positive := List.length_pos_iff.mpr some
  have nonzero : UInt8.ofNat pids.length ≠ 0 := by
    intro zero
    rw [zero] at total
    change 0 = pids.length at total
    omega
  induction ids generalizing lastIndex with
  | nil => exact ⟨[], rfl, rfl, fun _ member => absurd member List.not_mem_nil⟩
  | cons packetId rest ih =>
      have bound : (lastIndex % (UInt8.ofNat pids.length).toUInt32).toNat < pids.length := by
        rw [UInt32.toNat_mod, UInt8.toNat_toUInt32, total]
        exact Nat.mod_lt _ positive
      obtain ⟨calls, defined, keys, paths⟩ := ih (lastIndex + 1)
      refine ⟨(packetId, pids[(lastIndex % (UInt8.ofNat pids.length).toUInt32).toNat]) :: calls,
        ?_, congrArg (packetId :: ·) keys, ?_⟩
      · rw [roundRobinFrom, List.getElem?_eq_getElem bound]
        simp only [if_neg nonzero, defined, Option.map_some]
      · intro call isCall
        rcases List.mem_cons.mp isCall with rfl | later
        · exact List.getElem_mem bound
        · exact paths call later

/-- Round robin serves every packet when the number of paths fits its eight bits. -/
theorem roundRobin_spec {pids : List UInt8} (some : pids ≠ []) (few : pids.length < 256)
    (packets : Packets) :
    ∃ calls, roundRobin pids packets = .some calls ∧ Schedules packets (· ∈ pids) calls := by
  obtain ⟨calls, defined, ids, paths⟩ := roundRobinFrom_spec some few 0 packets.keys
  exact ⟨calls, defined, ids, paths⟩

/-- **Round robin serves every packet if and only if** not all 256 paths are there, which
the eight bits count as none. -/
theorem roundRobin_iff {pids : List UInt8} (distinct : pids.Nodup) (some : pids ≠ [])
    {packets : Packets} (packet : 0 < packets.size) :
    (∃ calls, roundRobin pids packets = .some calls ∧ Schedules packets (· ∈ pids) calls) ↔
      pids.length < 256 := by
  refine ⟨?_, fun few => roundRobin_spec some few packets⟩
  rintro ⟨calls, defined, -⟩
  apply lt_of_le_of_ne (UInt8.length_le_of_nodup distinct)
  intro all
  obtain ⟨packetId, rest, ids⟩ := List.exists_cons_of_ne_nil
    (List.ne_nil_of_length_pos (by rwa [SortedMap.length_keys]) : packets.keys ≠ [])
  have none : UInt8.ofNat pids.length = 0 := by
    rw [all]
    rfl
  rw [roundRobin, ids, roundRobinFrom] at defined
  simp only [if_pos none] at defined
  cases defined

/-! ## Rates -/

/-- `CostType`. -/
inductive CostType where
  | cIntant | cSmooth
  deriving DecidableEq

/-- The rates that `PathSender` keeps. -/
structure PathRates where
  rate : UInt32
  sRate : UInt32

/-- The rate that a scheduler of a cost type reads. -/
def PathRates.ofCostType (rates : PathRates) : CostType → UInt32
  | .cIntant => rates.rate
  | .cSmooth => rates.sRate

/-- The loop over `pids_` that collects the paths with a positive rate and adds the
rates up in 32 bits. -/
def collectRates (rate : UInt8 → UInt32) (pids : List UInt8) : SortedMap UInt8 UInt32 × UInt32 :=
  pids.foldl (fun (pathrate, totalrate) pid =>
    if rate pid ≠ 0 then (pathrate.insert pid (rate pid), totalrate + rate pid)
    else (pathrate, totalrate)) (.empty, 0)

/-- The sum of all rates, without a bound. -/
def rateSum (rate : UInt8 → UInt32) (pids : List UInt8) : Nat :=
  (pids.map fun pid => (rate pid).toNat).sum

theorem foldl_collectRates (rate : UInt8 → UInt32) {pids : List UInt8} (distinct : pids.Nodup)
    (pathrate : SortedMap UInt8 UInt32) (totalrate : UInt32)
    (new : ∀ pid ∈ pids, pathrate.find? pid = none) :
    (∀ pid, (pids.foldl (fun (pathrate, totalrate) pid =>
        if rate pid ≠ 0 then (pathrate.insert pid (rate pid), totalrate + rate pid)
        else (pathrate, totalrate)) (pathrate, totalrate)).1.find? pid =
          if pid ∈ pids ∧ rate pid ≠ 0 then some (rate pid) else pathrate.find? pid) ∧
      (pids.foldl (fun (pathrate, totalrate) pid =>
        if rate pid ≠ 0 then (pathrate.insert pid (rate pid), totalrate + rate pid)
        else (pathrate, totalrate)) (pathrate, totalrate)).2 =
          totalrate + UInt32.ofNat (rateSum rate pids) := by
  induction pids generalizing pathrate totalrate with
  | nil => exact ⟨fun pid => by simp, by simp [rateSum]⟩
  | cons first rest ih =>
      obtain ⟨absent, later⟩ := List.nodup_cons.mp distinct
      have fresh := new first List.mem_cons_self
      have others : ∀ pid ∈ rest, pathrate.find? pid = none :=
        fun pid member => new pid (List.mem_cons_of_mem _ member)
      have sum : UInt32.ofNat (rateSum rate (first :: rest)) =
          rate first + UInt32.ofNat (rateSum rate rest) := by
        rw [rateSum, List.map_cons, List.sum_cons, UInt32.ofNat_add, UInt32.ofNat_toNat]
        rfl
      rw [List.foldl_cons, sum]
      split_ifs with positive
      · have inserted : ∀ pid ∈ rest, (pathrate.insert first (rate first)).find? pid = none := by
          intro pid member
          have differs : pid ≠ first := fun same => absent (same ▸ member)
          rw [SortedMap.find?_insert, if_neg differs]
          exact others pid member
        obtain ⟨found, total⟩ := ih later (pathrate.insert first (rate first))
          (totalrate + rate first) inserted
        refine ⟨?_, total.trans (UInt32.add_assoc ..)⟩
        intro pid
        rw [found pid, SortedMap.find?_insert, fresh, Option.getD_none]
        by_cases same : pid = first
        · subst same
          simp [absent, positive]
        · simp [same]
      · obtain ⟨found, total⟩ := ih later pathrate totalrate others
        rw [not_not] at positive
        refine ⟨?_, by rw [total, positive, UInt32.zero_add]⟩
        intro pid
        rw [found pid]
        by_cases same : pid = first
        · subst same
          simp [absent, positive]
        · simp [same]

/-- **What is collected**: the positive rates of the registered paths, and their sum
modulo `2 ^ 32`. -/
theorem collectRates_spec (rate : UInt8 → UInt32) {pids : List UInt8} (distinct : pids.Nodup) :
    (∀ pid, (collectRates rate pids).1.find? pid =
        if pid ∈ pids ∧ rate pid ≠ 0 then some (rate pid) else none) ∧
      (collectRates rate pids).2 = UInt32.ofNat (rateSum rate pids) := by
  obtain ⟨found, total⟩ := foldl_collectRates rate distinct .empty 0 fun _ _ => rfl
  exact ⟨found, total.trans (UInt32.zero_add _)⟩

variable {rate : UInt8 → UInt32} {pids : List UInt8} {packets : Packets}

theorem mem_collectRates (distinct : pids.Nodup) {entry : UInt8 × UInt32} :
    entry ∈ (collectRates rate pids).1.entries ↔
      entry.1 ∈ pids ∧ rate entry.1 ≠ 0 ∧ entry.2 = rate entry.1 := by
  rw [← SortedMap.find?_eq_some_iff, (collectRates_spec rate distinct).1]
  split_ifs with known
  · rw [Option.some.injEq]
    exact ⟨fun same => ⟨known.1, known.2, same.symm⟩, fun all => all.2.2.symm⟩
  · exact iff_of_false (by simp) fun all => known ⟨all.1, all.2.1⟩

theorem totalrate_ne_zero_iff (distinct : pids.Nodup) :
    (collectRates rate pids).2 ≠ 0 ↔ ¬ 2 ^ 32 ∣ rateSum rate pids := by
  rw [(collectRates_spec rate distinct).2, ← UInt32.toNat_inj.ne, UInt32.toNat_ofNat']
  exact not_congr (Nat.dvd_iff_mod_eq_zero ..).symm

theorem rated_perm (distinct : pids.Nodup) :
    (pids.filter fun pid => rate pid ≠ 0).Perm (collectRates rate pids).1.keys := by
  apply (List.perm_ext_iff_of_nodup (distinct.filter _) (SortedMap.keys_nodup _)).mpr
  intro pid
  rw [List.mem_filter, decide_eq_true_iff, SortedMap.keys, List.mem_map]
  constructor
  · rintro ⟨registered, rated⟩
    exact ⟨(pid, rate pid), (mem_collectRates distinct).mpr ⟨registered, rated, rfl⟩, rfl⟩
  · rintro ⟨entry, member, rfl⟩
    obtain ⟨registered, rated, -⟩ := (mem_collectRates distinct).mp member
    exact ⟨registered, rated⟩

theorem mem_keys_collectRates (distinct : pids.Nodup) {pid : UInt8} :
    pid ∈ (collectRates rate pids).1.keys ↔ pid ∈ pids ∧ rate pid ≠ 0 := by
  rw [← (rated_perm distinct).mem_iff, List.mem_filter, decide_eq_true_iff]

theorem rateSum_eq (distinct : pids.Nodup) :
    rateSum rate pids = ((collectRates rate pids).1.entries.map fun entry => entry.2.toNat).sum := by
  have zeros : ∀ list : List UInt8, (list.map fun pid => (rate pid).toNat).sum =
      ((list.filter fun pid => rate pid ≠ 0).map fun pid => (rate pid).toNat).sum := by
    intro list
    induction list with
    | nil => rfl
    | cons pid rest ih =>
        rw [List.map_cons, List.sum_cons, List.filter_cons, ih]
        by_cases none : rate pid = 0
        · simp [none]
        · simp [none]
  rw [rateSum, zeros, ((rated_perm distinct).map _).sum_eq, SortedMap.keys, List.map_map]
  refine congrArg List.sum (List.map_congr_left ?_)
  intro entry member
  rw [((mem_collectRates distinct).mp member).2.2]
  rfl

/-- The share of a path in the packets. -/
def exactShare (rate : UInt8 → UInt32) (pids : List UInt8) (packets : Packets) (pid : UInt8) : ℚ :=
  packets.size * (rate pid).toNat / rateSum rate pids

theorem rate_le_rateSum {pid : UInt8} (member : pid ∈ pids) :
    (rate pid).toNat ≤ rateSum rate pids :=
  List.single_le_sum (fun _ _ => Nat.zero_le _) _
    (List.mem_map_of_mem (f := fun pid => (rate pid).toNat) member)

theorem rateSum_pos {pid : UInt8} (member : pid ∈ pids) (rated : rate pid ≠ 0) :
    0 < rateSum rate pids :=
  lt_of_lt_of_le (Nat.pos_of_ne_zero fun zero => rated (UInt32.toNat_inj.mp zero))
    (rate_le_rateSum member)

end MpVideo.Schedule
