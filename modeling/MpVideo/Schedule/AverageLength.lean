import MpVideo.Lib.Machine
import MpVideo.Schedule.EdcldRuns

/-!
# The average packet length of EDCLD

`IncomingPackets` keeps the average packet length from one frame to the next. The bytes of
the earlier frames are taken to be the average times their number of packets, so what the
last division dropped is lost.

As long as the totals fit the words of the division, the average is the mean of all packets,
rounded down, in every state of a run if and only if at each frame the dropped bytes would
not make up one more byte for each packet (`mean_iff`). Five frames of one packet each are
enough to lose a byte (`mean_lost`). Before the counters wrap, the average is never above the
mean (`le_mean`), and a frame with fewer bytes than there were packets never raises it
(`not_raised`).
-/

set_option autoImplicit false

namespace MpVideo.Schedule

namespace EdcldTables

variable {tables next : EdcldTables} {readings : Readings}

/-! ## What leaves the average as it is -/

/-- Two states have the same average and the same counter. -/
structure SameAverage (tables next : EdcldTables) : Prop where
  averagePacketLen : next.averagePacketLen = tables.averagePacketLen
  packetCounter : next.packetCounter = tables.packetCounter

theorem SameAverage.refl (tables : EdcldTables) : SameAverage tables tables := ⟨rfl, rfl⟩

theorem SameAverage.trans {first second third : EdcldTables} (one : SameAverage first second)
    (two : SameAverage second third) : SameAverage first third :=
  ⟨two.averagePacketLen.trans one.averagePacketLen, two.packetCounter.trans one.packetCounter⟩

theorem sameAverage_insertEntries (totalrate : UInt32) (entries : List (UInt8 × UInt32))
    (tables : EdcldTables) :
    SameAverage tables (insertEntries readings totalrate entries tables) := by
  induction entries generalizing tables with
  | nil => exact .refl tables
  | cons entry rest ih =>
      obtain ⟨averagePacketLen, packetCounter⟩ := ih _
      exact ⟨averagePacketLen, packetCounter⟩

theorem sameAverage_insertUsable (inserted : tables.insertUsable readings = some next) :
    SameAverage tables next := by
  rw [insertUsable] at inserted
  dsimp only at inserted
  split_ifs at inserted
  obtain rfl := Option.some.inj inserted
  exact sameAverage_insertEntries _ _ tables

theorem sameAverage_addPid (pid : UInt8) (tables : EdcldTables) :
    SameAverage tables (tables.addPid pid) := by
  obtain ⟨pids, added⟩ := addPid_eq pid tables
  rw [added]
  exact ⟨rfl, rfl⟩

theorem sameAverage_registerPath {pid : UInt8}
    (registered : tables.registerPath pid readings = some next) : SameAverage tables next := by
  have added := sameAverage_addPid pid tables
  rw [registerPath] at registered
  split_ifs at registered
  · obtain ⟨averagePacketLen, packetCounter⟩ := sameAverage_insertUsable registered
    exact added.trans ⟨averagePacketLen, packetCounter⟩
  · obtain rfl := Option.some.inj registered
    exact added

theorem sameAverage_unregisterPath {pid : UInt8}
    (unregistered : tables.unregisterPath pid readings = some next) : SameAverage tables next := by
  obtain ⟨averagePacketLen, packetCounter⟩ := sameAverage_insertUsable unregistered
  exact ⟨averagePacketLen, packetCounter⟩

theorem sameAverage_updateCosts {T len : UInt32} {entries : List (UInt8 × ℚ)}
    {loop last : CostLoop} (updated : updateCosts readings T len entries loop = some last) :
    SameAverage loop.tables last.tables := by
  induction entries generalizing loop with
  | nil =>
      obtain rfl := Option.some.inj updated
      exact .refl _
  | cons entry rest ih =>
      rw [updateCosts] at updated
      split at updated
      case h_1 => cases updated
      case h_2 tempPsi found =>
        dsimp only at updated
        split_ifs at updated
        obtain ⟨averagePacketLen, packetCounter⟩ := ih updated
        exact ⟨averagePacketLen, packetCounter⟩

theorem sameAverage_moveShare {sqrt : ℚ → ℚ} {best worst : UInt8} {loop : CostLoop}
    (moved : moveShare sqrt readings best worst loop = some next) :
    SameAverage loop.tables next := by
  rw [moveShare] at moved
  split at moved
  case h_1 =>
    dsimp only at moved
    split_ifs at moved
    obtain ⟨_, -, rfl⟩ := Option.map_eq_some_iff.mp moved
    exact ⟨rfl, rfl⟩
  case h_2 => cases moved

theorem sameAverage_splitTables {sqrt : ℚ → ℚ} {now size : UInt32}
    (split : tables.splitTables sqrt readings now size = some next) :
    SameAverage tables next := by
  rw [splitTables] at split
  split_ifs at split
  · exact sameAverage_insertUsable split
  · obtain ⟨loop, updated, split⟩ := Option.bind_eq_some_iff.mp split
    obtain ⟨⟨best, worst⟩, -, moved⟩ := Option.bind_eq_some_iff.mp split
    exact (sameAverage_updateCosts updated).trans (sameAverage_moveShare moved)

/-- **A frame counts its packets first**, and nothing after that changes the average. -/
theorem sameAverage_incomingPackets {whole : List UInt8 → Packets → Option Calls}
    {sqrt : ℚ → ℚ} {now size : UInt32} {packets : Packets} {calls : Calls}
    (came : incomingPackets whole sqrt readings now packets size tables = some (next, calls)) :
    ∃ counted, tables.countPackets (packetNum packets) size = some counted ∧
      SameAverage counted next := by
  obtain ⟨counted, isCounted, came⟩ := Option.bind_eq_some_iff.mp came
  refine ⟨counted, isCounted, ?_⟩
  split_ifs at came
  · obtain ⟨_, -, same⟩ := Option.map_eq_some_iff.mp came
    obtain rfl := (Prod.mk.inj same).1
    exact .refl _
  · obtain ⟨split, isSplit, came⟩ := Option.bind_eq_some_iff.mp came
    obtain ⟨_, -, same⟩ := Option.map_eq_some_iff.mp came
    obtain rfl := (Prod.mk.inj same).1
    exact (sameAverage_splitTables isSplit).trans ⟨rfl, rfl⟩

end EdcldTables

open EdcldTables

/-! ## One frame -/

/-- A scheduler, with the bytes and the packets of all frames so far. -/
structure Tallied where
  tables : EdcldTables
  bytes : ℕ := 0
  packets : ℕ := 0

namespace Tallied

/-- An event, with the function for a frame. Every frame has packets and bytes. -/
def step (incomingPackets : Frame) (tallied : Tallied) : EdcldEvent → Option (Tallied × Calls)
  | .incomingPackets sqrt readings now packets size =>
      if 0 < packets.size ∧ 0 < size then
        (incomingPackets sqrt readings now packets size tallied.tables).map
          fun (tables, calls) =>
            ({ tables
               bytes := tallied.bytes + size.toNat
               packets := tallied.packets + packets.size }, calls)
      else none
  | .registerPath pid readings =>
      (tallied.tables.registerPath pid readings).map fun tables => ({ tallied with tables }, [])
  | .unregisterPath pid readings =>
      (tallied.tables.unregisterPath pid readings).map fun tables => ({ tallied with tables }, [])

/-- A scheduler that has not seen a path or a frame. -/
def fresh (w : ℚ) : Tallied := { tables := { w } }

/-- The average is the mean of all packets, rounded down. -/
def TracksMean (tallied : Tallied) : Prop :=
  tallied.tables.averagePacketLen.toNat = tallied.bytes / tallied.packets

/-- The bytes that the division drops. -/
def dropped (tallied : Tallied) : ℕ := tallied.bytes % tallied.packets

/-- The totals with a frame of `n` packets fit the words of the division. -/
structure Room (tallied : Tallied) (n : ℕ) (size : UInt32) : Prop where
  packets : n < 2 ^ 32
  counted : tallied.packets + n < 2 ^ 64
  bytes : tallied.bytes + size.toNat < 2 ^ 64

/-- The totals fit the words of the division after an event. -/
def Fits (tallied : Tallied) : EdcldEvent → Prop
  | .incomingPackets _ _ _ packets size => tallied.Room packets.size size
  | .registerPath _ _ => True
  | .unregisterPath _ _ => True

/-- The condition on an event: together with the remainder of the new division, the bytes
that were dropped do not make up one more byte for each packet. -/
def KeepsMean (tallied : Tallied) : EdcldEvent → Prop
  | .incomingPackets _ _ _ packets size =>
      let all := tallied.packets + packets.size
      tallied.dropped + (tallied.bytes - tallied.dropped + size.toNat) % all < all
  | .registerPath _ _ => True
  | .unregisterPath _ _ => True

/-- The average after a frame, in words. -/
def wordAverage (tallied : Tallied) (n : ℕ) (size : UInt32) : UInt32 :=
  let average := tallied.tables.averagePacketLen
  let counter := tallied.tables.packetCounter
  if UInt32.ofNat n = 0 then average
  else
    ((average.toUInt64 * counter + size.toUInt64) /
      (counter + (UInt32.ofNat n).toUInt64)).toUInt32

end Tallied

/-- A scheduler with its totals, with the function for a frame. -/
def tallyMachine (incomingPackets : Frame) : Machine Tallied EdcldEvent (UInt32 × UInt8) :=
  ⟨Tallied.step incomingPackets⟩

namespace Tallied

variable {whole : List UInt8 → Packets → Option Calls} {tallied next : Tallied} {calls : Calls}

/-- A summand changes a quotient exactly if it fills up the remainder. -/
theorem div_eq_add_div_iff {a r d : ℕ} (positive : 0 < d) :
    a / d = (a + r) / d ↔ r + a % d < d := by
  have split : a + r = (r + a % d) + d * (a / d) := by
    have := Nat.div_add_mod a d
    omega
  rw [split, Nat.add_mul_div_left _ _ positive, right_eq_add, Nat.div_eq_zero_iff_lt positive]

/-- What the totals and the average are after a frame. -/
structure Counts (n : ℕ) (size : UInt32) (tallied next : Tallied) : Prop where
  some : 0 < n
  bytes : next.bytes = tallied.bytes + size.toNat
  packets : next.packets = tallied.packets + n
  average : next.tables.averagePacketLen = tallied.wordAverage n size
  counter : next.tables.packetCounter =
    tallied.tables.packetCounter + (UInt32.ofNat n).toUInt64

/-- What an event leaves of the totals and of the average. -/
structure Keeps (tallied next : Tallied) : Prop where
  bytes : next.bytes = tallied.bytes
  packets : next.packets = tallied.packets
  same : SameAverage tallied.tables next.tables

theorem counts_of_frame {sqrt : ℚ → ℚ} {readings : Readings} {now size : UInt32}
    {packets : Packets}
    (stepped : (tallyMachine (incomingPackets whole)).step tallied
      (.incomingPackets sqrt readings now packets size) = some (next, calls)) :
    Counts packets.size size tallied next := by
  change (if 0 < packets.size ∧ 0 < size then _ else none) = _ at stepped
  split_ifs at stepped with proper
  obtain ⟨⟨tables, out⟩, came, same⟩ := Option.map_eq_some_iff.mp stepped
  obtain rfl := (Prod.mk.inj same).1
  obtain ⟨counted, isCounted, ⟨average, counter⟩⟩ := sameAverage_incomingPackets came
  have bytes : size > 0 := proper.2
  rw [countPackets] at isCounted
  by_cases none : packetNum packets = 0
  · rw [if_neg (by rw [none]; exact fun both => absurd both.1 (by decide))] at isCounted
    obtain rfl := Option.some.inj isCounted
    refine ⟨proper.1, rfl, rfl, ?_, ?_⟩
    · rw [wordAverage, if_pos (show UInt32.ofNat packets.size = 0 from none)]
      exact average
    · rw [show UInt32.ofNat packets.size = 0 from none]
      exact counter.trans (UInt64.add_zero _).symm
  · have some : packetNum packets > 0 := UInt32.pos_iff_ne_zero.mpr none
    rw [if_pos ⟨some, bytes⟩] at isCounted
    dsimp only at isCounted
    split_ifs at isCounted
    obtain rfl := Option.some.inj isCounted
    refine ⟨proper.1, rfl, rfl, ?_, counter⟩
    rw [wordAverage, if_neg (show ¬ UInt32.ofNat packets.size = 0 from none)]
    exact average

/-- **What an event does with the average.** -/
theorem step_cases {event : EdcldEvent}
    (stepped : (tallyMachine (incomingPackets whole)).step tallied event = some (next, calls)) :
    (∃ sqrt readings now packets size,
        event = .incomingPackets sqrt readings now packets size ∧
          Counts packets.size size tallied next) ∨
      ((∀ sqrt readings now packets size,
        event ≠ .incomingPackets sqrt readings now packets size) ∧ Keeps tallied next) := by
  cases event with
  | incomingPackets sqrt readings now packets size =>
      exact .inl ⟨sqrt, readings, now, packets, size, rfl, counts_of_frame stepped⟩
  | registerPath pid readings =>
      obtain ⟨tables, registered, same⟩ := Option.map_eq_some_iff.mp stepped
      obtain rfl := (Prod.mk.inj same).1
      exact .inr ⟨by simp, rfl, rfl, sameAverage_registerPath registered⟩
  | unregisterPath pid readings =>
      obtain ⟨tables, unregistered, same⟩ := Option.map_eq_some_iff.mp stepped
      obtain rfl := (Prod.mk.inj same).1
      exact .inr ⟨by simp, rfl, rfl, sameAverage_unregisterPath unregistered⟩

theorem bytes_sub_dropped (tallied : Tallied) :
    tallied.bytes - tallied.dropped = tallied.bytes / tallied.packets * tallied.packets := by
  have split := Nat.div_add_mod' tallied.bytes tallied.packets
  rw [dropped]
  omega

/-- **While the counters do not wrap**, the division is exact but for its remainder. -/
theorem toNat_wordAverage {n : ℕ} {size : UInt32} (some : 0 < n) (packets : n < 2 ^ 32)
    (counter : tallied.tables.packetCounter.toNat = tallied.packets)
    (counted : tallied.packets + n < 2 ^ 64)
    (bytes : tallied.tables.averagePacketLen.toNat * tallied.packets + size.toNat < 2 ^ 64) :
    (tallied.wordAverage n size).toNat =
      (tallied.tables.averagePacketLen.toNat * tallied.packets + size.toNat) /
        (tallied.packets + n) := by
  have count : (UInt32.ofNat n).toNat = n := UInt32.toNat_ofNat_of_lt' packets
  have nonzero : UInt32.ofNat n ≠ 0 := by
    intro zero
    rw [zero] at count
    exact some.ne count
  have below := tallied.tables.averagePacketLen.toNat_lt
  have short := size.toNat_lt
  rw [wordAverage, if_neg nonzero, UInt64.toNat_toUInt32, UInt64.toNat_div, UInt64.toNat_add,
    UInt64.toNat_mul, UInt64.toNat_add, UInt32.toNat_toUInt64, UInt32.toNat_toUInt64,
    UInt32.toNat_toUInt64, count, counter, Nat.mod_eq_of_lt (a := _ * _) (by omega),
    Nat.mod_eq_of_lt bytes, Nat.mod_eq_of_lt counted]
  -- a mean of words is a word
  apply Nat.mod_eq_of_lt
  rw [Nat.div_lt_iff_lt_mul (by omega)]
  have first : tallied.tables.averagePacketLen.toNat * tallied.packets ≤
      (2 ^ 32 - 1) * tallied.packets := Nat.mul_le_mul_right _ (by omega)
  omega

/-- The counter counts the packets. -/
theorem Counts.packetCounter_eq {n : ℕ} {size : UInt32} (counts : Counts n size tallied next)
    (counter : tallied.tables.packetCounter.toNat = tallied.packets) (packets : n < 2 ^ 32)
    (counted : tallied.packets + n < 2 ^ 64) :
    next.tables.packetCounter.toNat = next.packets := by
  rw [counts.counter, UInt64.toNat_add, UInt32.toNat_toUInt64, counter,
    UInt32.toNat_ofNat_of_lt' packets, counts.packets, Nat.mod_eq_of_lt counted]

theorem Room.wordAverage_eq {n : ℕ} {size : UInt32} (room : tallied.Room n size) (some : 0 < n)
    (counter : tallied.tables.packetCounter.toNat = tallied.packets)
    (tracks : tallied.TracksMean) : (tallied.wordAverage n size).toNat =
      (tallied.bytes - tallied.dropped + size.toNat) / (tallied.packets + n) := by
  have bytes : tallied.bytes - tallied.dropped + size.toNat < 2 ^ 64 :=
    Nat.lt_of_le_of_lt (Nat.add_le_add_right (Nat.sub_le _ _) _) room.bytes
  rw [bytes_sub_dropped, ← tracks] at bytes ⊢
  exact toNat_wordAverage some room.packets counter room.counted bytes

/-- **A frame keeps the mean exactly under its condition.** -/
theorem Counts.tracksMean_iff {n : ℕ} {size : UInt32} (counts : Counts n size tallied next)
    (room : tallied.Room n size)
    (counter : tallied.tables.packetCounter.toNat = tallied.packets)
    (tracks : tallied.TracksMean) : next.TracksMean ↔
      tallied.dropped + (tallied.bytes - tallied.dropped + size.toNat) % (tallied.packets + n) <
        tallied.packets + n := by
  have all : tallied.bytes - tallied.dropped + size.toNat + tallied.dropped =
      tallied.bytes + size.toNat := by
    have le : tallied.dropped ≤ tallied.bytes := Nat.mod_le _ _
    omega
  rw [TracksMean, counts.average, counts.bytes, counts.packets,
    room.wordAverage_eq counts.some counter tracks, ← all,
    div_eq_add_div_iff (Nat.add_pos_right _ counts.some)]

theorem tracksMean_fresh (w : ℚ) : (fresh w).TracksMean := (Nat.div_zero 0).symm

theorem step_counted {event : EdcldEvent}
    (counter : tallied.tables.packetCounter.toNat = tallied.packets) (fits : tallied.Fits event)
    (stepped : (tallyMachine (incomingPackets whole)).step tallied event = some (next, calls)) :
    next.tables.packetCounter.toNat = next.packets := by
  rcases step_cases stepped with ⟨sqrt, readings, now, packets, size, rfl, counts⟩ | ⟨-, keeps⟩
  · exact counts.packetCounter_eq counter fits.packets fits.counted
  · rw [keeps.same.packetCounter, keeps.packets, counter]

theorem step_tracksMean_iff {event : EdcldEvent}
    (counter : tallied.tables.packetCounter.toNat = tallied.packets) (fits : tallied.Fits event)
    (tracks : tallied.TracksMean)
    (stepped : (tallyMachine (incomingPackets whole)).step tallied event = some (next, calls)) :
    next.TracksMean ↔ tallied.KeepsMean event := by
  rcases step_cases stepped with ⟨sqrt, readings, now, packets, size, rfl, counts⟩ | ⟨other, keeps⟩
  · exact counts.tracksMean_iff fits counter tracks
  · have still : next.TracksMean := by
      rw [TracksMean, keeps.bytes, keeps.packets, keeps.same.averagePacketLen]
      exact tracks
    refine iff_of_true still ?_
    cases event with
    | incomingPackets sqrt readings now packets size =>
        exact absurd rfl (other sqrt readings now packets size)
    | registerPath pid readings => trivial
    | unregisterPath pid readings => trivial

/-! ## Runs -/

/-- **The average is the mean of all packets, rounded down, in every state of a run if and
only if** the bytes that the divisions drop never make up one more byte for each packet, as
long as the totals fit the words of the division. -/
theorem mean_iff (whole : List UInt8 → Packets → Option Calls) (w : ℚ) (events : List EdcldEvent)
    (fits : (tallyMachine (incomingPackets whole)).Along Fits (fresh w) events) :
    (∀ n last out, (tallyMachine (incomingPackets whole)).run (fresh w) (events.take n) =
        some (last, out) → last.TracksMean) ↔
      (tallyMachine (incomingPackets whole)).Along (fun tallied event =>
        ((tallyMachine (incomingPackets whole)).step tallied event).isSome →
          tallied.KeepsMean event) (fresh w) events :=
  Machine.reached_good_within_iff
    (fun _ _ _ _ counter fits _ stepped _ => step_counted counter fits stepped)
    (fun _ _ _ _ counter fits tracks stepped => step_tracksMean_iff counter fits tracks stepped)
    rfl (tracksMean_fresh w) fits

/-- A frame of one packet. -/
def oneFrame (size : UInt32) : EdcldEvent :=
  .incomingPackets id (fun _ => ⟨1, 1, 0⟩) 1 (SortedMap.empty.insert 1 size) size

/-- A path and frames of one and of two packets: nothing is dropped by the divisions. -/
def evenFrames : List EdcldEvent :=
  [.registerPath 1 fun _ => ⟨1, 1, 0⟩, oneFrame 1000,
    .incomingPackets id (fun _ => ⟨1, 1, 0⟩) 2
      ((SortedMap.empty.insert 1 1030).insert 2 970) 2000]

/-- The mean of three packets. -/
theorem mean_iff_evenFrames :
    ∃ last calls, (tallyMachine EDCLDSchedule.incomingPackets).run (fresh 1) evenFrames =
        some (last, calls) ∧
      last.packets = 3 ∧ last.tables.averagePacketLen = 1000 ∧ last.TracksMean := by
  have fits : (tallyMachine (incomingPackets roundRobin)).Along Fits (fresh 1) evenFrames := by
    refine ⟨trivial, fun next out stepped => ?_⟩
    obtain ⟨rfl, -⟩ := Prod.mk.inj (Option.some.inj stepped)
    refine ⟨⟨by decide, by decide, by decide⟩, fun next out stepped => ?_⟩
    obtain ⟨rfl, -⟩ := Prod.mk.inj (Option.some.inj stepped)
    exact ⟨⟨by decide, by decide, by decide⟩, fun _ _ _ => trivial⟩
  have mean := (mean_iff roundRobin 1 evenFrames fits).mpr ?_ 3 _ _ rfl
  · exact ⟨_, _, rfl, rfl, rfl, mean⟩
  · refine ⟨fun _ => trivial, fun next out stepped => ?_⟩
    obtain ⟨rfl, -⟩ := Prod.mk.inj (Option.some.inj stepped)
    refine ⟨fun _ => ?_, fun next out stepped => ?_⟩
    · change 0 + 1000 % 1 < 1
      decide
    · obtain ⟨rfl, -⟩ := Prod.mk.inj (Option.some.inj stepped)
      refine ⟨fun _ => ?_, fun _ _ _ => trivial⟩
      change 0 + 3000 % 3 < 3
      decide

/-- A path and five frames: the mean of the packets is 1001 bytes. -/
def fiveFrames : List EdcldEvent :=
  [.registerPath 1 fun _ => ⟨1, 1, 0⟩, oneFrame 1000, oneFrame 1001, oneFrame 1001,
    oneFrame 1001, oneFrame 1002]

/-- **Five frames of one packet each** leave the average of either scheduler below the mean. -/
theorem mean_lost :
    (¬ ∀ n last out, (tallyMachine EDCLDSchedule.incomingPackets).run (fresh 1)
        (fiveFrames.take n) = some (last, out) → last.TracksMean) ∧
      ¬ ∀ n last out, (tallyMachine EDCLDScheduleV1.incomingPackets).run (fresh 1)
        (fiveFrames.take n) = some (last, out) → last.TracksMean := by
  constructor
  · intro always
    exact absurd (always 6 _ _ rfl) (by unfold TracksMean; decide)
  · intro always
    exact absurd (always 6 _ _ rfl) (by unfold TracksMean; decide)

/-! ## Below the mean -/

/-- The counters have not wrapped, and the average is not above the mean. -/
structure Unwrapped (tallied : Tallied) : Prop where
  counter : tallied.tables.packetCounter.toNat = tallied.packets
  bytes : tallied.bytes ≤ (2 ^ 32 - 1) * tallied.packets
  below : tallied.tables.averagePacketLen.toNat * tallied.packets ≤ tallied.bytes

/-- The average after a frame, as long as fewer than `2 ^ 32` packets came. -/
theorem Counts.average_eq {n : ℕ} {size : UInt32} (counts : Counts n size tallied next)
    (unwrapped : tallied.Unwrapped) (few : next.packets < 2 ^ 32) :
    next.tables.averagePacketLen.toNat =
      (tallied.tables.averagePacketLen.toNat * tallied.packets + size.toNat) / next.packets := by
  have short := size.toNat_lt
  have bytes := unwrapped.bytes
  have below := unwrapped.below
  rw [counts.packets] at few ⊢
  rw [counts.average]
  exact toNat_wordAverage counts.some (by omega) unwrapped.counter (by omega) (by omega)

theorem Counts.unwrapped {n : ℕ} {size : UInt32} (counts : Counts n size tallied next)
    (unwrapped : tallied.Unwrapped) (few : next.packets < 2 ^ 32) : next.Unwrapped := by
  have average := counts.average_eq unwrapped few
  have some := counts.some
  have short := size.toNat_lt
  have bytes := unwrapped.bytes
  have below := unwrapped.below
  have packets := counts.packets
  refine ⟨counts.packetCounter_eq unwrapped.counter (by omega) (by omega), ?_, ?_⟩
  · rw [counts.bytes, packets]
    omega
  · rw [average, counts.bytes]
    exact (Nat.div_mul_le_self _ _).trans (Nat.add_le_add_right below _)

theorem unwrapped_of_run {w : ℚ} {events : List EdcldEvent} {last : Tallied}
    (ran : (tallyMachine (incomingPackets whole)).run (fresh w) events = some (last, calls)) :
    last.packets < 2 ^ 32 → last.Unwrapped := by
  refine Machine.run_invariant (fun tallied => tallied.packets < 2 ^ 32 → tallied.Unwrapped)
    ?_ (fun _ => ⟨rfl, Nat.le_refl _, Nat.le_refl _⟩) ran
  intro tallied event next calls unwrapped stepped few
  rcases step_cases stepped with ⟨sqrt, readings, now, packets, size, rfl, counts⟩ | ⟨-, keeps⟩
  · have packets := counts.packets
    exact counts.unwrapped (unwrapped (by omega)) few
  · rw [keeps.packets] at few
    obtain ⟨counter, bytes, below⟩ := unwrapped few
    refine ⟨?_, ?_, ?_⟩
    · rwa [keeps.same.packetCounter, keeps.packets]
    · rwa [keeps.bytes, keeps.packets]
    · rwa [keeps.same.averagePacketLen, keeps.bytes, keeps.packets]

/-- **The average is never above the mean**, as long as fewer than `2 ^ 32` packets came. -/
theorem le_mean {w : ℚ} {events : List EdcldEvent} {last : Tallied}
    (ran : (tallyMachine (incomingPackets whole)).run (fresh w) events = some (last, calls))
    (few : last.packets < 2 ^ 32) :
    last.tables.averagePacketLen.toNat * last.packets ≤ last.bytes :=
  (unwrapped_of_run ran few).below

/-- **A frame with at most as many bytes as there were packets before never raises the
average**, however long its packets are. -/
theorem not_raised {w : ℚ} {events : List EdcldEvent} {sqrt : ℚ → ℚ} {readings : Readings}
    {now size : UInt32} {packets : Packets} {more : Calls}
    (ran : (tallyMachine (incomingPackets whole)).run (fresh w) events = some (tallied, calls))
    (stepped : (tallyMachine (incomingPackets whole)).step tallied
      (.incomingPackets sqrt readings now packets size) = some (next, more))
    (few : next.packets < 2 ^ 32) (old : size.toNat ≤ tallied.packets) :
    next.tables.averagePacketLen ≤ tallied.tables.averagePacketLen := by
  have counts := counts_of_frame stepped
  have total := counts.packets
  have some := counts.some
  have unwrapped := unwrapped_of_run ran (by omega)
  rw [UInt32.le_iff_toNat_le, counts.average_eq unwrapped few, total]
  apply Nat.le_of_lt_succ
  rw [Nat.div_lt_iff_lt_mul (by omega), Nat.succ_mul, Nat.mul_add]
  omega

end Tallied

end MpVideo.Schedule
