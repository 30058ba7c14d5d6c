import MpVideo.Lib.Least
import MpVideo.Lib.Machine
import MpVideo.Schedule.Basic
import MpVideo.Sender.MultipathSender

/-!
# Greedy dispatch

`MinQueueSchedule` and `BalanceCostSchedule` look for a path anew for every packet of a frame.
`PacketSchedule` puts the packet into the queue of the path before the next packet is looked
at, so the loop over the packets is a machine on the sender (`dispatcher`).

Every packet of a frame goes to a good path, if for every packet in turn the choice from the
queues of that moment is good (`dispatcher_serves_iff`).

`MinQueueSchedule` of `minqueueschedule.cc` computes the delay of a queue in 32 bits. It
chooses a shortest queue unless a long queue, that is not a shortest one, has wrapped below
all others (`MinQueueSchedule.incomingPackets_iff_shortest`).
-/

set_option autoImplicit false

namespace MpVideo.Schedule

open Sender

/-! ## Packet by packet -/

/-- The sender after some calls of `PacketSchedule`. -/
def afterCalls (calls : Calls) (sender : MultipathSender) : MultipathSender :=
  calls.foldl (fun sender call => sender.packetSchedule call.1 call.2) sender

/-- The loop over the packets, with the choice of a path. -/
def dispatcher (choose : MultipathSender → Option UInt8) :
    Machine MultipathSender UInt32 (UInt32 × UInt8) where
  step sender packetId := (choose sender).map fun pid =>
    (sender.packetSchedule packetId pid, [(packetId, pid)])

/-- Every packet is scheduled once, in the order of the ids, on a path that is good after the
packets before it were queued. -/
structure Serves (good : MultipathSender → UInt8 → Prop) (ids : List UInt32)
    (sender : MultipathSender) (calls : Calls) : Prop where
  ids_eq : calls.map Prod.fst = ids
  good : ∀ before call after, calls = before ++ call :: after →
    good (afterCalls before sender) call.2

section

variable {choose : MultipathSender → Option UInt8} {good : MultipathSender → UInt8 → Prop}
  {sender : MultipathSender}

theorem serves_cons {id : UInt32} {ids : List UInt32} {pid : UInt8} {calls : Calls} :
    Serves good (id :: ids) sender ((id, pid) :: calls) ↔
      good sender pid ∧ Serves good ids (sender.packetSchedule id pid) calls := by
  constructor
  · intro serves
    refine ⟨serves.good [] (id, pid) calls rfl, (List.cons.inj serves.ids_eq).2, ?_⟩
    rintro before call after rfl
    exact serves.good ((id, pid) :: before) call after rfl
  · rintro ⟨first, serves⟩
    refine ⟨congrArg (id :: ·) serves.ids_eq, ?_⟩
    intro before call after split
    cases before with
    | nil =>
        obtain ⟨rfl, -⟩ := List.cons.inj split
        exact first
    | cons other before =>
        obtain ⟨rfl, rest⟩ := List.cons.inj split
        exact serves.good before call after rest

/-- **All packets are served if and only if every choice on the way is good.** -/
theorem dispatcher_serves_iff {ids : List UInt32} :
    (∃ last calls, (dispatcher choose).run sender ids = some (last, calls) ∧
      Serves good ids sender calls) ↔
      (dispatcher choose).Along (fun sender _ => ∃ pid, choose sender = some pid ∧ good sender pid)
        sender ids := by
  induction ids generalizing sender with
  | nil =>
      refine iff_of_true ⟨sender, [], rfl, rfl, ?_⟩ trivial
      intro before call after split
      simp at split
  | cons id rest ih =>
      constructor
      · rintro ⟨last, calls, ran, serves⟩
        obtain ⟨next, first, more, stepped, onwards, rfl⟩ := Machine.run_cons.mp ran
        obtain ⟨pid, chosen, paired⟩ := Option.map_eq_some_iff.mp stepped
        obtain ⟨rfl, rfl⟩ := Prod.mk.inj paired
        obtain ⟨now, later⟩ := serves_cons.mp serves
        refine ⟨⟨pid, chosen, now⟩, ?_⟩
        intro next' out stepped'
        obtain ⟨rfl, -⟩ := Prod.mk.inj (Option.some.inj (stepped.symm.trans stepped'))
        exact ih.mp ⟨last, more, onwards, later⟩
      · rintro ⟨⟨pid, chosen, now⟩, later⟩
        have stepped : (dispatcher choose).step sender id =
            some (sender.packetSchedule id pid, [(id, pid)]) :=
          Option.map_eq_some_iff.mpr ⟨pid, chosen, rfl⟩
        obtain ⟨last, calls, onwards, serves⟩ := ih.mpr (later _ _ stepped)
        exact ⟨last, (id, pid) :: calls,
          Machine.run_cons.mpr ⟨_, _, calls, stepped, onwards, rfl⟩, serves_cons.mpr ⟨now, serves⟩⟩

/-! ## The paths of the sender -/

/-- `GetPathInfo` finds the paths. -/
def Resolvable (pids : List UInt8) (sender : MultipathSender) : Prop :=
  ∀ pid ∈ pids, ∃ path, sender.usablePath.find? pid = some path

instance (pids : List UInt8) (sender : MultipathSender) : Decidable (Resolvable pids sender) :=
  decidable_of_iff (pids.all fun pid => (sender.usablePath.find? pid).isSome)
    (by simp only [List.all_eq_true, Option.isSome_iff_exists, Resolvable])

theorem Resolvable.packetSchedule {pids : List UInt8} (resolvable : Resolvable pids sender)
    (id : UInt32) (pid : UInt8) : Resolvable pids (sender.packetSchedule id pid) := by
  intro other member
  obtain ⟨path, known⟩ := resolvable other member
  rw [MultipathSender.packetSchedule]
  cases sender.pendingBuf.find? id with
  | none => exact ⟨path, known⟩
  | some seg =>
      cases found : sender.usablePath.find? pid with
      | none => exact ⟨path, by simpa only [found] using known⟩
      | some target =>
          simp only [found, SortedMap.find?_set]
          split_ifs
          · exact ⟨_, rfl⟩
          · exact ⟨path, known⟩

theorem Resolvable.step {pids : List UInt8} (s : MultipathSender) (id : UInt32)
    (next : MultipathSender) (out : Calls) (resolvable : Resolvable pids s)
    (stepped : (dispatcher choose).step s id = some (next, out)) : Resolvable pids next := by
  obtain ⟨pid, -, paired⟩ := Option.map_eq_some_iff.mp stepped
  obtain ⟨rfl, -⟩ := Prod.mk.inj paired
  exact resolvable.packetSchedule id pid

end

/-- The bytes in the queue of a path. -/
def pendingLen (sender : MultipathSender) (pid : UInt8) : UInt32 :=
  ((sender.usablePath.find? pid).map PathSender.pendingLen).getD 0

/-- A packet of 1030 bytes. -/
def fullSegment : Wire.SimSegment :=
  ⟨0, 1, 0, 0, 2, 0, 0, 0xff, 0, 0, .zeros Wire.simVideoSize⟩

/-- Two packets wait for two paths with queues of these lengths. -/
def twoQueues (first second : UInt32) : MultipathSender where
  uid := 1
  pendingBuf := ⟨[(1, fullSegment), (2, fullSegment)],
    List.pairwise_pair.mpr (show (1 : UInt32) < 2 by decide)⟩
  usablePath := ⟨[(1, { pid := 1, uid := 1, pendingLen := first }),
    (2, { pid := 2, uid := 1, pendingLen := second })],
    List.pairwise_pair.mpr (show (1 : UInt8) < 2 by decide)⟩

theorem resolvable_twoQueues (first second : UInt32) :
    Resolvable [1, 2] (twoQueues first second) := by
  intro pid member
  simp only [List.mem_cons, List.not_mem_nil, or_false] at member
  rcases member with rfl | rfl <;> exact ⟨_, rfl⟩

/-! ## The shortest queue -/

namespace MinQueueSchedule

/-- The delay that the loop over `pathrate` computes. -/
def cost (sender : MultipathSender) (entry : UInt8 × UInt32) : Option UInt32 :=
  (sender.usablePath.find? entry.1).map fun path => path.pendingLen * 8 * 1000 / entry.2

/-- The loop over `pathrate`. Without an entry, its first one is not there. -/
def choose (pathrate : SortedMap UInt8 UInt32) (sender : MultipathSender) : Option UInt8 :=
  match pathrate.entries with
  | [] => none
  | first :: rest =>
      (cost sender first).bind fun minCost =>
        (Least.scan? (cost sender) (first, minCost) rest).map fun best => best.1.1

/-- `MinQueueSchedule::IncomingPackets`. -/
def incomingPackets (costType : CostType) (info : UInt8 → PathRates) (pids : List UInt8)
    (packets : Packets) (sender : MultipathSender) : Option (MultipathSender × Calls) :=
  if Unsplit pids packets then
    (roundRobin pids packets).map fun calls => (afterCalls calls sender, calls)
  else if Resolvable pids sender then
    let (pathrate, _) := collectRates (fun pid => (info pid).ofCostType costType) pids
    (dispatcher (choose pathrate)).run sender packets.keys
  else none

/-- The delay of a queue in whole milliseconds. -/
def delay (rate : UInt8 → UInt32) (sender : MultipathSender) (pid : UInt8) : Nat :=
  (pendingLen sender pid).toNat * 8000 / (rate pid).toNat

/-- The delay after the product has wrapped at 32 bits. -/
def wrapped (rate : UInt8 → UInt32) (sender : MultipathSender) (pid : UInt8) : UInt32 :=
  pendingLen sender pid * 8 * 1000 / rate pid

variable {rate : UInt8 → UInt32} {pids : List UInt8} {packets : Packets} {sender : MultipathSender}

/-- A path with a positive rate and a least delay. -/
def Shortest (rate : UInt8 → UInt32) (pids : List UInt8) (sender : MultipathSender)
    (pid : UInt8) : Prop :=
  (pid ∈ pids ∧ rate pid ≠ 0) ∧
    ∀ other ∈ pids, rate other ≠ 0 → delay rate sender pid ≤ delay rate sender other

/-- A queue whose product does not have 32 bits, and that is not a shortest one, is behind
another one also in 32 bits. -/
def Behind (rate : UInt8 → UInt32) (pids : List UInt8) (sender : MultipathSender) : Prop :=
  ∀ pid ∈ pids, rate pid ≠ 0 → 2 ^ 32 ≤ (pendingLen sender pid).toNat * 8000 →
    (∃ other ∈ pids, rate other ≠ 0 ∧ delay rate sender other < delay rate sender pid) →
    ∃ other ∈ pids, rate other ≠ 0 ∧ (wrapped rate sender other < wrapped rate sender pid ∨
      wrapped rate sender other = wrapped rate sender pid ∧ other < pid)

theorem toNat_wrapped (pid : UInt8) : (wrapped rate sender pid).toNat =
    (pendingLen sender pid).toNat * 8000 % 2 ^ 32 / (rate pid).toNat := by
  rw [wrapped, UInt32.toNat_div, UInt32.toNat_mul, UInt32.toNat_mul]
  simp only [UInt32.reduceToNat]
  rw [Nat.mod_mul_mod, Nat.mul_assoc]

theorem toNat_wrapped_le (pid : UInt8) :
    (wrapped rate sender pid).toNat ≤ delay rate sender pid := by
  rw [toNat_wrapped, delay]
  exact Nat.div_le_div_right (Nat.mod_le _ _)

/-- A short queue has its delay also in 32 bits. -/
theorem toNat_wrapped_of_lt {pid : UInt8} (short : (pendingLen sender pid).toNat * 8000 < 2 ^ 32) :
    (wrapped rate sender pid).toNat = delay rate sender pid := by
  rw [toNat_wrapped, Nat.mod_eq_of_lt short, delay]

/-- The choice is the first path of those that are least in 32 bits. -/
theorem choose_spec (distinct : pids.Nodup) (resolvable : Resolvable pids sender)
    (some : ∃ pid ∈ pids, rate pid ≠ 0) :
    ∃ pid, choose (collectRates rate pids).1 sender = .some pid ∧ (pid ∈ pids ∧ rate pid ≠ 0) ∧
      ∀ other ∈ pids, rate other ≠ 0 →
        toLex (wrapped rate sender pid, pid) ≤ toLex (wrapped rate sender other, other) := by
  have known : ∀ entry ∈ (collectRates rate pids).1.entries,
      cost sender entry = .some (wrapped rate sender entry.1) := by
    intro entry member
    obtain ⟨registered, -, same⟩ := (mem_collectRates distinct).mp member
    obtain ⟨path, found⟩ := resolvable entry.1 registered
    rw [cost, found, wrapped, pendingLen, found, same]
    rfl
  have sorted := (collectRates rate pids).1.sorted
  have members : ∀ pid ∈ pids, rate pid ≠ 0 →
      (pid, rate pid) ∈ (collectRates rate pids).1.entries :=
    fun pid registered rated => (mem_collectRates distinct).mpr ⟨registered, rated, rfl⟩
  rw [choose]
  cases entries : (collectRates rate pids).1.entries with
  | nil =>
      obtain ⟨pid, registered, rated⟩ := some
      have member := members pid registered rated
      rw [entries] at member
      cases member
  | cons first rest =>
      rw [entries] at known sorted members
      have picked := Least.scan_mem (fun entry => wrapped rate sender entry.1)
        (first, wrapped rate sender first.1) rest
      have rated : ∀ entry ∈ first :: rest, entry.1 ∈ pids ∧ rate entry.1 ≠ 0 := by
        intro entry member
        obtain ⟨registered, rated, -⟩ := (mem_collectRates distinct).mp (entries ▸ member)
        exact ⟨registered, rated⟩
      have least := fun entry member => Least.scan_lex_le (a := entry)
        (fun entry : UInt8 × UInt32 => wrapped rate sender entry.1) (fun entry => entry.1) sorted
        member
      generalize best : Least.scan (fun entry => wrapped rate sender entry.1)
        (first, wrapped rate sender first.1) rest = pick at picked least
      refine ⟨pick.1.1, ?_, rated pick.1 picked, fun other registered otherRated =>
        least (other, rate other) (members other registered otherRated)⟩
      dsimp only
      rw [known first List.mem_cons_self, Option.bind_some, Least.scan?_of_defined
        fun entry later => known entry (List.mem_cons_of_mem first later), best, Option.map_some]

/-- **The choice is a shortest queue if and only if** every long queue that is not is behind
another one. -/
theorem choose_shortest_iff (distinct : pids.Nodup) (resolvable : Resolvable pids sender)
    (some : ∃ pid ∈ pids, rate pid ≠ 0) :
    (∃ pid, choose (collectRates rate pids).1 sender = .some pid ∧
      Shortest rate pids sender pid) ↔ Behind rate pids sender := by
  obtain ⟨pid, chosen, allowed, least⟩ := choose_spec distinct resolvable some
  constructor
  · rintro ⟨same, chosen', -, shortest⟩
    obtain rfl := Option.some.inj (chosen.symm.trans chosen')
    rintro long registered rated - ⟨other, otherRegistered, otherRated, less⟩
    refine ⟨pid, allowed.1, allowed.2, ?_⟩
    rcases Prod.Lex.toLex_le_toLex.mp (least long registered rated) with ahead | ⟨equal, before⟩
    · exact .inl ahead
    · refine .inr ⟨equal, lt_of_le_of_ne before ?_⟩
      rintro rfl
      exact absurd less (not_lt.mpr (shortest other otherRegistered otherRated))
  · intro behind
    refine ⟨pid, chosen, allowed, ?_⟩
    intro other registered rated
    by_contra less
    rcases Nat.lt_or_ge ((pendingLen sender pid).toNat * 8000) (2 ^ 32) with short | long
    · -- in 32 bits the delay of the choice is right, and no other one is greater than its own
      have atMost : wrapped rate sender pid ≤ wrapped rate sender other :=
        (Prod.Lex.toLex_le_toLex.mp (least other registered rated)).elim le_of_lt
          fun same => same.1.le
      rw [UInt32.le_iff_toNat_le, toNat_wrapped_of_lt short] at atMost
      exact less (atMost.trans (toNat_wrapped_le other))
    · obtain ⟨ahead, aheadRegistered, aheadRated, before⟩ :=
        behind pid allowed.1 allowed.2 long ⟨other, registered, rated, not_le.mp less⟩
      exact absurd (Prod.Lex.toLex_lt_toLex.mpr before)
        (not_lt.mpr (least ahead aheadRegistered aheadRated))

/-- **Every packet goes to a shortest queue if and only if** at every packet a long queue that
is not a shortest one is behind another one in 32 bits. -/
theorem incomingPackets_iff_shortest (costType : CostType) (info : UInt8 → PathRates)
    (distinct : pids.Nodup) (several : 2 ≤ pids.length) (many : 2 ≤ packets.size)
    (resolvable : Resolvable pids sender) (some : ∃ pid ∈ pids, (info pid).ofCostType costType ≠ 0) :
    (∃ last calls, incomingPackets costType info pids packets sender = .some (last, calls) ∧
      Serves (Shortest (fun pid => (info pid).ofCostType costType) pids) packets.keys sender
        calls) ↔
      (dispatcher (choose (collectRates (fun pid => (info pid).ofCostType costType) pids).1)).Along
        (fun sender _ => Behind (fun pid => (info pid).ofCostType costType) pids sender)
        sender packets.keys := by
  have split : ¬ Unsplit pids packets := fun unsplit =>
    unsplit.elim (fun one => by omega) (packetNum_ne_one many)
  rw [incomingPackets, if_neg split, if_pos resolvable, dispatcher_serves_iff]
  exact Machine.along_congr Resolvable.step
    (fun sender _ known => choose_shortest_iff distinct known some) resolvable

instance decidableBehind (rate : UInt8 → UInt32) (pids : List UInt8) (sender : MultipathSender) :
    Decidable (Behind rate pids sender) :=
  inferInstanceAs (Decidable (∀ pid ∈ pids, rate pid ≠ 0 →
    2 ^ 32 ≤ (pendingLen sender pid).toNat * 8000 →
      (∃ other ∈ pids, rate other ≠ 0 ∧ delay rate sender other < delay rate sender pid) →
        ∃ other ∈ pids, rate other ≠ 0 ∧ (wrapped rate sender other < wrapped rate sender pid ∨
          wrapped rate sender other = wrapped rate sender pid ∧ other < pid)))

/-- With 1500 bytes in one queue and 1000 in the other, each path gets a packet. -/
theorem incomingPackets_shortest_loaded :
    ∃ last calls, incomingPackets .cIntant (fun _ => ⟨1000000, 1000000⟩) [1, 2] twoPackets
        (twoQueues 1500 1000) = .some (last, calls) ∧ calls = [(1, 2), (2, 1)] ∧
      Serves (Shortest (fun _ => 1000000) [1, 2]) twoPackets.keys (twoQueues 1500 1000) calls := by
  obtain ⟨last, calls, scheduled, serves⟩ : ∃ last calls,
      incomingPackets .cIntant (fun _ => ⟨1000000, 1000000⟩) [1, 2] twoPackets
        (twoQueues 1500 1000) = .some (last, calls) ∧
      Serves (Shortest (fun _ => 1000000) [1, 2]) twoPackets.keys (twoQueues 1500 1000) calls :=
    (incomingPackets_iff_shortest .cIntant (fun _ => ⟨1000000, 1000000⟩) (by decide) (by decide)
      (by decide) (resolvable_twoQueues 1500 1000) ⟨1, by decide, by decide⟩).mpr
      (by decide +kernel)
  have chosen : (incomingPackets .cIntant (fun _ => ⟨1000000, 1000000⟩) [1, 2] twoPackets
      (twoQueues 1500 1000)).map Prod.snd = .some [(1, 2), (2, 1)] := by decide +kernel
  rw [scheduled, Option.map_some, Option.some.injEq] at chosen
  exact ⟨last, calls, scheduled, chosen, serves⟩

/-- A queue of 536871 bytes has wrapped, and gets both packets in place of a queue of 1000
bytes. -/
theorem longQueue_chosen :
    ∃ last calls, incomingPackets .cIntant (fun _ => ⟨1000000, 1000000⟩) [1, 2] twoPackets
        (twoQueues 536871 1000) = .some (last, calls) ∧ calls = [(1, 1), (2, 1)] ∧
      delay (fun _ => 1000000) (twoQueues 536871 1000) 2 <
        delay (fun _ => 1000000) (twoQueues 536871 1000) 1 ∧
      ¬ Serves (Shortest (fun _ => 1000000) [1, 2]) twoPackets.keys (twoQueues 536871 1000)
        calls := by
  have less : delay (fun _ => 1000000) (twoQueues 536871 1000) 2 <
      delay (fun _ => 1000000) (twoQueues 536871 1000) 1 := by decide
  have chosen : (incomingPackets .cIntant (fun _ => ⟨1000000, 1000000⟩) [1, 2] twoPackets
      (twoQueues 536871 1000)).map Prod.snd = .some [(1, 1), (2, 1)] := by decide +kernel
  obtain ⟨⟨last, calls⟩, scheduled, rfl⟩ := Option.map_eq_some_iff.mp chosen
  refine ⟨last, [(1, 1), (2, 1)], scheduled, rfl, less, fun serves => ?_⟩
  have shortest := serves.good [] (1, 1) [(2, 1)] rfl
  exact absurd less (not_lt.mpr (shortest.2 2 (by decide) (by decide)))

end MinQueueSchedule

end MpVideo.Schedule
