import MpVideo.Lib.Least
import MpVideo.V1.PathSender

/-!
# Retransmissions of the second generation

`interface_v1.cc` and the part of `mp_sender_v1.cc` that it works with. A path reports a
lost packet to the multipath sender; the scheduler chooses a registered path for it, and
the packet is queued there again if it is still in `sent_buf_`. A path that was stopped
can still report losses.

The search for the least round trip time leaves out the path of the report. With one
registered path there is no search and the packet goes back to the path of the report,
which may be another one; and a search in which no time is below `0xFFFFFFFF` ends with
path 0. Apart from this every retransmission goes to a registered path, another one if
there is one, with the least time (`retransmissions_alternative_iff`).
-/

set_option autoImplicit false

namespace MpVideo.V1

/-! ## The scheduler -/

/-- The registered paths of `ScheduleV1`, each once. -/
structure ScheduleV1 where
  pids : List UInt8 := []
  distinct : pids.Nodup := by exact List.nodup_nil

namespace ScheduleV1

/-- `RegisterPath`. -/
def registerPath (pid : UInt8) (schedule : ScheduleV1) : ScheduleV1 :=
  if known : pid ∈ schedule.pids then schedule
  else ⟨schedule.pids ++ [pid], List.nodup_append_comm.mp (schedule.distinct.cons known)⟩

/-- `UnregisterPath`. -/
def unregisterPath (pid : UInt8) (schedule : ScheduleV1) : ScheduleV1 :=
  ⟨schedule.pids.erase pid, schedule.distinct.erase pid⟩

/-- The loop of `RetransPackets`. A registered path that the sender does not know is a
null pointer that is read (`none`). -/
def minRttLoop (getPathInfo : UInt8 → Option PathSenderV1) (originPid : UInt8) :
    List UInt8 → UInt8 × UInt32 → Option UInt8
  | [], (minPid, _) => some minPid
  | pathId :: rest, (minPid, minRtt) =>
      if pathId = originPid then minRttLoop getPathInfo originPid rest (minPid, minRtt)
      else
        match getPathInfo pathId with
        | none => none
        | some path =>
            let rtt := path.curRtt
            minRttLoop getPathInfo originPid rest
              (if rtt < minRtt then (pathId, rtt) else (minPid, minRtt))

/-- `RetransPackets`: the calls of `PacketRetrans`, packet id and path. -/
def retransPackets (getPathInfo : UInt8 → Option PathSenderV1) (packetId : UInt32)
    (originPid : UInt8) (schedule : ScheduleV1) : Option (List (UInt32 × UInt8)) :=
  if schedule.pids.length = 1 then some [(packetId, originPid)]
  else
    (minRttLoop getPathInfo originPid schedule.pids (0, 0xFFFFFFFF)).map fun minPid =>
      [(packetId, minPid)]

end ScheduleV1

/-! ## The choice of a path -/

/-- The packet may go to this path: it is registered, not the path of the report if
another one is, and none of the others has less round trip time. -/
structure Alternative (pids : List UInt8) (rtt : UInt8 → UInt32) (originPid pid : UInt8) :
    Prop where
  registered : pid ∈ pids
  another : (∃ other ∈ pids, other ≠ originPid) → pid ≠ originPid
  least : ∀ other ∈ pids, other ≠ originPid → rtt pid ≤ rtt other

/-- The path of the report is the only one, or there are several and the time of another
one is below the start of the search or path 0 is another one. -/
def Choosable (pids : List UInt8) (rtt : UInt8 → UInt32) (originPid : UInt8) : Prop :=
  pids = [originPid] ∨
    2 ≤ pids.length ∧
      ((∃ pid ∈ pids, pid ≠ originPid ∧ rtt pid ≠ 0xFFFFFFFF) ∨ 0 ∈ pids ∧ 0 ≠ originPid)

/-- The round trip time of a path, zero for one that is not known. -/
def rttOf (getPathInfo : UInt8 → Option PathSenderV1) (pid : UInt8) : UInt32 :=
  (getPathInfo pid).elim 0 PathSenderV1.curRtt

/-- The loop is a scan of the other paths. -/
theorem ScheduleV1.minRttLoop_eq {getPathInfo : UInt8 → Option PathSenderV1} {originPid : UInt8}
    {pids : List UInt8} (known : ∀ pid ∈ pids, (getPathInfo pid).isSome) (best : UInt8 × UInt32) :
    minRttLoop getPathInfo originPid pids best =
      some (Least.scan (rttOf getPathInfo) best (pids.filter (· ≠ originPid))).1 := by
  induction pids generalizing best with
  | nil => rfl
  | cons pathId rest ih =>
      have later := ih fun pid member => known pid (List.mem_cons_of_mem pathId member)
      by_cases origin : pathId = originPid
      · have skipped : (pathId :: rest).filter (· ≠ originPid) = rest.filter (· ≠ originPid) :=
          List.filter_cons_of_neg (by simpa using origin)
        rw [minRttLoop, if_pos origin, skipped]
        exact later best
      · obtain ⟨path, found⟩ := Option.isSome_iff_exists.mp (known pathId List.mem_cons_self)
        have rtt : rttOf getPathInfo pathId = path.curRtt := by
          rw [rttOf, found]
          rfl
        have looked : (pathId :: rest).filter (· ≠ originPid) =
            pathId :: rest.filter (· ≠ originPid) :=
          List.filter_cons_of_pos (by simpa using origin)
        rw [minRttLoop, if_neg origin, found, looked, Least.scan_cons, Least.better, rtt]
        by_cases less : path.curRtt < best.2
        · simp only [if_pos less]
          exact later (pathId, path.curRtt)
        · simp only [if_neg less]
          exact later best

/-- Of several distinct paths one is not the origin. -/
theorem exists_other {pids : List UInt8} (distinct : pids.Nodup) (several : 2 ≤ pids.length)
    (originPid : UInt8) : ∃ other ∈ pids, other ≠ originPid := by
  rcases pids with _ | ⟨first, _ | ⟨second, rest⟩⟩
  · exact absurd several (by simp)
  · exact absurd several (by simp)
  · by_cases same : first = originPid
    · refine ⟨second, List.mem_cons_of_mem first List.mem_cons_self, fun equal => ?_⟩
      exact (List.nodup_cons.mp distinct).1 (by simp [same, equal])
    · exact ⟨first, List.mem_cons_self, same⟩

/-- **`RetransPackets` makes one call, for an alternative path, if and only if there is
one that it can choose.** -/
theorem ScheduleV1.retransPackets_alternative_iff {schedule : ScheduleV1}
    {getPathInfo : UInt8 → Option PathSenderV1} (nonempty : schedule.pids ≠ [])
    (known : ∀ pid ∈ schedule.pids, (getPathInfo pid).isSome) (packetId : UInt32)
    (originPid : UInt8) :
    (∃ pid, schedule.retransPackets getPathInfo packetId originPid = some [(packetId, pid)] ∧
        Alternative schedule.pids (rttOf getPathInfo) originPid pid) ↔
      Choosable schedule.pids (rttOf getPathInfo) originPid := by
  by_cases one : schedule.pids.length = 1
  · obtain ⟨only, pids⟩ := List.length_eq_one_iff.mp one
    rw [retransPackets, if_pos one]
    constructor
    · rintro ⟨pid, called, alternative⟩
      obtain rfl : originPid = pid := by simpa using called
      have registered := alternative.registered
      rw [pids, List.mem_singleton] at registered
      exact .inl (registered ▸ pids)
    · rintro (alone | ⟨several, -⟩)
      · refine ⟨originPid, rfl, ?_⟩
        rw [alone]
        refine ⟨List.mem_singleton_self _, ?_, ?_⟩
        · rintro ⟨other, member, differs⟩
          exact absurd (List.mem_singleton.mp member) differs
        · intro other member differs
          exact absurd (List.mem_singleton.mp member) differs
      · omega
  · have several : 2 ≤ schedule.pids.length := by
      have positive := List.length_pos_iff.mpr nonempty
      omega
    have another := exists_other schedule.distinct several originPid
    have alone : schedule.pids ≠ [originPid] := fun same => one (congrArg List.length same)
    have mem_others (pid : UInt8) :
        pid ∈ schedule.pids.filter (· ≠ originPid) ↔ pid ∈ schedule.pids ∧ pid ≠ originPid := by
      rw [List.mem_filter, decide_eq_true_eq]
    rw [retransPackets, if_neg one, minRttLoop_eq known, Option.map_some]
    rcases Least.scan_cases (rttOf getPathInfo) (0, 0xFFFFFFFF)
        (schedule.pids.filter (· ≠ originPid)) with ⟨stays, slow⟩ | ⟨best, found, chosen, fast⟩
    · -- no time is below the start of the search, which ends with path 0
      have slowest : ∀ pid ∈ schedule.pids, pid ≠ originPid →
          rttOf getPathInfo pid = 0xFFFFFFFF := by
        intro pid member differs
        have below := UInt32.le_iff_toNat_le.mp (slow pid ((mem_others pid).mpr ⟨member, differs⟩))
        have small := (rttOf getPathInfo pid).toNat_lt
        apply UInt32.toNat_inj.mp
        simp only [UInt32.reduceToNat] at below ⊢
        omega
      rw [stays]
      constructor
      · rintro ⟨pid, called, alternative⟩
        obtain rfl : 0 = pid := by simpa using called
        exact .inr ⟨several, .inr ⟨alternative.registered, alternative.another another⟩⟩
      · rintro (same | ⟨-, ⟨pid, member, differs, less⟩ | ⟨registered, differs⟩⟩)
        · exact absurd same alone
        · exact absurd (slowest pid member differs) less
        · refine ⟨0, rfl, registered, fun _ => differs, fun other member differs' => ?_⟩
          rw [slowest 0 registered differs, slowest other member differs']
    · obtain ⟨registered, differs⟩ := (mem_others best).mp found
      rw [chosen]
      refine iff_of_true ⟨best, rfl, registered, fun _ => differs, ?_⟩
        (.inr ⟨several, .inl ⟨best, registered, differs, ne_of_lt fast⟩⟩)
      intro other member differs'
      have least := Least.scan_le (rttOf getPathInfo)
        ((mem_others other).mpr ⟨member, differs'⟩) (0, 0xFFFFFFFF)
      rwa [chosen] at least

/-! ## The multipath sender -/

/-- The members of `MpSenderV1` that decide about retransmissions. -/
structure PathTables where
  waittingPaths : SortedMap UInt8 PathSenderV1 := .empty
  usablePaths : SortedMap UInt8 PathSenderV1 := .empty
  sentBuf : SortedMap UInt32 VideoPacketWrapper := .empty
  runing : Bool := true
  schedule : ScheduleV1 := {}

namespace PathTables

/-- `GetPathInfo`. -/
def getPathInfo (tables : PathTables) (pid : UInt8) : Option PathSenderV1 :=
  tables.usablePaths.find? pid

/-- `OnNetworkAvailable`. The timer that it starts changes none of these members. -/
def onNetworkAvailable (pid : UInt8) (tables : PathTables) : PathTables :=
  let tables :=
    match tables.waittingPaths.find? pid with
    | none => tables
    | some sender =>
        { tables with
          waittingPaths := tables.waittingPaths.erase pid
          usablePaths := tables.usablePaths.insert pid sender }
  { tables with schedule := tables.schedule.registerPath pid }

/-- `OnNetworkStop`. -/
def onNetworkStop (pid : UInt8) (tables : PathTables) : PathTables :=
  { tables with schedule := tables.schedule.unregisterPath pid, runing := false }

/-- `PacketRetrans`. -/
def packetRetrans (now packetId : UInt32) (pid : UInt8) (tables : PathTables) : PathTables :=
  match tables.sentBuf.find? packetId, tables.usablePaths.find? pid with
  | some packet, some path =>
      { tables with
        usablePaths := tables.usablePaths.set pid (path.onVideoPacket now packetId packet true) }
  | _, _ => tables

/-- `OnPacketLost`: the tables afterwards, and the calls of `PacketRetrans`. -/
def onPacketLost (now : UInt32) (pid : UInt8) (packetId : UInt32) (tables : PathTables) :
    Option (PathTables × List (UInt32 × UInt8)) :=
  (tables.schedule.retransPackets tables.getPathInfo packetId pid).map fun calls =>
    (calls.foldl (fun tables (packetId, pid) => tables.packetRetrans now packetId pid) tables,
      calls)

/-! ## Runs -/

/-- What happens to the tables. -/
inductive Event where
  | onNetworkAvailable (pid : UInt8)
  | onNetworkStop (pid : UInt8)
  | onPacketLost (now : UInt32) (pid : UInt8) (packetId : UInt32)
  /-- A packet enters `sent_buf_`. -/
  | packetSent (packetId : UInt32) (packet : VideoPacketWrapper)
  /-- A packet leaves `sent_buf_`. -/
  | packetStale (packetId : UInt32)
  /-- A path is in another state, by what it does itself. -/
  | pathMoved (pid : UInt8) (path : PathSenderV1)

/-- What happens on an event. Only a path of the sender says that it is available. -/
def handle (tables : PathTables) : Event → Option (PathTables × List (UInt32 × UInt8))
  | .onNetworkAvailable pid =>
      if pid ∈ tables.waittingPaths.keys ∨ pid ∈ tables.usablePaths.keys then
        some (tables.onNetworkAvailable pid, [])
      else none
  | .onNetworkStop pid => some (tables.onNetworkStop pid, [])
  | .onPacketLost now pid packetId => tables.onPacketLost now pid packetId
  | .packetSent packetId packet =>
      some ({ tables with sentBuf := tables.sentBuf.insert packetId packet }, [])
  | .packetStale packetId =>
      some ({ tables with sentBuf := tables.sentBuf.erase packetId }, [])
  | .pathMoved pid path =>
      if pid ∈ tables.usablePaths.keys then
        some ({ tables with usablePaths := tables.usablePaths.set pid path }, [])
      else none

/-- The tables as a machine. -/
def machine : Machine PathTables Event (UInt32 × UInt8) := ⟨handle⟩

/-- Each registered path is one of the sender. -/
def Known (tables : PathTables) : Prop :=
  ∀ pid ∈ tables.schedule.pids, pid ∈ tables.usablePaths.keys

theorem Known.onNetworkAvailable {tables : PathTables} (known : tables.Known) {pid : UInt8}
    (sender : pid ∈ tables.waittingPaths.keys ∨ pid ∈ tables.usablePaths.keys) :
    (tables.onNetworkAvailable pid).Known := by
  have usable : ∀ other, other = pid ∨ other ∈ tables.usablePaths.keys →
      other ∈ (tables.onNetworkAvailable pid).usablePaths.keys := by
    intro other either
    rw [PathTables.onNetworkAvailable]
    cases found : tables.waittingPaths.find? pid with
    | none =>
        have absent : pid ∉ tables.waittingPaths.keys := by
          intro member
          obtain ⟨path, there⟩ := SortedMap.mem_keys_iff.mp member
          cases found.symm.trans there
        rcases either with rfl | old
        · exact sender.resolve_left absent
        · exact old
    | some path =>
        exact SortedMap.mem_keys_insert.mpr either
  have registered : (tables.onNetworkAvailable pid).schedule =
      tables.schedule.registerPath pid := by
    rw [PathTables.onNetworkAvailable]
    cases tables.waittingPaths.find? pid with
    | none => rfl
    | some path => rfl
  intro other member
  rw [registered, ScheduleV1.registerPath] at member
  split_ifs at member with already
  · exact usable other (.inr (known other member))
  · rcases List.mem_append.mp member with old | new
    · exact usable other (.inr (known other old))
    · exact usable other (.inl (List.mem_singleton.mp new))

theorem Known.packetRetrans {tables : PathTables} (known : tables.Known) (now packetId : UInt32)
    (pid : UInt8) : (tables.packetRetrans now packetId pid).Known := by
  rw [PathTables.packetRetrans]
  split
  · exact fun other member => SortedMap.mem_keys_set.mpr (.inr (known other member))
  · exact known

/-- An event keeps the registered paths known. -/
theorem Known.handle {tables next : PathTables} {event : Event} {calls : List (UInt32 × UInt8)}
    (known : tables.Known) (handled : tables.handle event = some (next, calls)) : next.Known := by
  cases event with
  | onNetworkAvailable pid =>
      rw [PathTables.handle] at handled
      split_ifs at handled with sender
      obtain ⟨rfl, -⟩ := Prod.mk.inj (Option.some.inj handled)
      exact known.onNetworkAvailable sender
  | onNetworkStop pid =>
      obtain ⟨rfl, -⟩ := Prod.mk.inj (Option.some.inj handled)
      exact fun other member => known other (List.mem_of_mem_erase member)
  | onPacketLost now pid packetId =>
      obtain ⟨calls, -, same⟩ := Option.map_eq_some_iff.mp handled
      obtain ⟨rfl, -⟩ := Prod.mk.inj same
      exact List.foldlRecOn calls _ known fun tables known call _ =>
        known.packetRetrans now call.1 call.2
  | packetSent packetId packet | packetStale packetId =>
      obtain ⟨rfl, -⟩ := Prod.mk.inj (Option.some.inj handled)
      exact known
  | pathMoved pid path =>
      rw [PathTables.handle] at handled
      split_ifs at handled with usable
      obtain ⟨rfl, -⟩ := Prod.mk.inj (Option.some.inj handled)
      exact fun other member => SortedMap.mem_keys_set.mpr (.inr (known other member))

/-- The calls that a reported loss leads to: one, for an alternative path. -/
def RetransmitsOnce (tables : PathTables) (now : UInt32) (pid : UInt8) (packetId : UInt32) :
    Prop :=
  ∃ next target, tables.onPacketLost now pid packetId = some (next, [(packetId, target)]) ∧
    Alternative tables.schedule.pids (rttOf tables.getPathInfo) pid target

theorem Known.retransmitsOnce_iff {tables : PathTables} (known : tables.Known)
    (nonempty : tables.schedule.pids ≠ []) (now : UInt32) (pid : UInt8) (packetId : UInt32) :
    tables.RetransmitsOnce now pid packetId ↔
      Choosable tables.schedule.pids (rttOf tables.getPathInfo) pid := by
  have found : ∀ other ∈ tables.schedule.pids, (tables.getPathInfo other).isSome := by
    intro other member
    obtain ⟨path, found⟩ := SortedMap.mem_keys_iff.mp (known other member)
    exact Option.isSome_iff_exists.mpr ⟨path, found⟩
  rw [← ScheduleV1.retransPackets_alternative_iff nonempty found packetId]
  constructor
  · rintro ⟨next, target, lost, alternative⟩
    obtain ⟨calls, called, same⟩ := Option.map_eq_some_iff.mp lost
    obtain ⟨-, rfl⟩ := Prod.mk.inj same
    exact ⟨target, called, alternative⟩
  · rintro ⟨target, called, alternative⟩
    exact ⟨_, target, Option.map_eq_some_iff.mpr ⟨_, called, rfl⟩, alternative⟩

/-- **Retransmissions go to a registered alternative if and only if there is one that
the search can choose**, in every run in which paths become available, stop, change and
report losses, whatever paths wait at its start. -/
theorem retransmissions_alternative_iff (waitting : SortedMap UInt8 PathSenderV1)
    (events : List Event) :
    (∀ n tables now pid packetId,
        machine.Before { waittingPaths := waitting } events n tables
          (.onPacketLost now pid packetId) →
        tables.schedule.pids ≠ [] → tables.RetransmitsOnce now pid packetId) ↔
      ∀ n tables now pid packetId,
        machine.Before { waittingPaths := waitting } events n tables
          (.onPacketLost now pid packetId) →
        tables.schedule.pids ≠ [] →
          Choosable tables.schedule.pids (rttOf tables.getPathInfo) pid := by
  refine forall_congr' fun n => forall_congr' fun tables => forall_congr' fun now =>
    forall_congr' fun pid => forall_congr' fun packetId => forall_congr' fun before =>
      forall_congr' fun nonempty => ?_
  have known : tables.Known :=
    Machine.before_invariant Known (fun _ _ _ _ known handled => known.handle handled)
      (fun _ member => absurd member List.not_mem_nil) before
  exact known.retransmitsOnce_iff nonempty now pid packetId

/-- Path 1 stops and reports a loss when only path 2 is registered. -/
def stoppedReports : List Event :=
  [.onNetworkAvailable 1, .onNetworkAvailable 2, .onNetworkStop 1, .onPacketLost 90 1 7]

/-- The packet goes back to path 1. -/
theorem stoppedReports_same_path :
    ¬ ∀ n tables now pid packetId,
        machine.Before { waittingPaths := ⟨[(1, {}), (2, {})], by decide⟩ } stoppedReports n tables
          (.onPacketLost now pid packetId) →
        tables.schedule.pids ≠ [] → tables.RetransmitsOnce now pid packetId := by
  intro always
  obtain ⟨next, target, lost, alternative⟩ :=
    always 3 _ 90 1 7 ⟨⟨_, rfl⟩, rfl⟩ (by decide)
  obtain ⟨calls, called, same⟩ := Option.map_eq_some_iff.mp lost
  obtain ⟨-, rfl⟩ := Prod.mk.inj same
  obtain rfl : 1 = target := by
    have sent : some [((7 : UInt32), (1 : UInt8))] = some [(7, target)] := called
    simpa using sent
  exact absurd alternative.registered (by decide)

end PathTables

end MpVideo.V1
