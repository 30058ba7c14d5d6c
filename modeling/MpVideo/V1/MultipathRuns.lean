import MpVideo.V1.LossDetection
import MpVideo.V1.StaleSweep

/-!
# The multipath sender with its paths

`MpSenderV1`, the scheduler and the usable paths together. A frame becomes packets, the
scheduler gives each of them to a path, and a path sends what it has queued. An acknowledgement
makes `DetectLoss` report the packets that it finds lost one by one, and while the loop runs
each report queues its packet on a path again, which may be the same one.

The model of a single path takes what is queued in the loop as an argument. Here the loop calls
the multipath sender, and each usable path of a run is such a path with the packets that the
sender queues (`paths_refine`).
-/

set_option autoImplicit false

namespace MpVideo.V1

open PathSenderV1

/-- What becomes of a packet. -/
inductive PacketNews where
  | made (packetId : UInt32)
  /-- The packet is acknowledged by the number that it was sent with. -/
  | delivered (packetId : UInt32)
  /-- The packet is queued again. -/
  | requeued (packetId : UInt32) (pid : UInt8)
  /-- The packet is lost, and it left `sent_buf_` before. -/
  | stale (packetId : UInt32)
  /-- The packet is for a path that is not usable. -/
  | misrouted (packetId : UInt32) (pid : UInt8)

/-- The packet id that the loop of `DetectLoss` reports for a number. -/
def PathSenderV1.reported (i : UInt64) (path : PathSenderV1) : Option UInt32 :=
  if path.mpsender then path.packetIdOf i else none

namespace PathTables

/-- A usable path is in another state. -/
def withPath (pid : UInt8) (path : PathSenderV1) (tables : PathTables) : PathTables :=
  { tables with usablePaths := tables.usablePaths.set pid path }

/-- What a call of `PacketRetrans` comes to. -/
def retransNews (tables : PathTables) (call : UInt32 × UInt8) : PacketNews :=
  if (tables.sentBuf.find? call.1).isSome then
    if (tables.usablePaths.find? call.2).isSome then .requeued call.1 call.2
    else .misrouted call.1 call.2
  else .stale call.1

/-- One round of the loop of `DetectLoss` on a path. -/
def declareLost (now : UInt32) (pid : UInt8) (i : UInt64) (tables : PathTables) :
    Option (PathTables × List PacketNews) :=
  match tables.getPathInfo pid with
  | none => none
  | some path =>
      match path.reported i with
      | none => some (tables, [])
      | some packetId =>
          (tables.onPacketLost now path.pid packetId).map fun (next, calls) =>
            (next, calls.map tables.retransNews)

/-- The loop of `DetectLoss` on a path, a number of rounds from `i` on. -/
def lossLoop (now : UInt32) (pid : UInt8) :
    ℕ → UInt64 → PathTables → Option (PathTables × List PacketNews)
  | 0, _, tables => some (tables, [])
  | n + 1, i, tables =>
      (tables.declareLost now pid i).bind fun (tables, lost) =>
        (lossLoop now pid n (i + 1) tables).map fun (tables, more) => (tables, lost ++ more)

/-- A path does something. -/
def modifyPath (pid : UInt8) (change : PathSenderV1 → PathSenderV1) (tables : PathTables) :
    PathTables :=
  match tables.getPathInfo pid with
  | none => tables
  | some path => tables.withPath pid (change path)

/-- `DetectLoss` of a path. -/
def detectLoss (now : UInt32) (pid : UInt8) (seq : UInt64) (path : PathSenderV1)
    (tables : PathTables) : Option (PathTables × List PacketNews) :=
  if path.recvSeq + 1 ≤ seq then
    let i := path.recvSeq + 1
    (tables.lossLoop now pid (seq - i).toNat i).map fun (tables, lost) =>
      (tables.modifyPath pid fun path =>
        { path with recvSeq := seq, seqIdMap := path.seqIdMap.popLe seq },
        lost ++ ((path.packetIdOf seq).map PacketNews.delivered).toList)
  else
    some (tables.modifyPath pid fun path =>
      { path with seqIdMap := path.seqIdMap.popLe seq }, [])

/-- `OnAck` of a path. -/
def onAck (now : UInt32) (pid : UInt8) (seq : UInt64) (path : PathSenderV1) (tables : PathTables) :
    Option (PathTables × List PacketNews) :=
  let path := path.updateRtt now seq
  (tables.withPath pid path).detectLoss now pid seq path

end PathTables

/-- What happens at the sender. -/
inductive MpEvent where
  | onVideoFrame (frame : Frame)
  | packetSchedule (packetId : UInt32) (pid : UInt8)
  | checkStalePacket
  | onNetworkAvailable (pid : UInt8)
  | onNetworkStop (pid : UInt8)
  | sendPaddingPacket (pid : UInt8)
  | sendStreamPacket (pid : UInt8) (isRetrans : Bool)
  | onAck (pid : UInt8) (seq : UInt64)

namespace SenderBuffers

/-- The tables are others. -/
def withTables (tables : PathTables) (s : SenderBuffers) : SenderBuffers := { s with tables }

/-- The ids of the packets of a frame. -/
def nextIds (frame : Frame) (s : SenderBuffers) : List UInt32 :=
  (List.range frame.splits.length).map fun i => s.sender.packetId + UInt32.ofNat i

/-- What `PacketSchedule` comes to. -/
def scheduleNews (packetId : UInt32) (pid : UInt8) (s : SenderBuffers) : List PacketNews :=
  if s.tables.runing ∧ (s.tables.usablePaths.find? pid).isNone then [.misrouted packetId pid]
  else []

/-- What happens on an event; `none` is undefined behaviour, or an event that cannot happen.
Only the paths of the sender become available, and only numbers that were sent are
acknowledged. -/
def handle (quic : QuicData) (now : UInt32) (s : SenderBuffers) :
    MpEvent → Option (SenderBuffers × List PacketNews)
  | .onVideoFrame frame =>
      (s.call now (.onVideoFrame frame)).map (·, (s.nextIds frame).map .made)
  | .packetSchedule packetId pid =>
      (s.call now (.packetSchedule packetId pid)).map (·, s.scheduleNews packetId pid)
  | .checkStalePacket => (s.call now .checkStalePacket).map (·, [])
  | .onNetworkAvailable pid =>
      if pid ∈ s.tables.waittingPaths.keys ∨ pid ∈ s.tables.usablePaths.keys then
        (s.call now (.onNetworkAvailable pid)).map (·, [])
      else none
  | .onNetworkStop pid => (s.call now (.onNetworkStop pid)).map (·, [])
  | .sendPaddingPacket pid =>
      (s.tables.getPathInfo pid).map fun path =>
        (s.withTables (s.tables.withPath pid (path.sendPaddingPacket now)), [])
  | .sendStreamPacket pid isRetrans =>
      (s.tables.getPathInfo pid).bind fun path =>
        (path.sendStreamPacket quic now isRetrans).map fun (path, _) =>
          (s.withTables (s.tables.withPath pid path), [])
  | .onAck pid seq =>
      (s.tables.getPathInfo pid).bind fun path =>
        if 0 < seq ∧ seq < path.seq then
          (s.tables.onAck now pid seq path).map fun (tables, news) => (s.withTables tables, news)
        else none

/-- The sender as a machine, with the time of each event. -/
def multipath (quic : QuicData) : Machine SenderBuffers (UInt32 × MpEvent) PacketNews :=
  ⟨fun s event => s.handle quic event.1 event.2⟩

/-- The sender before the first frame, with the paths that were registered. -/
def registered (waittingPaths : SortedMap UInt8 PathSenderV1) : SenderBuffers where
  tables := { waittingPaths }

end SenderBuffers

/-- The paths are as `RegisterSender` leaves them. -/
def Unused (paths : SortedMap UInt8 PathSenderV1) : Prop :=
  ∀ entry ∈ paths.entries, ∃ traceLossCb,
    entry.2 = { pid := entry.1, mpsender := true, traceLossCb }

/-! ## What a report does -/

namespace PathTables

variable {tables next : PathTables} {now : UInt32} {pid : UInt8} {i : UInt64}
  {path : PathSenderV1} {news : List PacketNews}

/-- A report for a packet queues it again on one path, or changes nothing. -/
inductive Retransmits (now : UInt32) (tables : PathTables) (packetId : UInt32) :
    PathTables → List PacketNews → Prop where
  | requeued (target : UInt8) (path : PathSenderV1) (packet : VideoPacketWrapper)
      (kept : tables.sentBuf.find? packetId = some packet)
      (usable : tables.usablePaths.find? target = some path) :
      Retransmits now tables packetId
        (tables.withPath target (path.onVideoPacket now packetId packet true))
        [.requeued packetId target]
  | stale (gone : tables.sentBuf.find? packetId = none) :
      Retransmits now tables packetId tables [.stale packetId]
  | misrouted (target : UInt8) : Retransmits now tables packetId tables [.misrouted packetId target]

theorem retransmits_onPacketLost {packetId : UInt32} {calls : List (UInt32 × UInt8)}
    (lost : tables.onPacketLost now pid packetId = some (next, calls)) :
    Retransmits now tables packetId next (calls.map tables.retransNews) := by
  obtain ⟨made, called, eq⟩ := Option.map_eq_some_iff.mp lost
  obtain ⟨rfl, rfl⟩ := Prod.mk.inj eq
  have one : ∃ target, made = [(packetId, target)] := by
    rw [ScheduleV1.retransPackets] at called
    split_ifs at called
    · exact ⟨pid, (Option.some.inj called).symm⟩
    · obtain ⟨target, -, eq⟩ := Option.map_eq_some_iff.mp called
      exact ⟨target, eq.symm⟩
  obtain ⟨target, rfl⟩ := one
  simp only [List.foldl_cons, List.foldl_nil, List.map_cons, List.map_nil, packetRetrans,
    retransNews]
  cases kept : tables.sentBuf.find? packetId with
  | none =>
      simp only [Option.isSome_none, Bool.false_eq_true, if_false]
      exact .stale kept
  | some packet =>
      cases usable : tables.usablePaths.find? target with
      | none =>
          simp only [Option.isSome_some, Option.isSome_none, Bool.false_eq_true, if_true, if_false]
          exact .misrouted target
      | some path =>
          simp only [Option.isSome_some, if_true]
          exact .requeued target path packet kept usable

/-- **What one round of the loop does.** -/
theorem declareLost_cases (found : tables.getPathInfo pid = some path)
    (lost : tables.declareLost now pid i = some (next, news)) :
    (path.reported i = none ∧ next = tables ∧ news = []) ∨
      ∃ packetId, path.reported i = some packetId ∧ Retransmits now tables packetId next news := by
  simp only [declareLost, found] at lost
  cases reported : path.reported i with
  | none =>
      simp only [reported] at lost
      obtain ⟨rfl, rfl⟩ := Prod.mk.inj (Option.some.inj lost)
      exact .inl ⟨rfl, rfl, rfl⟩
  | some packetId =>
      simp only [reported] at lost
      obtain ⟨⟨next, calls⟩, done, eq⟩ := Option.map_eq_some_iff.mp lost
      obtain ⟨rfl, rfl⟩ := Prod.mk.inj eq
      exact .inr ⟨packetId, rfl, retransmits_onPacketLost done⟩

/-! ## What the loop does to the paths -/

/-- The paths queued packets again, and nothing else changed. -/
structure Requeued (now : UInt32) (tables next : PathTables) (retrans : UInt8 → Retrans) :
    Prop where
  usable : ∀ pid, next.usablePaths.find? pid =
    (tables.usablePaths.find? pid).map (PathSenderV1.requeue now (retrans pid))
  rest : next = { tables with usablePaths := next.usablePaths }

theorem Requeued.refl (now : UInt32) (tables : PathTables) :
    Requeued now tables tables fun _ => [] where
  usable pid := by
    cases tables.usablePaths.find? pid with
    | none => rfl
    | some path => rfl
  rest := rfl

theorem Requeued.trans {middle : PathTables} {retrans more : UInt8 → Retrans}
    (first : Requeued now tables middle retrans) (second : Requeued now middle next more) :
    Requeued now tables next fun pid => retrans pid ++ more pid where
  usable pid := by
    rw [second.usable, first.usable, Option.map_map]
    refine congrArg (Option.map · _) (funext fun path => ?_)
    exact List.foldl_append.symm
  rest := by
    rw [second.rest, first.rest]

theorem Retransmits.requeues {packetId : UInt32}
    (retransmits : Retransmits now tables packetId next news) :
    ∃ retrans, Requeued now tables next retrans := by
  cases retransmits with
  | requeued target path packet kept usable =>
      refine ⟨fun pid => if pid = target then [(packetId, packet)] else [], fun pid => ?_, rfl⟩
      by_cases same : pid = target
      · subst same
        rw [if_pos rfl, usable]
        exact SortedMap.find?_set_self _ _ _
      · rw [if_neg same]
        have other : (tables.withPath target
            (path.onVideoPacket now packetId packet true)).usablePaths.find? pid =
              tables.usablePaths.find? pid := SortedMap.find?_set_of_ne _ same _
        rw [other]
        cases tables.usablePaths.find? pid with
        | none => rfl
        | some path => rfl
  | stale gone => exact ⟨_, .refl now tables⟩
  | misrouted target => exact ⟨_, .refl now tables⟩

/-- One round queues packets again, for a number with a packet id. -/
theorem declareLost_requeues (found : tables.getPathInfo pid = some path)
    (lost : tables.declareLost now pid i = some (next, news)) :
    ∃ retrans, Requeued now tables next retrans ∧ (path.reported i = none → retrans pid = []) := by
  rcases declareLost_cases found lost with ⟨-, rfl, -⟩ | ⟨packetId, reported, retransmits⟩
  · exact ⟨_, .refl now _, fun _ => rfl⟩
  · obtain ⟨retrans, requeued⟩ := retransmits.requeues
    exact ⟨retrans, requeued, fun none => nomatch none.symm.trans reported⟩

end PathTables

namespace PathSenderV1

variable {now rtt : UInt32} {path : PathSenderV1}

/-- A round of the loop with the packets that are queued again. -/
theorem declareLost_eq_requeue {i : UInt64} {retrans : Retrans}
    (silent : path.reported i = none → retrans = []) :
    (path.declareLost now rtt retrans i).1 = path.requeue now retrans := by
  cases reported : path.reported i with
  | none =>
      rw [silent reported]
      have either (called : Bool) : (if called then path.requeue now [] else path) = path := by
        cases called <;> rfl
      exact either _
  | some packetId =>
      rw [PathSenderV1.reported] at reported
      split_ifs at reported with mpsender
      have called : (if path.mpsender then (path.packetIdOf i).map (path.pid, ·)
          else none).isSome = true := by
        rw [if_pos mpsender, reported]
        rfl
      exact if_pos called

/-- The loop looks at its own numbers. -/
theorem lossLoop_congr {retrans more : UInt64 → Retrans} {n : ℕ} {i : UInt64}
    (same : ∀ k < n, retrans (i + UInt64.ofNat k) = more (i + UInt64.ofNat k)) :
    path.lossLoop now rtt retrans n i = path.lossLoop now rtt more n i := by
  induction n generalizing i path with
  | zero => rfl
  | succ n ih =>
      have first : retrans i = more i := by
        simpa using same 0 (Nat.succ_pos n)
      have later (path : PathSenderV1) : path.lossLoop now rtt retrans n (i + 1) =
          path.lossLoop now rtt more n (i + 1) := by
        refine ih fun k inside => ?_
        have next := same (k + 1) (Nat.succ_lt_succ inside)
        rwa [Nat.add_comm k 1, UInt64.ofNat_add, ← UInt64.add_assoc] at next
      simp only [lossLoop, first, later]

end PathSenderV1

namespace PathTables

variable {tables next : PathTables} {now : UInt32} {pid : UInt8} {i seq : UInt64}
  {path : PathSenderV1} {news : List PacketNews}

/-- **The loop is that of the path**, with the packets that the reports queue on it, and it
queues packets on the other paths. -/
theorem lossLoop_requeues (rtt : UInt32) {n : ℕ} (few : n ≤ 2 ^ 64)
    (found : tables.getPathInfo pid = some path)
    (ran : tables.lossLoop now pid n i = some (next, news)) :
    ∃ own : UInt64 → Retrans, ∃ retrans, Requeued now tables next retrans ∧
      path.requeue now (retrans pid) = (path.lossLoop now rtt own n i).1 := by
  induction n generalizing tables path i news with
  | zero =>
      obtain ⟨rfl, rfl⟩ := Prod.mk.inj (Option.some.inj ran)
      exact ⟨fun _ => [], _, .refl now _, rfl⟩
  | succ n ih =>
      obtain ⟨⟨middle, lost⟩, round, onwards⟩ := Option.bind_eq_some_iff.mp ran
      obtain ⟨⟨last, more⟩, rest, eq⟩ := Option.map_eq_some_iff.mp onwards
      obtain ⟨rfl, rfl⟩ := Prod.mk.inj eq
      obtain ⟨first, requeued, silent⟩ := declareLost_requeues found round
      have after : middle.getPathInfo pid = some (path.requeue now (first pid)) := by
        rw [getPathInfo, requeued.usable, show tables.usablePaths.find? pid = _ from found]
        rfl
      obtain ⟨own, later, requeuedLater, loop⟩ := ih (by omega) after rest
      refine ⟨fun k => if k = i then first pid else own k, _, requeued.trans requeuedLater, ?_⟩
      -- the numbers behind this one are others
      have others (path : PathSenderV1) :
          path.lossLoop now rtt (fun k => if k = i then first pid else own k) n (i + 1) =
            path.lossLoop now rtt own n (i + 1) := by
        refine lossLoop_congr fun k inside => if_neg fun same => ?_
        have toNat := congrArg UInt64.toNat same
        have small := i.toNat_lt
        simp only [UInt64.toNat_add, UInt64.toNat_ofNat', UInt64.reduceToNat] at toNat
        omega
      have round : (path.declareLost now rtt (if i = i then first pid else own i) i).1 =
          path.requeue now (first pid) := by
        rw [if_pos rfl]
        exact declareLost_eq_requeue silent
      calc path.requeue now (first pid ++ later pid)
          = (path.requeue now (first pid)).requeue now (later pid) := List.foldl_append
        _ = ((path.requeue now (first pid)).lossLoop now rtt own n (i + 1)).1 := loop
        _ = ((path.declareLost now rtt (if i = i then first pid else own i) i).1.lossLoop now rtt
              (fun k => if k = i then first pid else own k) n (i + 1)).1 := by rw [round, others]
        _ = (path.lossLoop now rtt (fun k => if k = i then first pid else own k) (n + 1) i).1 := rfl

/-- What `OnAck` does to the paths. -/
structure AckedPath (now : UInt32) (pid : UInt8) (seq : UInt64) (path : PathSenderV1)
    (tables next : PathTables) : Prop where
  own : ∃ retrans, next.getPathInfo pid = some (path.onAck now retrans seq).1
  others : ∀ other, other ≠ pid → ∃ retrans, next.getPathInfo other =
    (tables.getPathInfo other).map (PathSenderV1.requeue now retrans)
  rest : next = { tables with usablePaths := next.usablePaths }

theorem modifyPath_eq {change : PathSenderV1 → PathSenderV1}
    (found : tables.getPathInfo pid = some path) :
    tables.modifyPath pid change = tables.withPath pid (change path) := by
  rw [modifyPath, found]

/-- **An acknowledgement changes its path as the model of one path says**, and queues packets on
the others. -/
theorem ackedPath_onAck (ran : tables.onAck now pid seq path = some (next, news)) :
    AckedPath now pid seq path tables next := by
  have set (path : PathSenderV1) (tables : PathTables) :
      (tables.withPath pid path).getPathInfo pid = some path := SortedMap.find?_set_self _ _ _
  have keep (path : PathSenderV1) (tables : PathTables) {other : UInt8} (differs : other ≠ pid) :
      (tables.withPath pid path).getPathInfo other = tables.getPathInfo other :=
    SortedMap.find?_set_of_ne _ differs _
  simp only [onAck, detectLoss] at ran
  have start := set (path.updateRtt now seq) tables
  split_ifs at ran with ahead
  · obtain ⟨⟨looped, lost⟩, loop, eq⟩ := Option.map_eq_some_iff.mp ran
    obtain ⟨rfl, rfl⟩ := Prod.mk.inj eq
    have few : (seq - ((path.updateRtt now seq).recvSeq + 1)).toNat ≤ 2 ^ 64 :=
      le_of_lt (UInt64.toNat_lt _)
    obtain ⟨own, retrans, requeued, same⟩ :=
      lossLoop_requeues (path.updateRtt now seq).curRtt few start loop
    have after : looped.getPathInfo pid =
        some ((path.updateRtt now seq).requeue now (retrans pid)) := by
      rw [getPathInfo, requeued.usable,
        show (tables.withPath pid _).usablePaths.find? pid = _ from start]
      rfl
    rw [same] at after
    rw [modifyPath_eq after]
    refine ⟨⟨own, ?_⟩, fun other differs => ⟨retrans other, ?_⟩, ?_⟩
    · rw [set, PathSenderV1.onAck, PathSenderV1.detectLoss, if_pos ahead]
    · rw [keep _ _ differs, getPathInfo, requeued.usable]
      exact congrArg (Option.map _) (keep _ _ differs)
    · rw [requeued.rest]
      rfl
  · obtain ⟨rfl, rfl⟩ := Prod.mk.inj (Option.some.inj ran)
    rw [modifyPath_eq start]
    refine ⟨⟨fun _ => [], ?_⟩, fun other differs => ⟨[], ?_⟩, rfl⟩
    · rw [set, PathSenderV1.onAck, PathSenderV1.detectLoss, if_neg ahead]
    · rw [keep _ _ differs, keep _ _ differs]
      cases tables.getPathInfo other with
      | none => rfl
      | some path => rfl

end PathTables

/-! ## Each path runs on its own -/

/-- A path is the path of a run with at most so many numbers. -/
def PathRuns (quic : QuicData) (pid : UInt8) (n : ℕ) (path : PathSenderV1) : Prop :=
  ∃ traceLossCb events numbered log, (NumberedPath.machine quic).run
    { path := { pid, mpsender := true, traceLossCb } } events = some (numbered, log) ∧
    numbered.path = path ∧ numbered.sent.length ≤ n

namespace PathRuns

variable {quic : QuicData} {pid : UInt8} {n : ℕ} {path : PathSenderV1} {now : UInt32}

theorem start (quic : QuicData) (pid : UInt8) (traceLossCb : Bool) :
    PathRuns quic pid 0 { pid, mpsender := true, traceLossCb } :=
  ⟨traceLossCb, [], _, [], rfl, rfl, le_refl 0⟩

theorem mono {more : ℕ} (runs : PathRuns quic pid n path) (grows : n ≤ more) :
    PathRuns quic pid more path := by
  obtain ⟨traceLossCb, events, numbered, log, ran, same, few⟩ := runs
  exact ⟨traceLossCb, events, numbered, log, ran, same, le_trans few grows⟩

theorem onVideoPacket (runs : PathRuns quic pid n path) (now packetId : UInt32)
    (packet : VideoPacketWrapper) (isRetrans : Bool) :
    PathRuns quic pid n (path.onVideoPacket now packetId packet isRetrans) := by
  obtain ⟨traceLossCb, events, numbered, log, ran, rfl, few⟩ := runs
  have stepped : (NumberedPath.machine quic).step numbered
      (.onVideoPacket now packetId packet isRetrans) = some ({ numbered with
        path := numbered.path.onVideoPacket now packetId packet isRetrans }, []) := rfl
  exact ⟨traceLossCb, _, _, _, Machine.run_concat ran stepped, rfl, few⟩

theorem requeue (runs : PathRuns quic pid n path) (now : UInt32) (retrans : Retrans) :
    PathRuns quic pid n (path.requeue now retrans) := by
  induction retrans generalizing path with
  | nil => exact runs
  | cons one rest ih => exact ih (runs.onVideoPacket now one.1 one.2 true)

theorem sendPaddingPacket (runs : PathRuns quic pid n path) (now : UInt32) :
    PathRuns quic pid (n + 1) (path.sendPaddingPacket now) := by
  obtain ⟨traceLossCb, events, numbered, log, ran, rfl, few⟩ := runs
  have stepped : (NumberedPath.machine quic).step numbered (.sendPaddingPacket now) = some
      (⟨numbered.path.sendPaddingPacket now, (numbered.path.seq, none) :: numbered.sent⟩, []) := rfl
  exact ⟨traceLossCb, _, _, _, Machine.run_concat ran stepped, rfl, Nat.succ_le_succ few⟩

theorem sendStreamPacket (runs : PathRuns quic pid n path) {isRetrans : Bool}
    {sent : PathSenderV1 × UInt32} (ran : path.sendStreamPacket quic now isRetrans = some sent) :
    PathRuns quic pid (n + 1) sent.1 := by
  obtain ⟨traceLossCb, events, numbered, log, before, rfl, few⟩ := runs
  have stepped : (NumberedPath.machine quic).step numbered (.sendStreamPacket now isRetrans) =
      some (⟨sent.1, (numbered.path.seq, some sent.2) :: numbered.sent⟩, []) := by
    change (numbered.path.sendStreamPacket quic now isRetrans).map _ = _
    rw [ran]
    rfl
  exact ⟨traceLossCb, _, _, _, Machine.run_concat before stepped, rfl, Nat.succ_le_succ few⟩

/-- **A number below the next one was sent.** -/
theorem onAck (runs : PathRuns quic pid n path) (few : n < 2 ^ 64 - 1) {seq : UInt64}
    (positive : 0 < seq) (below : seq < path.seq) (now : UInt32) (retrans : UInt64 → Retrans) :
    PathRuns quic pid n (path.onAck now retrans seq).1 := by
  obtain ⟨traceLossCb, events, numbered, log, ran, rfl, less⟩ := runs
  have numbers := numbers_run ran (lt_of_le_of_lt less few)
  have stepped : (NumberedPath.machine quic).step numbered (.onAck now seq retrans) =
      some ({ numbered with path := (numbered.path.onAck now retrans seq).1 },
        (numbered.path.onAck now retrans seq).2) :=
    if_pos ((numbers.sent_iff seq).mpr ⟨positive, below⟩)
  exact ⟨traceLossCb, _, _, _, Machine.run_concat ran stepped, rfl, less⟩

end PathRuns

/-- The usable paths run on their own, and the others did not start. -/
structure PathsRun (quic : QuicData) (n : ℕ) (tables : PathTables) : Prop where
  usable : ∀ pid path, tables.getPathInfo pid = some path → PathRuns quic pid n path
  waitting : Unused tables.waittingPaths

namespace PathsRun

variable {quic : QuicData} {n : ℕ} {tables next : PathTables} {pid : UInt8}
  {path : PathSenderV1} {now : UInt32}

theorem mono {more : ℕ} (run : PathsRun quic n tables) (grows : n ≤ more) :
    PathsRun quic more tables :=
  ⟨fun pid path found => (run.usable pid path found).mono grows, run.waitting⟩

theorem withPath (run : PathsRun quic n tables) (runs : PathRuns quic pid n path) :
    PathsRun quic n (tables.withPath pid path) where
  usable other changed found := by
    change (tables.usablePaths.set pid path).find? other = some changed at found
    rw [SortedMap.find?_set] at found
    split_ifs at found with same
    · obtain rfl := Option.some.inj found
      exact same ▸ runs
    · exact run.usable other changed found
  waitting := run.waitting

theorem onNetworkAvailable (run : PathsRun quic n tables) (pid : UInt8) :
    PathsRun quic n (tables.onNetworkAvailable pid) := by
  rw [PathTables.onNetworkAvailable]
  cases waits : tables.waittingPaths.find? pid with
  | none => exact ⟨run.usable, run.waitting⟩
  | some sender =>
      refine ⟨fun other path found => ?_, fun entry member => ?_⟩
      · change (tables.usablePaths.insert pid sender).find? other = some path at found
        rw [SortedMap.find?_insert] at found
        split_ifs at found with same
        · subst same
          cases usable : tables.usablePaths.find? other with
          | none =>
              rw [usable, Option.getD_none] at found
              obtain rfl := Option.some.inj found
              obtain ⟨traceLossCb, fresh⟩ := run.waitting _ (SortedMap.mem_of_find? waits)
              dsimp only at fresh
              exact fresh ▸ (PathRuns.start quic other traceLossCb).mono (Nat.zero_le n)
          | some old =>
              rw [usable, Option.getD_some] at found
              exact run.usable other path (usable.trans found)
        · exact run.usable other path found
      · exact run.waitting entry (SortedMap.mem_erase.mp member).1

/-- **An acknowledgement is one of the path's run**, and the others queue packets. -/
theorem onAck (run : PathsRun quic n tables) (few : n < 2 ^ 64 - 1)
    (found : tables.getPathInfo pid = some path) {seq : UInt64} (positive : 0 < seq)
    (below : seq < path.seq) {news : List PacketNews}
    (ran : tables.onAck now pid seq path = some (next, news)) : PathsRun quic n next := by
  have acked := PathTables.ackedPath_onAck ran
  refine ⟨fun other changed isOther => ?_, ?_⟩
  · by_cases same : other = pid
    · subst same
      obtain ⟨retrans, own⟩ := acked.own
      obtain rfl := Option.some.inj (own.symm.trans isOther)
      exact (run.usable other path found).onAck few positive below now retrans
    · obtain ⟨retrans, others⟩ := acked.others other same
      obtain ⟨before, was, rfl⟩ := Option.map_eq_some_iff.mp (others.symm.trans isOther)
      exact (run.usable other before was).requeue now retrans
  · rw [acked.rest]
    exact run.waitting

end PathsRun

/-- What `PacketSchedule` does: nothing after a stop, and else the packet leaves `pend_buf_`, for
a path or for good. -/
theorem SenderBuffers.packetSchedule_cases {s next : SenderBuffers} {now packetId : UInt32}
    {pid : UInt8} (called : s.packetSchedule now packetId pid = some next) :
    (s.tables.runing = false ∧ next = s) ∨
      ∃ packet sender, s.tables.runing = true ∧ s.sender.pendBuf.find? packetId = some packet ∧
        sender = { s.sender with pendBuf := s.sender.pendBuf.erase packetId } ∧
        ((s.tables.getPathInfo pid = none ∧ next = { s with sender }) ∨
          ∃ path, s.tables.getPathInfo pid = some path ∧ next = { s with
            sender
            tables := { s.tables.withPath pid (path.onVideoPacket now packetId packet false) with
              sentBuf := s.tables.sentBuf.insert packetId packet } }) := by
  rw [packetSchedule] at called
  cases runing : s.tables.runing with
  | false =>
      rw [runing, if_neg Bool.false_ne_true] at called
      exact .inl ⟨rfl, (Option.some.inj called).symm⟩
  | true =>
      rw [runing, if_pos rfl] at called
      cases waits : s.sender.pendBuf.find? packetId with
      | none =>
          rw [waits] at called
          cases called
      | some packet =>
          rw [waits] at called
          refine .inr ⟨packet, _, rfl, rfl, rfl, ?_⟩
          cases usable : s.tables.usablePaths.find? pid with
          | none =>
              simp only [usable] at called
              exact .inl ⟨usable, (Option.some.inj called).symm⟩
          | some path =>
              simp only [usable] at called
              exact .inr ⟨path, usable, (Option.some.inj called).symm⟩

/-- **Every event at the sender is one of each path's runs.** -/
theorem PathsRun.handle {quic : QuicData} {n : ℕ} {s next : SenderBuffers} {now : UInt32}
    {event : MpEvent} {news : List PacketNews} (run : PathsRun quic n s.tables)
    (few : n < 2 ^ 64 - 1) (stepped : s.handle quic now event = some (next, news)) :
    PathsRun quic (n + 1) next.tables := by
  have later := run.mono (Nat.le_succ n)
  cases event with
  | onVideoFrame frame =>
      obtain rfl := (Prod.mk.inj (Option.some.inj stepped)).1
      exact later
  | packetSchedule packetId pid =>
      obtain ⟨after, called, eq⟩ := Option.map_eq_some_iff.mp stepped
      obtain rfl := (Prod.mk.inj eq).1
      rcases SenderBuffers.packetSchedule_cases called with
        ⟨-, rfl⟩ | ⟨packet, sender, -, -, -, ⟨-, rfl⟩ | ⟨path, found, rfl⟩⟩
      · exact later
      · exact later
      · have queued := later.withPath
          ((later.usable pid path found).onVideoPacket now packetId packet false)
        exact ⟨queued.usable, queued.waitting⟩
  | checkStalePacket =>
      obtain rfl := (Prod.mk.inj (Option.some.inj stepped)).1
      exact ⟨later.usable, later.waitting⟩
  | onNetworkAvailable pid =>
      simp only [SenderBuffers.handle] at stepped
      split_ifs at stepped
      obtain rfl := (Prod.mk.inj (Option.some.inj stepped)).1
      exact later.onNetworkAvailable pid
  | onNetworkStop pid =>
      obtain rfl := (Prod.mk.inj (Option.some.inj stepped)).1
      exact ⟨later.usable, later.waitting⟩
  | sendPaddingPacket pid =>
      obtain ⟨path, found, eq⟩ := Option.map_eq_some_iff.mp stepped
      obtain rfl := (Prod.mk.inj eq).1
      exact later.withPath ((run.usable pid path found).sendPaddingPacket now)
  | sendStreamPacket pid isRetrans =>
      obtain ⟨path, found, rest⟩ := Option.bind_eq_some_iff.mp stepped
      obtain ⟨sent, ran, eq⟩ := Option.map_eq_some_iff.mp rest
      obtain rfl := (Prod.mk.inj eq).1
      exact later.withPath ((run.usable pid path found).sendStreamPacket ran)
  | onAck pid seq =>
      obtain ⟨path, found, rest⟩ := Option.bind_eq_some_iff.mp stepped
      split_ifs at rest with sent
      obtain ⟨⟨tables, made⟩, ran, eq⟩ := Option.map_eq_some_iff.mp rest
      obtain rfl := (Prod.mk.inj eq).1
      exact (run.onAck few found sent.1 sent.2 ran).mono (Nat.le_succ n)

/-- **In every run of the multipath sender each usable path is the path of a run of its own**,
which has at most as many numbers as the sender had events. -/
theorem paths_refine {quic : QuicData} {waittingPaths : SortedMap UInt8 PathSenderV1}
    {events : List (UInt32 × MpEvent)} {last : SenderBuffers} {log : List PacketNews}
    (unused : Unused waittingPaths) (few : events.length < 2 ^ 64)
    (ran : (SenderBuffers.multipath quic).run (.registered waittingPaths) events =
      some (last, log)) {pid : UInt8} {path : PathSenderV1}
    (found : last.tables.getPathInfo pid = some path) :
    PathRuns quic pid events.length path := by
  have start : PathsRun quic 0 (SenderBuffers.registered waittingPaths).tables :=
    ⟨fun _ _ found => (nomatch found), unused⟩
  have runs := Machine.run_counted_invariant
    (fun n (s : SenderBuffers) (_ : List PacketNews) => PathsRun quic n s.tables)
    (fun n s past event next out (few : n < 2 ^ 64 - 1) run stepped => run.handle few stepped)
    0 [] (by omega) start ran
  rw [Nat.zero_add] at runs
  exact runs.usable pid path found

/-- Two paths of the sender. -/
def twoPaths : SortedMap UInt8 PathSenderV1 :=
  (SortedMap.empty.insert 1 { pid := 1, mpsender := true }).insert 2 { pid := 2, mpsender := true }

/-- A packet and padding are sent on path 1, and the padding is acknowledged. -/
def overtaken : List (UInt32 × MpEvent) :=
  [(0, .onNetworkAvailable 1), (0, .onNetworkAvailable 2),
    (1, .onVideoFrame SenderBuffers.smallFrame), (1, .packetSchedule 1 1),
    (2, .sendStreamPacket 1 false), (3, .sendPaddingPacket 1), (9, .onAck 1 2)]

theorem unused_twoPaths : Unused twoPaths := by
  have entries : twoPaths.entries =
      [(1, { pid := 1, mpsender := true }), (2, { pid := 2, mpsender := true })] := rfl
  rw [Unused, entries]
  simp only [List.forall_mem_cons]
  exact ⟨⟨false, rfl⟩, ⟨false, rfl⟩, List.forall_mem_nil _⟩

/-- The packet is lost, and waits on path 2. -/
theorem paths_refine_overtaken : ∃ last path,
    (SenderBuffers.multipath networkOrder).run (.registered twoPaths) overtaken =
      some (last, [.made 1, .requeued 1 2]) ∧
    last.tables.getPathInfo 2 = some path ∧ path.resendingQueue.map (·.packetId) = [1] ∧
    PathRuns networkOrder 2 7 path := by
  obtain ⟨last, path, ran, found, waits⟩ : ∃ last path,
      (SenderBuffers.multipath networkOrder).run (.registered twoPaths) overtaken =
        some (last, [.made 1, .requeued 1 2]) ∧
      last.tables.getPathInfo 2 = some path ∧ path.resendingQueue.map (·.packetId) = [1] :=
    ⟨_, _, rfl, rfl, rfl⟩
  exact ⟨last, path, ran, found, waits,
    paths_refine unused_twoPaths (by decide) ran found⟩

end MpVideo.V1
