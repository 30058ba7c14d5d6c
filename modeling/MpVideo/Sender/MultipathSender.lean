import MpVideo.Sender.PathSender

/-!
# The multipath sender

`mpsender.cc`: frames are cut into segments that wait in `pending_buf_` under
consecutive schedule ids, until a scheduler assigns them to paths. The path objects
are held by the map in which the source keeps the pointer to them.
-/

set_option autoImplicit false

namespace MpVideo.Sender

open Wire

/-- The members of `MultipathSender`. -/
structure MultipathSender where
  uid : UInt32
  /-- The path id that the next registered path gets. -/
  pid : UInt8 := 1
  frameSeed : UInt32 := 1
  scheduleSeed : UInt32 := 1
  pendingBuf : SortedMap UInt32 SimSegment := .empty
  /-- The time of the first frame, or `-1`. -/
  firstTs : Int64 := -1
  stop : Bool := false
  synPath : SortedMap UInt8 PathSender := .empty
  usablePath : SortedMap UInt8 PathSender := .empty

namespace MultipathSender

/-- `RegisterPath` of a path object that is not registered yet. -/
def registerPath (paceMode : PaceMode) (sender : MultipathSender) : MultipathSender :=
  { sender with
    synPath := sender.synPath.insert sender.pid { pid := sender.pid, uid := sender.uid, paceMode }
    pid := sender.pid + 1 }

/-- `NotifyPathUsable`. -/
def notifyPathUsable (pid : UInt8) (sender : MultipathSender) : MultipathSender :=
  match sender.synPath.find? pid with
  | some path =>
      { sender with
        synPath := sender.synPath.erase pid
        usablePath := sender.usablePath.insert pid path }
  | none => sender

/-- The loop of `SendVideo` over the new segments: each waits under the next
schedule id. -/
def enqueue : List SimSegment → MultipathSender → MultipathSender
  | [], sender => sender
  | seg :: rest, sender =>
      enqueue rest { sender with
        pendingBuf := sender.pendingBuf.insert sender.scheduleSeed seg
        scheduleSeed := sender.scheduleSeed + 1 }

/-- The first frame sets `first_ts_`. -/
def noteFirstTs (now : Int64) (sender : MultipathSender) : MultipathSender :=
  if sender.firstTs = -1 then { sender with firstTs := now } else sender

/-- `SendVideo`. The scheduler that it calls at the end acts by `PacketSchedule`. -/
def sendVideo (now : Int64) (frame : Frame) (sender : MultipathSender) : MultipathSender :=
  if sender.stop then sender
  else
    let sender := sender.noteFirstTs now
    let timestamp := (now - sender.firstTs).toUInt64.toUInt32
    let sender := sender.enqueue (frame.segments sender.frameSeed timestamp)
    { sender with frameSeed := sender.frameSeed + 1 }

/-- The table that `SchedulePendingBuf` hands to the scheduler, and the total length. -/
def pendingInfo (sender : MultipathSender) : SortedMap UInt32 UInt32 × UInt32 :=
  let lengths := sender.pendingBuf.mapVal PathSender.segmentLen
  (lengths, lengths.entries.foldl (fun total entry => total + entry.2) 0)

/-- `PacketSchedule`. The segment leaves `pending_buf_` before the path is looked up. -/
def packetSchedule (scheduleId : UInt32) (pid : UInt8) (sender : MultipathSender) :
    MultipathSender :=
  match sender.pendingBuf.find? scheduleId with
  | none => sender
  | some seg =>
      let sender := { sender with pendingBuf := sender.pendingBuf.erase scheduleId }
      match sender.usablePath.find? pid with
      | some path => { sender with usablePath := sender.usablePath.set pid (path.put seg).1 }
      | none => sender

/-- `TimeToSendPacket` of a usable path. -/
def timeToSendPacket (pid : UInt8) (seq : UInt16) (retransmission : Bool) (now : UInt32)
    (sender : MultipathSender) : MultipathSender × List (List UInt8) :=
  match sender.usablePath.find? pid with
  | some path =>
      let (path, sent) := path.timeToSendPacket seq retransmission now sender.firstTs
      ({ sender with usablePath := sender.usablePath.set pid path }, sent)
  | none => (sender, [])

/-- `PacingSendSegment` of a usable path. -/
def pacingSendSegment (pid : UInt8) (now : UInt32) (sender : MultipathSender) :
    MultipathSender × List (List UInt8) :=
  match sender.usablePath.find? pid with
  | some path =>
      let (path, sent) := path.pacingSendSegment now sender.firstTs
      ({ sender with usablePath := sender.usablePath.set pid path }, sent)
  | none => (sender, [])

/-- `Stop`. -/
def stopSender (sender : MultipathSender) : MultipathSender :=
  { sender with stop := true, usablePath := sender.usablePath.mapVal PathSender.stopPath }

/-! ## What is pending and queued -/

/-- A path in a map of paths: it has the id of its entry, and its queue has the property. -/
structure PathFine (good : SimSegment → Prop) (entry : UInt8 × PathSender) : Prop where
  holds : entry.2.Holds good
  pid_eq : entry.2.pid = entry.1

/-- Every segment that the sender has not sent yet has the property. -/
structure Holds (good : SimSegment → Prop) (sender : MultipathSender) : Prop where
  pending : ∀ entry ∈ sender.pendingBuf.entries, good entry.2
  syn : ∀ entry ∈ sender.synPath.entries, PathFine good entry
  usable : ∀ entry ∈ sender.usablePath.entries, PathFine good entry

variable {good : SimSegment → Prop} {sender : MultipathSender}

theorem holds_fresh (good : SimSegment → Prop) (uid : UInt32) :
    Holds good ({ uid } : MultipathSender) :=
  ⟨fun _ member => absurd member List.not_mem_nil, fun _ member => absurd member List.not_mem_nil,
    fun _ member => absurd member List.not_mem_nil⟩

theorem Holds.mono {weaker : SimSegment → Prop} (holds : sender.Holds good)
    (implies : ∀ seg, good seg → weaker seg) : sender.Holds weaker where
  pending entry member := implies _ (holds.pending entry member)
  syn entry member := by
    obtain ⟨queue, pid⟩ := holds.syn entry member
    exact ⟨fun queued inQueue => implies _ (queue queued inQueue), pid⟩
  usable entry member := by
    obtain ⟨queue, pid⟩ := holds.usable entry member
    exact ⟨fun queued inQueue => implies _ (queue queued inQueue), pid⟩

/-- The members that only `SendVideo` and `Stop` change. -/
structure Continues (sender next : MultipathSender) : Prop where
  frameSeed : next.frameSeed = sender.frameSeed
  stop : next.stop = sender.stop

theorem continues_notifyPathUsable (pid : UInt8) (sender : MultipathSender) :
    Continues sender (sender.notifyPathUsable pid) := by
  rw [notifyPathUsable]
  cases sender.synPath.find? pid <;> exact ⟨rfl, rfl⟩

theorem continues_packetSchedule (scheduleId : UInt32) (pid : UInt8)
    (sender : MultipathSender) : Continues sender (sender.packetSchedule scheduleId pid) := by
  rw [packetSchedule]
  cases sender.pendingBuf.find? scheduleId with
  | none => exact ⟨rfl, rfl⟩
  | some seg =>
      cases found : sender.usablePath.find? pid <;> simp only [found] <;> exact ⟨rfl, rfl⟩

theorem Holds.registerPath (holds : sender.Holds good) (paceMode : PaceMode) :
    (sender.registerPath paceMode).Holds good where
  pending := holds.pending
  syn entry member := by
    rcases SortedMap.mem_insert_of member with rfl | old
    · exact ⟨fun _ queued => absurd queued List.not_mem_nil, rfl⟩
    · exact holds.syn entry old
  usable := holds.usable

theorem Holds.notifyPathUsable (holds : sender.Holds good) (pid : UInt8) :
    (sender.notifyPathUsable pid).Holds good := by
  rw [MultipathSender.notifyPathUsable]
  cases found : sender.synPath.find? pid with
  | none => exact holds
  | some path =>
      refine ⟨holds.pending, ?_, ?_⟩
      · intro entry member
        exact holds.syn entry (SortedMap.mem_erase.mp member).1
      · intro entry member
        rcases SortedMap.mem_insert_of member with rfl | old
        · exact holds.syn (pid, path) (SortedMap.find?_eq_some_iff.mp found)
        · exact holds.usable entry old

/-- A usable path is replaced by one with the same id. -/
theorem Holds.setUsable (holds : sender.Holds good) {pid : UInt8} {path : PathSender}
    (queue : path.Holds good) (pidEq : path.pid = pid) :
    ({ sender with usablePath := sender.usablePath.set pid path } : MultipathSender).Holds good
    where
  pending := holds.pending
  syn := holds.syn
  usable entry member := by
    rcases SortedMap.mem_setList_of member with rfl | old
    · exact ⟨queue, pidEq⟩
    · exact holds.usable entry old

theorem Holds.find? (holds : sender.Holds good) {pid : UInt8} {path : PathSender}
    (found : sender.usablePath.find? pid = some path) : path.Holds good ∧ path.pid = pid := by
  obtain ⟨queue, pidEq⟩ := holds.usable (pid, path) (SortedMap.find?_eq_some_iff.mp found)
  exact ⟨queue, pidEq⟩

theorem Holds.enqueue (holds : sender.Holds good) {segs : List SimSegment}
    (fine : ∀ seg ∈ segs, good seg) : (sender.enqueue segs).Holds good := by
  induction segs generalizing sender with
  | nil => exact holds
  | cons seg rest ih =>
      refine ih ⟨?_, holds.syn, holds.usable⟩
        fun other member => fine other (List.mem_cons_of_mem _ member)
      intro entry member
      rcases SortedMap.mem_insert_of member with rfl | old
      · exact fine seg List.mem_cons_self
      · exact holds.pending entry old

theorem continues_enqueue (segs : List SimSegment) (sender : MultipathSender) :
    Continues sender (sender.enqueue segs) := by
  induction segs generalizing sender with
  | nil => exact ⟨rfl, rfl⟩
  | cons seg rest ih => exact ⟨(ih _).frameSeed, (ih _).stop⟩

theorem enqueue_paths (segs : List SimSegment) (sender : MultipathSender) :
    (sender.enqueue segs).usablePath = sender.usablePath ∧
      (sender.enqueue segs).synPath = sender.synPath := by
  induction segs generalizing sender with
  | nil => exact ⟨rfl, rfl⟩
  | cons seg rest ih => exact ih _

theorem noteFirstTs_eq (now : Int64) (sender : MultipathSender) :
    ∃ firstTs, sender.noteFirstTs now = { sender with firstTs } := by
  rw [noteFirstTs]
  split_ifs
  · exact ⟨now, rfl⟩
  · exact ⟨sender.firstTs, rfl⟩

/-- A running sender counts the frame and keeps running. -/
theorem sendVideo_running (running : sender.stop = false) (now : Int64) (frame : Frame) :
    (sender.sendVideo now frame).frameSeed = sender.frameSeed + 1 ∧
      (sender.sendVideo now frame).stop = false := by
  obtain ⟨firstTs, noted⟩ := noteFirstTs_eq now sender
  rw [sendVideo, if_neg (by simp [running])]
  simp only [noted]
  have continues := continues_enqueue (frame.segments sender.frameSeed
    (now - firstTs).toUInt64.toUInt32) { sender with firstTs }
  exact ⟨congrArg (· + 1) continues.frameSeed, continues.stop.trans running⟩

/-- **`SendVideo` makes the segments of the frame pending.** -/
theorem Holds.sendVideo (holds : sender.Holds good) (running : sender.stop = false) (now : Int64)
    {frame : Frame}
    (fine : ∀ timestamp, ∀ seg ∈ frame.segments sender.frameSeed timestamp, good seg) :
    (sender.sendVideo now frame).Holds good := by
  obtain ⟨firstTs, noted⟩ := noteFirstTs_eq now sender
  rw [MultipathSender.sendVideo, if_neg (by simp [running])]
  simp only [noted]
  have start : ({ sender with firstTs } : MultipathSender).Holds good :=
    ⟨holds.pending, holds.syn, holds.usable⟩
  have queued := start.enqueue (fine (now - firstTs).toUInt64.toUInt32)
  exact ⟨queued.pending, queued.syn, queued.usable⟩

theorem Holds.packetSchedule (holds : sender.Holds good)
    (unnumbered : PathSender.Unnumbered good) (scheduleId : UInt32) (pid : UInt8) :
    (sender.packetSchedule scheduleId pid).Holds good := by
  rw [MultipathSender.packetSchedule]
  cases pending : sender.pendingBuf.find? scheduleId with
  | none => exact holds
  | some seg =>
      have fine := holds.pending (scheduleId, seg) (SortedMap.find?_eq_some_iff.mp pending)
      have less : ({ sender with
          pendingBuf := sender.pendingBuf.erase scheduleId } : MultipathSender).Holds good :=
        ⟨fun entry member => holds.pending entry (SortedMap.mem_erase.mp member).1, holds.syn,
          holds.usable⟩
      cases found : sender.usablePath.find? pid with
      | none =>
          simp only [found]
          exact less
      | some path =>
          obtain ⟨queue, pidEq⟩ := holds.find? found
          simp only [found]
          exact less.setUsable (queue.put unnumbered fine)
            ((PathSender.put_pid seg path).trans pidEq)

/-- What a sending function of the sender does: what is left keeps the property, and
every datagram is one of the path. -/
structure Sends (good : SimSegment → Prop) (pid : UInt8) (sender : MultipathSender)
    (result : MultipathSender × List (List UInt8)) : Prop extends
    Continues sender result.1 where
  holds : result.1.Holds good
  datagrams : ∀ bytes ∈ result.2, PathSender.Datagram good pid bytes

theorem Holds.sendsNothing (holds : sender.Holds good) (pid : UInt8) :
    Sends good pid sender (sender, []) :=
  ⟨⟨rfl, rfl⟩, holds, fun _ member => absurd member List.not_mem_nil⟩

theorem Holds.timeToSendPacket (holds : sender.Holds good)
    (unnumbered : PathSender.Unnumbered good) (pid : UInt8) (seq : UInt16)
    (retransmission : Bool) (now : UInt32) :
    Sends good pid sender (sender.timeToSendPacket pid seq retransmission now) := by
  rw [MultipathSender.timeToSendPacket]
  cases found : sender.usablePath.find? pid with
  | none => exact holds.sendsNothing pid
  | some path =>
      obtain ⟨queue, pidEq⟩ := holds.find? found
      obtain ⟨still, same, sent⟩ :=
        PathSender.timeToSendPacket_spec queue unnumbered seq retransmission now sender.firstTs
      exact ⟨⟨rfl, rfl⟩, holds.setUsable still (same.trans pidEq), pidEq ▸ sent⟩

theorem Holds.pacingSendSegment (holds : sender.Holds good)
    (unnumbered : PathSender.Unnumbered good) (pid : UInt8) (now : UInt32) :
    Sends good pid sender (sender.pacingSendSegment pid now) := by
  rw [MultipathSender.pacingSendSegment]
  cases found : sender.usablePath.find? pid with
  | none => exact holds.sendsNothing pid
  | some path =>
      obtain ⟨queue, pidEq⟩ := holds.find? found
      obtain ⟨still, same, sent⟩ :=
        PathSender.pacingSendSegment_spec queue unnumbered now sender.firstTs
      exact ⟨⟨rfl, rfl⟩, holds.setUsable still (same.trans pidEq), pidEq ▸ sent⟩

theorem Holds.stopSender (holds : sender.Holds good) : sender.stopSender.Holds good where
  pending := holds.pending
  syn := holds.syn
  usable entry member := by
    obtain ⟨⟨pid, path⟩, old, rfl⟩ := List.mem_map.mp member
    obtain ⟨queue, pidEq⟩ := holds.usable _ old
    refine ⟨queue.stopPath, ?_⟩
    rw [PathSender.stopPath_pid]
    exact pidEq

end MultipathSender

end MpVideo.Sender
