import MpVideo.Lib.Machine
import MpVideo.Sender.MultipathSender
import Mathlib.Algebra.Order.Group.Multiset
import Mathlib.Data.Multiset.AddSub
import Mathlib.Tactic.Abel

/-!
# Segments are kept

A segment that `SendVideo` makes waits in `pending_buf_`, then in the queue of a path,
until it is sent, or freed when the path stops. A ledger notes what was made, sent and
freed (`Ledger`); nothing disappears when what was made is what is in these places
together (`Conserved`). Segments are compared without the numbers that a path fills in
(`plain`).

Each step moves segments between the places, or leaks some (`Moves`). There are three
ways to leak: `SendVideo` under a schedule id that is still pending, `PacketSchedule` to
a path that is not usable or does not take the segment, which left `pending_buf_`
before, and a path whose next transport number is still in its queue. Without them
nothing disappears in a run, and with one of them something does (`conserved_iff`).
-/

set_option autoImplicit false

namespace MpVideo.Sender

open Wire

/-- A segment without what a path fills in. -/
def plain (seg : SimSegment) : SimSegment :=
  { seg with packetId := 0, transportSeq := 0, sendTs := 0 }

/-- One segment, plain, as a multiset. -/
def one (seg : SimSegment) : Multiset SimSegment := {plain seg}

/-- The segment, if there is one. -/
def oneOf (seg : Option SimSegment) : Multiset SimSegment := seg.elim 0 one

theorem one_ne_zero (seg : SimSegment) : one seg ≠ 0 := Multiset.singleton_ne_zero _

/-! ## The queue of a path -/

namespace PathSender

/-- The segments in the queue. -/
def queued (path : PathSender) : Multiset SimSegment := path.buf.total one

/-- The segment that `TimeToSendPacket` sends. -/
def outgoing (seq : UInt16) (retransmission : Bool) (path : PathSender) : Option SimSegment :=
  if path.stop then none else (path.getSegment seq retransmission).1

/-- The segment that `PacingSendSegment` sends. -/
def outgoingFirst (path : PathSender) : Option SimSegment :=
  if path.pacing then path.getFirstSegment.1 else none

/-- The segments that `Stop` frees. -/
def freed (path : PathSender) : Multiset SimSegment := if path.stop then 0 else path.queued

/-- `put` queues a segment. -/
structure Accepts (path : PathSender) : Prop where
  running : path.stop = false
  free : path.buf.find? path.transSeq = none

instance (path : PathSender) : Decidable path.Accepts :=
  decidable_of_iff (path.stop = false ∧ path.buf.find? path.transSeq = none)
    ⟨fun both => ⟨both.1, both.2⟩, fun accepts => ⟨accepts.running, accepts.free⟩⟩

theorem startPacing_queued (path : PathSender) : path.startPacing.queued = path.queued := by
  rw [queued, startPacing_buf, queued]

/-- **A segment that is put is queued, or it is lost.** -/
theorem queued_put (seg : SimSegment) (path : PathSender) :
    (path.put seg).1.queued = if path.Accepts then one seg + path.queued else path.queued := by
  rw [put]
  by_cases stopped : path.stop = true
  · rw [if_pos stopped, if_neg fun accepts => by simp [accepts.running] at stopped]
  · have running := Bool.not_eq_true _ ▸ stopped
    rw [if_neg stopped]
    simp only
    have queue : (path.buf.insert path.transSeq
        { seg with packetId := path.packetSeed, transportSeq := path.transSeq }).total one =
          if path.Accepts then one seg + path.queued else path.queued := by
      cases free : path.buf.find? path.transSeq with
      | none =>
          rw [if_pos ⟨running, free⟩, SortedMap.total_insert one free]
          rfl
      | some old =>
          have full : ¬ path.Accepts := fun accepts => by simp [accepts.free] at free
          rw [if_neg full, SortedMap.insert_of_find?_some free]
          rfl
    split_ifs at queue ⊢
    · exact (startPacing_queued _).trans queue
    · exact (startPacing_queued _).trans queue
    · exact queue
    · exact queue

theorem queued_take {path : PathSender} {id : UInt16} {seg : SimSegment}
    (found : path.buf.find? id = some seg) :
    path.queued = one seg + (path.take id seg).queued :=
  SortedMap.total_erase one found

theorem sendSegment_queued (now : UInt32) (firstTs : Int64) (seg : SimSegment)
    (path : PathSender) : (path.sendSegment now firstTs seg).1.queued = path.queued := by
  simp only [queued, sendSegment]

/-- **What `TimeToSendPacket` sends leaves the queue.** -/
theorem queued_timeToSendPacket (seq : UInt16) (retransmission : Bool) (now : UInt32)
    (firstTs : Int64) (path : PathSender) :
    path.queued = oneOf (path.outgoing seq retransmission) +
      (path.timeToSendPacket seq retransmission now firstTs).1.queued := by
  rw [outgoing, timeToSendPacket, getSegment]
  split_ifs with stopped skip
  · exact (zero_add _).symm
  · exact (zero_add _).symm
  · cases found : path.buf.find? seq with
    | none => exact (zero_add _).symm
    | some seg =>
        have sent := sendSegment_queued now firstTs seg (path.take seq seg)
        simp only
        rw [sent]
        exact queued_take found

/-- **What `PacingSendSegment` sends leaves the queue.** -/
theorem queued_pacingSendSegment (now : UInt32) (firstTs : Int64) (path : PathSender) :
    path.queued = oneOf path.outgoingFirst + (path.pacingSendSegment now firstTs).1.queued := by
  rw [outgoingFirst, pacingSendSegment, getFirstSegment]
  split_ifs with pending
  · cases queue : path.buf.entries with
    | nil => exact (zero_add _).symm
    | cons entry rest =>
        have member : entry ∈ path.buf.entries := by
          rw [queue]
          exact List.mem_cons_self
        have found : path.buf.find? entry.1 = some entry.2 := SortedMap.find?_eq_some_iff.mpr member
        have sent := sendSegment_queued now firstTs entry.2 (path.take entry.1 entry.2)
        simp only
        rw [sent]
        exact queued_take found
  · exact (zero_add _).symm

/-- **`Stop` frees the queue.** -/
theorem queued_stopPath (path : PathSender) :
    path.queued = path.freed + path.stopPath.queued := by
  rw [freed, stopPath]
  split_ifs
  · exact (zero_add _).symm
  · exact (add_zero _).symm

theorem stopPath_queued_eq_zero {path : PathSender} (empty : path.queued = 0) :
    path.stopPath.queued = 0 := by
  rw [stopPath]
  split_ifs
  · exact empty
  · rfl

end PathSender

/-! ## The sender -/

/-- What happens to the sender from outside. The calls of a scheduler are events of their
own. -/
inductive SenderEvent where
  | registerPath (paceMode : PaceMode)
  | notifyPathUsable (pid : UInt8)
  | sendVideo (now : Int64) (frame : Frame)
  | packetSchedule (scheduleId : UInt32) (pid : UInt8)
  | timeToSendPacket (pid : UInt8) (seq : UInt16) (retransmission : Bool) (now : UInt32)
  | pacingSendSegment (pid : UInt8) (now : UInt32)
  /-- `Stop` of a usable path. -/
  | stopPath (pid : UInt8)
  /-- `Stop` of a path that is not connected yet. -/
  | stopSynPath (pid : UInt8)
  | stopSender

/-- The sender, and what was made, sent and freed so far. -/
structure Ledger where
  sender : MultipathSender
  created : Multiset SimSegment := 0
  sent : Multiset SimSegment := 0
  freed : Multiset SimSegment := 0

namespace MultipathSender

/-- The segments in `pending_buf_`. -/
def pending (sender : MultipathSender) : Multiset SimSegment := sender.pendingBuf.total one

/-- The segments in the queues of the paths. -/
def queued (sender : MultipathSender) : Multiset SimSegment :=
  sender.usablePath.total PathSender.queued

/-- `Stop` of a usable path. -/
def stopPath (pid : UInt8) (sender : MultipathSender) : MultipathSender :=
  match sender.usablePath.find? pid with
  | some path => { sender with usablePath := sender.usablePath.set pid path.stopPath }
  | none => sender

/-- `Stop` of a path that is not connected yet. -/
def stopSynPath (pid : UInt8) (sender : MultipathSender) : MultipathSender :=
  match sender.synPath.find? pid with
  | some path => { sender with synPath := sender.synPath.set pid path.stopPath }
  | none => sender

/-- The segments that `SendVideo` makes. -/
def made (now : Int64) (frame : Frame) (sender : MultipathSender) : List SimSegment :=
  if sender.stop then []
  else frame.segments sender.frameSeed
    (now - (sender.noteFirstTs now).firstTs).toUInt64.toUInt32

end MultipathSender

namespace MultipathSender

variable {sender : MultipathSender}

/-! ## Pending segments -/

/-- The segments get schedule ids that are not pending. -/
def Fresh : List SimSegment → MultipathSender → Prop
  | [], _ => True
  | seg :: rest, sender => sender.pendingBuf.find? sender.scheduleSeed = none ∧
      Fresh rest { sender with
        pendingBuf := sender.pendingBuf.insert sender.scheduleSeed seg
        scheduleSeed := sender.scheduleSeed + 1 }

/-- No id comes twice among the ids of one frame, so it suffices to look at those that
are pending before. -/
theorem fresh_iff {segs : List SimSegment} (few : segs.length < 2 ^ 32) :
    Fresh segs sender ↔ ∀ i < segs.length,
      sender.pendingBuf.find? (sender.scheduleSeed + UInt32.ofNat i) = none := by
  induction segs generalizing sender with
  | nil => exact iff_of_true trivial fun i less => absurd less (Nat.not_lt_zero i)
  | cons seg rest ih =>
      rw [List.length_cons] at few ⊢
      have next : ∀ i, sender.scheduleSeed + 1 + UInt32.ofNat i =
          sender.scheduleSeed + UInt32.ofNat (i + 1) := by
        intro i
        rw [Nat.add_comm i 1, UInt32.ofNat_add, ← UInt32.add_assoc]
        rfl
      have other : ∀ i < rest.length,
          sender.scheduleSeed + UInt32.ofNat (i + 1) ≠ sender.scheduleSeed := by
        intro i less same
        have zero := congrArg UInt32.toNat (UInt32.add_eq_left.mp same)
        rw [UInt32.toNat_ofNat'] at zero
        change (i + 1) % 2 ^ 32 = 0 at zero
        omega
      rw [Fresh, ih (by omega)]
      constructor
      · rintro ⟨first, later⟩ i less
        cases i with
        | zero =>
            have start : sender.scheduleSeed + UInt32.ofNat 0 = sender.scheduleSeed :=
              UInt32.add_zero _
            rwa [start]
        | succ i =>
            have small := Nat.lt_of_succ_lt_succ less
            have free := later i small
            rwa [next, SortedMap.find?_insert, if_neg (other i small)] at free
      · intro free
        refine ⟨?_, fun i less => ?_⟩
        · have first := free 0 (Nat.succ_pos _)
          rwa [show sender.scheduleSeed + UInt32.ofNat 0 = sender.scheduleSeed from
            UInt32.add_zero _] at first
        · rw [next, SortedMap.find?_insert, if_neg (other i less)]
          exact free (i + 1) (Nat.succ_lt_succ less)

/-- **The new segments are pending, or leak where an id is pending already.** -/
theorem pending_enqueue (segs : List SimSegment) (sender : MultipathSender) :
    ∃ leaked, (sender.enqueue segs).pending + leaked = sender.pending + (segs.map one).sum ∧
      (leaked = 0 ↔ Fresh segs sender) := by
  induction segs generalizing sender with
  | nil => exact ⟨0, rfl, iff_of_true rfl trivial⟩
  | cons seg rest ih =>
      obtain ⟨leaked, balance, none⟩ := ih { sender with
        pendingBuf := sender.pendingBuf.insert sender.scheduleSeed seg
        scheduleSeed := sender.scheduleSeed + 1 }
      rw [List.map_cons, List.sum_cons]
      cases free : sender.pendingBuf.find? sender.scheduleSeed with
      | none =>
          refine ⟨leaked, balance.trans ?_, ?_⟩
          · rw [pending, SortedMap.total_insert one free, pending]
            abel
          · rw [none, Fresh, and_iff_right free]
      | some old =>
          refine ⟨one seg + leaked, ?_, ?_⟩
          · have same : ({ sender with
                pendingBuf := sender.pendingBuf.insert sender.scheduleSeed seg
                scheduleSeed := sender.scheduleSeed + 1 } : MultipathSender).pending =
                sender.pending := by
              rw [pending, SortedMap.insert_of_find?_some free, pending]
            rw [same] at balance
            rw [add_left_comm, enqueue, balance]
            abel
          · refine iff_of_false (fun zero => ?_) fun fresh => ?_
            · rw [one, Multiset.singleton_add] at zero
              exact Multiset.cons_ne_zero zero
            · have absent := fresh.1
              simp [free] at absent

/-! ## Queued segments -/

/-- A usable path whose queue lost something. -/
theorem queued_setUsable {pid : UInt8} {path next : PathSender} {gone : Multiset SimSegment}
    (found : sender.usablePath.find? pid = some path)
    (balance : path.queued = gone + next.queued) :
    sender.queued = gone + ({ sender with
      usablePath := sender.usablePath.set pid next } : MultipathSender).queued := by
  rw [queued, queued, SortedMap.total_set, SortedMap.total_erase _ found, balance, add_assoc]

/-- A path that is not connected yet has an empty queue. -/
def SynEmpty (sender : MultipathSender) : Prop :=
  ∀ entry ∈ sender.synPath.entries, entry.2.queued = 0

/-- A path that becomes usable brings no segment along. -/
theorem queued_notifyPathUsable (empty : sender.SynEmpty) (pid : UInt8) :
    (sender.notifyPathUsable pid).queued = sender.queued := by
  rw [notifyPathUsable]
  cases waiting : sender.synPath.find? pid with
  | none => rfl
  | some path =>
      have zero : path.queued = 0 := empty _ (SortedMap.find?_eq_some_iff.mp waiting)
      change (sender.usablePath.insert pid path).total PathSender.queued = _
      cases found : sender.usablePath.find? pid with
      | none => rw [SortedMap.total_insert _ found, zero, zero_add, queued]
      | some old => rw [SortedMap.insert_of_find?_some found, queued]

theorem SynEmpty.find? (empty : sender.SynEmpty) {pid : UInt8} {path : PathSender}
    (found : sender.synPath.find? pid = some path) : path.queued = 0 :=
  empty _ (SortedMap.find?_eq_some_iff.mp found)

end MultipathSender

namespace Ledger

/-- What the events send and free. -/
def handle (ledger : Ledger) : SenderEvent → Ledger
  | .registerPath paceMode => { ledger with sender := ledger.sender.registerPath paceMode }
  | .notifyPathUsable pid => { ledger with sender := ledger.sender.notifyPathUsable pid }
  | .sendVideo now frame =>
      { ledger with
        sender := ledger.sender.sendVideo now frame
        created := ledger.created + ((ledger.sender.made now frame).map one).sum }
  | .packetSchedule scheduleId pid =>
      { ledger with sender := ledger.sender.packetSchedule scheduleId pid }
  | .timeToSendPacket pid seq retransmission now =>
      { ledger with
        sender := (ledger.sender.timeToSendPacket pid seq retransmission now).1
        sent := ledger.sent + ((ledger.sender.usablePath.find? pid).elim 0 fun path =>
          oneOf (path.outgoing seq retransmission)) }
  | .pacingSendSegment pid now =>
      { ledger with
        sender := (ledger.sender.pacingSendSegment pid now).1
        sent := ledger.sent + ((ledger.sender.usablePath.find? pid).elim 0 fun path =>
          oneOf path.outgoingFirst) }
  | .stopPath pid =>
      { ledger with
        sender := ledger.sender.stopPath pid
        freed := ledger.freed +
          (ledger.sender.usablePath.find? pid).elim 0 PathSender.freed }
  | .stopSynPath pid =>
      { ledger with
        sender := ledger.sender.stopSynPath pid
        freed := ledger.freed + (ledger.sender.synPath.find? pid).elim 0 PathSender.freed }
  | .stopSender =>
      { ledger with
        sender := ledger.sender.stopSender
        freed := ledger.freed + ledger.sender.usablePath.total PathSender.freed }

/-- The sender as a machine, with its ledger. -/
def machine : Machine Ledger SenderEvent Empty where
  step ledger event := some (ledger.handle event, [])

/-- **Every segment that was made is pending, queued, sent or freed**, and in one of
these places only. -/
def Conserved (ledger : Ledger) : Prop :=
  ledger.created =
    ledger.sender.pending + ledger.sender.queued + ledger.sent + ledger.freed

/-- No segment disappears at an event. A frame gets schedule ids that are not pending; a
pending segment is scheduled to a usable path that runs and whose next transport number
is not in use. -/
def Safe (ledger : Ledger) : SenderEvent → Prop
  | .sendVideo _ frame => ledger.sender.stop = true ∨ ∀ i < frame.splits.length,
      ledger.sender.pendingBuf.find? (ledger.sender.scheduleSeed + UInt32.ofNat i) = none
  | .packetSchedule scheduleId pid => ledger.sender.pendingBuf.find? scheduleId = none ∨
      ∃ path, ledger.sender.usablePath.find? pid = some path ∧ path.Accepts
  | _ => True

/-! ## One step -/

/-- A step moves segments: what is in the places afterwards, together with what leaks, is
what was there and what was made. -/
structure Moves (ledger next : Ledger) (leaked : Multiset SimSegment) : Prop where
  balance : ∃ made, next.created = ledger.created + made ∧
    next.sender.pending + next.sender.queued + next.sent + next.freed + leaked =
      ledger.sender.pending + ledger.sender.queued + ledger.sent + ledger.freed + made

/-- Nothing disappears in a step that leaks nothing, and only then. -/
theorem Moves.keeps_iff {ledger next : Ledger} {leaked : Multiset SimSegment}
    (moves : Moves ledger next leaked) (conserved : ledger.Conserved) :
    next.Conserved ↔ leaked = 0 := by
  obtain ⟨made, grown, balance⟩ := moves.balance
  rw [Conserved, grown, conserved, ← balance]
  exact add_eq_left

/-- What leaks at an event. -/
def Leaks (ledger : Ledger) (event : SenderEvent) : Prop :=
  ∃ leaked, Moves ledger (ledger.handle event) leaked ∧ (leaked = 0 ↔ ledger.Safe event)

variable {ledger : Ledger}

/-- A step that only moves segments to the sent or to the freed ones. -/
theorem moves_of_queued {next : Ledger} {gone : Multiset SimSegment}
    (created : next.created = ledger.created)
    (pending : next.sender.pending = ledger.sender.pending)
    (queued : ledger.sender.queued = gone + next.sender.queued)
    (out : next.sent + next.freed = ledger.sent + ledger.freed + gone) : Moves ledger next 0 := by
  refine ⟨0, created.trans (add_zero _).symm, ?_⟩
  rw [pending, queued, add_zero, add_zero, add_assoc, out]
  abel

theorem leaks_sendVideo (now : Int64) (frame : Frame) :
    ledger.Leaks (.sendVideo now frame) := by
  by_cases stopped : ledger.sender.stop = true
  · refine ⟨0, ⟨0, ?_, ?_⟩, iff_of_true rfl (.inl stopped)⟩
    · simp only [handle, MultipathSender.made, if_pos stopped]
      rfl
    · simp only [handle, MultipathSender.sendVideo, if_pos stopped]
  · obtain ⟨firstTs, noted⟩ := MultipathSender.noteFirstTs_eq now ledger.sender
    have segments : ledger.sender.made now frame =
        frame.segments ledger.sender.frameSeed (now - firstTs).toUInt64.toUInt32 := by
      rw [MultipathSender.made, if_neg stopped, noted]
    have few : (ledger.sender.made now frame).length = frame.splits.length := by
      rw [segments, Frame.segments, List.length_map, List.length_zipIdx]
    have small : (ledger.sender.made now frame).length < 2 ^ 32 := by
      rw [few]
      exact Nat.lt_of_le_of_lt frame.length_splits_le (by decide)
    obtain ⟨leaked, balance, none⟩ := MultipathSender.pending_enqueue
      (ledger.sender.made now frame) { ledger.sender with firstTs }
    have paths := (MultipathSender.enqueue_paths (ledger.sender.made now frame)
      { ledger.sender with firstTs }).1
    have sent : ledger.sender.sendVideo now frame =
        { MultipathSender.enqueue (ledger.sender.made now frame)
            ({ ledger.sender with firstTs } : MultipathSender) with
          frameSeed := (MultipathSender.enqueue (ledger.sender.made now frame)
            ({ ledger.sender with firstTs } : MultipathSender)).frameSeed + 1 } := by
      rw [segments, MultipathSender.sendVideo, if_neg stopped, noted]
    refine ⟨leaked, ⟨_, rfl, ?_⟩, ?_⟩
    · have queued : (ledger.sender.sendVideo now frame).queued = ledger.sender.queued := by
        rw [sent]
        exact congrArg (SortedMap.total PathSender.queued) paths
      have pending : (ledger.sender.sendVideo now frame).pending + leaked =
          ledger.sender.pending + ((ledger.sender.made now frame).map one).sum := by
        rw [sent]
        exact balance
      simp only [handle]
      rw [queued, add_right_comm _ _ leaked, add_right_comm _ _ leaked, add_right_comm _ _ leaked,
        pending]
      abel
    · rw [none, MultipathSender.fresh_iff small, few]
      exact (or_iff_right stopped).symm

theorem leaks_packetSchedule (scheduleId : UInt32) (pid : UInt8) :
    ledger.Leaks (.packetSchedule scheduleId pid) := by
  simp only [Leaks, handle, Safe, MultipathSender.packetSchedule]
  cases waiting : ledger.sender.pendingBuf.find? scheduleId with
  | none => exact ⟨0, ⟨0, (add_zero _).symm, rfl⟩, iff_of_true rfl (.inl rfl)⟩
  | some seg =>
      have pending : ledger.sender.pending =
          one seg + (ledger.sender.pendingBuf.erase scheduleId).total one :=
        SortedMap.total_erase one waiting
      cases found : ledger.sender.usablePath.find? pid with
      | none =>
          refine ⟨one seg, ⟨0, (add_zero _).symm, ?_⟩, ?_⟩
          · rw [pending]
            change (ledger.sender.pendingBuf.erase scheduleId).total one + ledger.sender.queued +
              ledger.sent + ledger.freed + one seg = _
            abel
          · refine iff_of_false (one_ne_zero seg) ?_
            rintro (absent | ⟨path, missing, -⟩)
            · cases absent
            · cases missing
      | some path =>
          -- The queue of the path is the only one that changes.
          have before : ledger.sender.queued = path.queued +
              (ledger.sender.usablePath.erase pid).total PathSender.queued :=
            SortedMap.total_erase _ found
          have after : (ledger.sender.usablePath.set pid (path.put seg).1).total
              PathSender.queued = (path.put seg).1.queued +
                (ledger.sender.usablePath.erase pid).total PathSender.queued :=
            SortedMap.total_set _ _ _ _
          by_cases accepts : path.Accepts
          · refine ⟨0, ⟨0, (add_zero _).symm, ?_⟩, iff_of_true rfl (.inr ⟨path, rfl, accepts⟩)⟩
            change (ledger.sender.pendingBuf.erase scheduleId).total one +
              (ledger.sender.usablePath.set pid (path.put seg).1).total PathSender.queued +
                ledger.sent + ledger.freed + 0 = _
            rw [after, before, pending, PathSender.queued_put, if_pos accepts]
            abel
          · refine ⟨one seg, ⟨0, (add_zero _).symm, ?_⟩, iff_of_false (one_ne_zero seg) ?_⟩
            · change (ledger.sender.pendingBuf.erase scheduleId).total one +
                (ledger.sender.usablePath.set pid (path.put seg).1).total PathSender.queued +
                  ledger.sent + ledger.freed + one seg = _
              rw [after, before, pending, PathSender.queued_put, if_neg accepts]
              abel
            · rintro (absent | ⟨other, same, fine⟩)
              · cases absent
              · cases same
                exact accepts fine

/-- **Every event keeps the segments if and only if it is safe.** -/
theorem leaks (empty : ledger.sender.SynEmpty) (event : SenderEvent) :
    ledger.Leaks event := by
  have idle : ∀ {next : Ledger}, next = ledger → Moves ledger next 0 := by
    rintro _ rfl
    exact moves_of_queued rfl rfl (zero_add _).symm (add_zero _).symm
  cases event with
  | registerPath paceMode =>
      exact ⟨0, moves_of_queued rfl rfl (zero_add _).symm (add_zero _).symm,
        iff_of_true rfl trivial⟩
  | notifyPathUsable pid =>
      have queued := MultipathSender.queued_notifyPathUsable empty pid
      have pending : (ledger.sender.notifyPathUsable pid).pending = ledger.sender.pending := by
        rw [MultipathSender.notifyPathUsable]
        cases ledger.sender.synPath.find? pid <;> rfl
      exact ⟨0, moves_of_queued rfl pending (queued.symm.trans (zero_add _).symm)
        (add_zero _).symm, iff_of_true rfl trivial⟩
  | sendVideo now frame => exact leaks_sendVideo now frame
  | packetSchedule scheduleId pid => exact leaks_packetSchedule scheduleId pid
  | timeToSendPacket pid seq retransmission now =>
      refine ⟨0, ?_, iff_of_true rfl trivial⟩
      simp only [handle, MultipathSender.timeToSendPacket]
      cases found : ledger.sender.usablePath.find? pid with
      | none => exact idle (congrArg (fun sent => { ledger with sent }) (add_zero _))
      | some path =>
          exact moves_of_queued rfl rfl (MultipathSender.queued_setUsable found
            (path.queued_timeToSendPacket seq retransmission now ledger.sender.firstTs))
            (add_right_comm _ _ _)
  | pacingSendSegment pid now =>
      refine ⟨0, ?_, iff_of_true rfl trivial⟩
      simp only [handle, MultipathSender.pacingSendSegment]
      cases found : ledger.sender.usablePath.find? pid with
      | none => exact idle (congrArg (fun sent => { ledger with sent }) (add_zero _))
      | some path =>
          exact moves_of_queued rfl rfl (MultipathSender.queued_setUsable found
            (path.queued_pacingSendSegment now ledger.sender.firstTs)) (add_right_comm _ _ _)
  | stopPath pid =>
      refine ⟨0, ?_, iff_of_true rfl trivial⟩
      simp only [handle, MultipathSender.stopPath]
      cases found : ledger.sender.usablePath.find? pid with
      | none => exact idle (congrArg (fun freed => { ledger with freed }) (add_zero _))
      | some path =>
          exact moves_of_queued rfl rfl
            (MultipathSender.queued_setUsable found path.queued_stopPath) (add_assoc _ _ _).symm
  | stopSynPath pid =>
      refine ⟨0, ?_, iff_of_true rfl trivial⟩
      simp only [handle, MultipathSender.stopSynPath]
      cases found : ledger.sender.synPath.find? pid with
      | none => exact idle (congrArg (fun freed => { ledger with freed }) (add_zero _))
      | some path =>
          have nothing : path.freed = 0 := by
            rw [PathSender.freed, empty.find? found, ite_self]
          refine moves_of_queued rfl rfl (zero_add _).symm ?_
          change ledger.sent + (ledger.freed + path.freed) = ledger.sent + ledger.freed + 0
          rw [nothing, add_zero, add_zero]
  | stopSender =>
      refine ⟨0, moves_of_queued rfl rfl ?_ (add_assoc _ _ _).symm, iff_of_true rfl trivial⟩
      change ledger.sender.usablePath.total PathSender.queued = _ +
        (ledger.sender.usablePath.mapVal PathSender.stopPath).total PathSender.queued
      rw [SortedMap.total_mapVal, ← SortedMap.total_add]
      exact congrArg (SortedMap.total · ledger.sender.usablePath)
        (funext PathSender.queued_stopPath)

/-! ## Every run -/

/-- Only usable paths get segments. -/
theorem synEmpty_handle (empty : ledger.sender.SynEmpty) (event : SenderEvent) :
    (ledger.handle event).sender.SynEmpty := by
  cases event with
  | registerPath paceMode =>
      intro entry member
      rcases SortedMap.mem_insert_of member with rfl | old
      · rfl
      · exact empty entry old
  | notifyPathUsable pid =>
      simp only [handle, MultipathSender.notifyPathUsable]
      cases ledger.sender.synPath.find? pid with
      | none => exact empty
      | some path => exact fun entry member => empty entry (SortedMap.mem_erase.mp member).1
  | sendVideo now frame =>
      simp only [handle, MultipathSender.sendVideo]
      split_ifs with stopped
      · exact empty
      · obtain ⟨firstTs, noted⟩ := MultipathSender.noteFirstTs_eq now ledger.sender
        rw [noted]
        intro entry member
        rw [(MultipathSender.enqueue_paths _ { ledger.sender with firstTs }).2] at member
        exact empty entry member
  | packetSchedule scheduleId pid =>
      simp only [handle, MultipathSender.packetSchedule]
      cases ledger.sender.pendingBuf.find? scheduleId with
      | none => exact empty
      | some seg => cases ledger.sender.usablePath.find? pid <;> exact empty
  | timeToSendPacket pid seq retransmission now =>
      simp only [handle, MultipathSender.timeToSendPacket]
      cases ledger.sender.usablePath.find? pid <;> exact empty
  | pacingSendSegment pid now =>
      simp only [handle, MultipathSender.pacingSendSegment]
      cases ledger.sender.usablePath.find? pid <;> exact empty
  | stopPath pid =>
      simp only [handle, MultipathSender.stopPath]
      cases ledger.sender.usablePath.find? pid <;> exact empty
  | stopSynPath pid =>
      simp only [handle, MultipathSender.stopSynPath]
      cases found : ledger.sender.synPath.find? pid with
      | none => exact empty
      | some path =>
          intro entry member
          rcases SortedMap.mem_setList_of member with rfl | old
          · exact PathSender.stopPath_queued_eq_zero (empty.find? found)
          · exact empty entry old
  | stopSender => exact empty

/-- **No segment disappears at any time of a run if and only if every event is safe.** -/
theorem conserved_iff (uid : UInt32) (events : List SenderEvent) :
    (∀ n last out, machine.run { sender := { uid } } (events.take n) = some (last, out) →
      last.Conserved) ↔ machine.Along Safe { sender := { uid } } events := by
  have keeps : ∀ (ledger : Ledger) event next out, ledger.sender.SynEmpty →
      machine.step ledger event = some (next, out) → next.sender.SynEmpty := by
    intro ledger event next out empty stepped
    obtain ⟨rfl, -⟩ := Prod.mk.inj (Option.some.inj stepped)
    exact synEmpty_handle empty event
  have decides : ∀ (ledger : Ledger) event next out, ledger.sender.SynEmpty → ledger.Conserved →
      machine.step ledger event = some (next, out) →
      (next.Conserved ↔ ledger.Safe event) := by
    intro ledger event next out empty conserved stepped
    obtain ⟨rfl, -⟩ := Prod.mk.inj (Option.some.inj stepped)
    obtain ⟨leaked, moves, none⟩ := leaks empty event
    rw [moves.keeps_iff conserved, none]
  refine Machine.prefixes_good_iff (fun ledger event => ⟨_, _, rfl⟩) keeps decides ?_ rfl
  intro entry member
  cases member

/-- A frame of one byte. -/
def oneByte : Frame := ⟨0, 0, [7], by decide⟩

/-- A segment that is scheduled to a path that is not usable is in no place. -/
theorem unusable_loses : ∃ last out, machine.run { sender := { uid := 1 } }
    [.sendVideo 0 oneByte, .packetSchedule 1 9] = some (last, out) ∧ ¬ last.Conserved := by
  refine ⟨_, _, rfl, fun conserved => ?_⟩
  have cards := congrArg Multiset.card conserved
  cases cards

end Ledger

end MpVideo.Sender
