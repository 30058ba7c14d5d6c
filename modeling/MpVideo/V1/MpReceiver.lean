import MpVideo.Lib.Machine
import MpVideo.Lib.MachineInt
import MpVideo.Lib.SortedMap
import MpVideo.V1.VideoProto

/-!
# The receiver of the second generation

`mp_receiver_v1.cc`. Packets are collected in a buffer for each frame
(`VideoFrameBuffer`). The first frame is reported when its buffer counts as many packets
as the frame has, or when its last new packet is older than `max_frame_wait`; then its
number becomes `delivered_fid_`, and packets up to this number are ignored.

As a machine the receiver is observed through a log of all arrivals and all reports
(`LogEntry`).
-/

set_option autoImplicit false

namespace MpVideo.V1

/-- `max_frame_wait`, in milliseconds. -/
def maxFrameWait : UInt32 := 300

/-! ## Frame buffers -/

/-- `VideoFrameBuffer`. -/
structure VideoFrameBuffer where
  ftype : UInt8
  fid : UInt32
  frameTimestamp : UInt32 := 0
  maxRecvTs : UInt32 := 0
  received : UInt8 := 0
  total : UInt8
  isCompleted : Bool := false
  packets : SortedMap Int16 VideoPacketReceiveWrapper := .empty

namespace VideoFrameBuffer

/-- `is_expired`. -/
def isExpired (now threshold : UInt32) (frame : VideoFrameBuffer) : Bool :=
  now - frame.maxRecvTs > threshold

/-- `get_frame_delay`. -/
def getFrameDelay (frame : VideoFrameBuffer) : UInt32 := frame.maxRecvTs - frame.frameTimestamp

/-- `OnNewPacket`. -/
def onNewPacket (packet : VideoPacketReceiveWrapper) (ts : UInt32) (frame : VideoFrameBuffer) :
    VideoFrameBuffer :=
  let index := packet.getIndex
  if index = -1 then frame
  else
    match frame.packets.find? index with
    | some _ => frame
    | none =>
        let received := frame.received + 1
        { frame with
          maxRecvTs := ts
          frameTimestamp :=
            if frame.frameTimestamp = 0 then packet.getFrameTimestamp else frame.frameTimestamp
          packets := frame.packets.insert index packet
          received
          isCompleted := frame.isCompleted || received = frame.total }

end VideoFrameBuffer

/-! ## The receiver -/

/-- What `DeliverFrame` reports. -/
structure FrameReport where
  fid : UInt32
  delay : UInt32
  received : UInt8
  total : UInt8

/-- The members of `MpReceiverV1`. -/
structure MpReceiverV1 where
  firstPacket : Bool := true
  runing : Bool := true
  /-- Whether `heart_timer_` is scheduled. -/
  heartTimer : Bool := false
  frames : SortedMap UInt32 VideoFrameBuffer := .empty
  deliveredFid : UInt32 := 0

namespace MpReceiverV1

/-- `DeliverFrame`. -/
def deliverFrame (fid : UInt32) (frame : VideoFrameBuffer) : FrameReport where
  fid := fid
  delay := frame.getFrameDelay
  received := frame.received
  total := frame.total

/-- The loop of `CheckDeliverable` over the entries of `frames_`: the entries left, the
new `delivered_fid_`, and the reports, each with the keys of `frames_` at its time. -/
def checkLoop (now : UInt32) : List (UInt32 × VideoFrameBuffer) → UInt32 →
    List (UInt32 × VideoFrameBuffer) × UInt32 × List (List UInt32 × FrameReport)
  | [], deliveredFid => ([], deliveredFid, [])
  | entry :: rest, deliveredFid =>
      if entry.2.isCompleted || entry.2.isExpired now maxFrameWait then
        let (left, deliveredFid, more) := checkLoop now rest entry.1
        let keys := (entry :: rest).map Prod.fst
        (left, deliveredFid, (keys, deliverFrame entry.1 entry.2) :: more)
      else (entry :: rest, deliveredFid, [])

theorem checkLoop_suffix (now : UInt32) (entries : List (UInt32 × VideoFrameBuffer))
    (deliveredFid : UInt32) : (checkLoop now entries deliveredFid).1 <:+ entries := by
  induction entries generalizing deliveredFid with
  | nil => exact List.suffix_rfl
  | cons entry rest ih =>
      rw [checkLoop]
      split_ifs
      · exact (ih _).trans (List.suffix_cons entry rest)
      · exact List.suffix_rfl

/-- `CheckDeliverable`. -/
def checkDeliverable (now : UInt32) (receiver : MpReceiverV1) :
    MpReceiverV1 × List (List UInt32 × FrameReport) :=
  if receiver.runing then
    let result := checkLoop now receiver.frames.entries receiver.deliveredFid
    ({ receiver with
        frames := ⟨result.1, receiver.frames.sorted.sublist (checkLoop_suffix now _ _).sublist⟩
        deliveredFid := result.2.1 },
      result.2.2)
  else (receiver, [])

/-- `HeartBeat`. -/
def heartBeat (now : UInt32) (receiver : MpReceiverV1) :
    MpReceiverV1 × List (List UInt32 × FrameReport) :=
  if !receiver.heartTimer && receiver.runing then
    let (receiver, reports) := receiver.checkDeliverable now
    ({ receiver with heartTimer := true }, reports)
  else (receiver, [])

/-- The expiry of `heart_timer_`. -/
def heartBeatExpired (now : UInt32) (receiver : MpReceiverV1) :
    MpReceiverV1 × List (List UInt32 × FrameReport) :=
  { receiver with heartTimer := false }.heartBeat now

/-- The first packet starts the heartbeat. -/
def noteFirstPacket (receiver : MpReceiverV1) : MpReceiverV1 :=
  if receiver.firstPacket then { receiver with heartTimer := true, firstPacket := false }
  else receiver

@[simp] theorem noteFirstPacket_deliveredFid (receiver : MpReceiverV1) :
    receiver.noteFirstPacket.deliveredFid = receiver.deliveredFid := by
  rw [noteFirstPacket]; split_ifs <;> rfl

@[simp] theorem noteFirstPacket_frames (receiver : MpReceiverV1) :
    receiver.noteFirstPacket.frames = receiver.frames := by
  rw [noteFirstPacket]; split_ifs <;> rfl

/-- The buffer of a frame: the one in `frames_`, or a new one. -/
def bufferOf (packet : VideoPacketReceiveWrapper) (receiver : MpReceiverV1) : VideoFrameBuffer :=
  (receiver.frames.find? packet.segment.fid).getD {
    ftype := packet.segment.ftype
    fid := packet.segment.fid
    total := packet.segment.total }

/-- `OnVideoPacket`. -/
def onVideoPacket (now : UInt32) (packet : VideoPacketReceiveWrapper) (receiver : MpReceiverV1) :
    MpReceiverV1 :=
  if receiver.runing then
    let receiver := receiver.noteFirstPacket
    if packet.segment.fid ≤ receiver.deliveredFid then receiver
    else
      { receiver with
        frames := receiver.frames.set packet.segment.fid
          ((receiver.bufferOf packet).onNewPacket packet now) }
  else receiver

/-- `StopReceiver`. -/
def stopReceiver (receiver : MpReceiverV1) : MpReceiverV1 :=
  { receiver with runing := false, heartTimer := false }

end MpReceiverV1

/-! ## Runs -/

variable {total : UInt32 → UInt8}

/-- A packet of a frame whose number of packets is given. -/
structure FramePacket (total : UInt32 → UInt8) extends VideoPacketReceiveWrapper where
  total_eq : segment.total = total segment.fid
  inside : segment.index < total segment.fid

/-- What happens to the receiver from outside. -/
inductive ReceiverEvent (total : UInt32 → UInt8) where
  | onVideoPacket (packet : FramePacket total)
  | checkDeliverable
  | heartBeatExpired
  | stopReceiver

/-- What is noted about a run: a packet that arrives, and a report, with the keys of
`frames_` at its time. The times are in milliseconds and do not wrap around. -/
inductive LogEntry (total : UInt32 → UInt8) where
  | arrived (now : Nat) (packet : FramePacket total)
  | reported (now : Nat) (keys : List UInt32) (report : FrameReport)

/-- The receiver and the time. -/
structure TimedReceiver where
  clock : Nat := 0
  receiver : MpReceiverV1 := {}

namespace TimedReceiver

/-- The receiver after a call, and the reports that the call made. -/
def report (now : Nat) (result : MpReceiverV1 × List (List UInt32 × FrameReport)) :
    TimedReceiver × List (LogEntry total) :=
  (⟨now, result.1⟩, result.2.map fun (keys, report) => .reported now keys report)

/-- What happens on an event, some time after the event before. -/
def handle (timed : TimedReceiver) (elapsed : Nat) :
    ReceiverEvent total → TimedReceiver × List (LogEntry total)
  | .onVideoPacket packet =>
      let now := timed.clock + elapsed
      (⟨now, timed.receiver.onVideoPacket (UInt32.ofNat now) packet.toVideoPacketReceiveWrapper⟩,
        [.arrived now packet])
  | .checkDeliverable =>
      let now := timed.clock + elapsed
      report now (timed.receiver.checkDeliverable (UInt32.ofNat now))
  | .heartBeatExpired =>
      let now := timed.clock + elapsed
      report now (timed.receiver.heartBeatExpired (UInt32.ofNat now))
  | .stopReceiver => (⟨timed.clock + elapsed, timed.receiver.stopReceiver⟩, [])

/-- The receiver as a machine. An event comes with the time since the event before. -/
def machine : Machine TimedReceiver (Nat × ReceiverEvent total) (LogEntry total) where
  step timed event := some (timed.handle event.1 event.2)

end TimedReceiver

end MpVideo.V1
