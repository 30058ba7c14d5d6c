import MpVideo.Lib.Machine
import MpVideo.Lib.MachineInt
import MpVideo.Lib.SortedMap
import MpVideo.Wire.Proto
import Mathlib.Data.List.ReduceOption

/-!
# The multipath receiver

`mpreceiver.cc`. Segments that the paths hand on are collected in a cache of frames,
ordered by frame number. The first frame of the cache leaves it when it is complete,
or, if it is no key frame, when it is older than a second.

A call that leaves the receiver is a `CacheCall`. What a member function reads from
the registered paths and from the clock is an argument (`CacheEnv`). The packet
objects of the pool are named by the order in which they were allocated. An access
beyond the allocated slots of a frame is undefined (`none`).
-/

set_option autoImplicit false

namespace MpVideo.Receiver

open Wire

/-- `max_frame_waitting`. -/
def maxFrameWaitting : UInt32 := 1000

/-- `video_packet_t`, with the name of its object. -/
structure VideoPacket where
  object : Nat
  pid : UInt8
  seg : SimSegment
  deriving DecidableEq

/-- `video_frame_t`. -/
structure VideoFrame where
  fid : UInt32
  total : UInt32
  recv : UInt32
  firstTs : UInt32
  ts : UInt32
  waittingTs : Int64
  frameType : UInt8
  frameFirstTs : Int64
  frameTimestamp : UInt32
  packets : List (Option VideoPacket)
  /-- The slots are allocated once, for the total of the frame. -/
  allocated : packets.length = total.toNat
  deriving DecidableEq

/-- What a member function reads from outside. -/
structure CacheEnv where
  /-- `rtc::TimeMillis()` and `Simulator::Now()`, as stored in 32 bits. -/
  now : UInt32
  /-- `GetWaittingDuration` over the registered paths. -/
  waittingDuration : UInt32
  /-- `GetFrameSentFirstTs` of the path of the segment. -/
  frameSentFirstTs : Int64

/-- A call that leaves the receiver. -/
inductive CacheCall where
  /-- `ForwardUp` of the registered sink; length and bytes are the list. -/
  | forwardUp (fid : UInt32) (data : List UInt8) (recv total : UInt32)
  /-- `Consume` of the path with this id. -/
  | consume (pid : UInt8) (packetId : UInt32)
  /-- The gap callback. -/
  | gap (fid delta : UInt32)
  /-- The frame trace callback. -/
  | frameInfo (fid len recv total delay : UInt32)
  /-- The buffer length callback. -/
  | recvBufLen (len : UInt32)
  deriving DecidableEq

/-- The members of `MultipathReceiver`. -/
structure MultipathReceiver where
  /-- Whether a data sink is registered. -/
  sink : Bool := false
  stop : Bool := false
  firstPacket : Bool := false
  /-- Whether `hbTimer_` is scheduled. -/
  hbTimer : Bool := false
  minFid : UInt32 := 0
  frameCache : SortedMap UInt32 VideoFrame := .empty
  /-- The free packet objects, in the order of the queue. -/
  freeSegs : List Nat := [0, 1]
  segC : UInt32 := 2
  /-- The number of packet objects allocated so far. -/
  objects : Nat := 2
  recvBufLen : UInt32 := 0
  /-- Which of the three callbacks are set. -/
  gapCb : Bool := false
  recvLenCb : Bool := false
  frameInfoCb : Bool := false

/-! ## Frames -/

namespace VideoFrame

/-- A frame as `DeliverToCache` allocates it. -/
def new (fid : UInt32) (total : UInt16) (ftype : UInt8) : VideoFrame where
  fid := fid
  total := total.toUInt32
  recv := 0
  firstTs := 0
  ts := 0
  waittingTs := if ftype = 1 then -1 else 0
  frameType := ftype
  frameFirstTs := 0
  frameTimestamp := 0
  packets := List.replicate total.toNat none
  allocated := by rw [List.length_replicate, UInt16.toNat_toUInt32]

/-- The packets present, in the order of their index. -/
def present (frame : VideoFrame) : List VideoPacket := frame.packets.reduceOption

/-- The bytes of the packets present. -/
def data (frame : VideoFrame) : List UInt8 :=
  frame.present.flatMap fun packet => packet.seg.data.bytes

/-- The time since the frame was sent, as the 32 bits of a difference of 64-bit
numbers. Both stamps are zero unless they were traced. -/
def age (now : UInt32) (frame : VideoFrame) : UInt32 :=
  (now.toUInt64.toInt64 -
    (frame.frameFirstTs + frame.frameTimestamp.toUInt64.toInt64)).toUInt64.toUInt32

/-- The first segment of a frame sets its arrival time and, with a trace callback,
the two stamps of its sending time. -/
def stamp (traced : Bool) (env : CacheEnv) (seg : SimSegment) (frame : VideoFrame) : VideoFrame :=
  if frame.firstTs = 0 then
    { frame with
      firstTs := env.now
      frameFirstTs := if traced then env.frameSentFirstTs else frame.frameFirstTs
      frameTimestamp := if traced then seg.timestamp else frame.frameTimestamp }
  else frame

/-- The packet enters its slot. -/
def place (index : UInt16) (packet : VideoPacket) (now : UInt32) (frame : VideoFrame) :
    VideoFrame :=
  { frame with
    ts := now
    recv := frame.recv + 1
    packets := frame.packets.set index.toNat (some packet)
    allocated := List.length_set.trans frame.allocated }

/-- An incomplete frame that is no key frame notes until when it waits. -/
def await (env : CacheEnv) (frame : VideoFrame) : VideoFrame :=
  if frame.recv < frame.total ∧ frame.waittingTs ≠ -1 then
    { frame with waittingTs := (env.now + env.waittingDuration).toUInt64.toInt64 }
  else frame

/-- The test of `CheckDeliverFrame`: the frame is complete, or it may be incomplete
and its age exceeds the limit. -/
def ready (now : UInt32) (frame : VideoFrame) : Bool :=
  frame.recv = frame.total ∨
    (frame.recv < frame.total ∧ frame.waittingTs ≠ -1 ∧ frame.age now > maxFrameWaitting)

end VideoFrame

namespace MultipathReceiver

/-! ## Delivery -/

/-- The callback that reports the spread of the arrival times of a frame. -/
def gapCalls (frame : VideoFrame) (receiver : MultipathReceiver) : List CacheCall :=
  if receiver.gapCb then [.gap frame.fid (frame.ts - frame.firstTs)] else []

/-- The callback that reports a frame. -/
def infoCalls (now : UInt32) (frame : VideoFrame) (receiver : MultipathReceiver) :
    List CacheCall :=
  if receiver.frameInfoCb then
    [.frameInfo frame.fid (UInt32.ofNat frame.data.length) frame.recv frame.total (frame.age now)]
  else []

/-- The bytes a packet counts for in `recv_buf_len_`. -/
def segmentLen (seg : SimSegment) : UInt32 :=
  UInt32.ofNat seg.data.size + UInt32.ofNat simSegmentHeaderSize

/-- `DeliverFrame`. -/
def deliverFrame (now : UInt32) (frame : VideoFrame) (receiver : MultipathReceiver) :
    MultipathReceiver × List CacheCall :=
  if receiver.sink then
    ({ receiver with
        recvBufLen := frame.present.foldl (fun len packet => len - segmentLen packet.seg)
          receiver.recvBufLen
        minFid := if receiver.minFid < frame.fid then frame.fid else receiver.minFid },
      receiver.gapCalls frame ++ receiver.infoCalls now frame ++
        [.forwardUp frame.fid frame.data frame.recv frame.total])
  else (receiver, receiver.gapCalls frame)

/-- `PacketConsumed`. -/
def packetConsumed (frame : VideoFrame) : List CacheCall :=
  frame.present.map fun packet => .consume packet.pid packet.seg.packetId

/-- `BuffCollection`: the packet objects return to the pool. -/
def buffCollection (frame : VideoFrame) (receiver : MultipathReceiver) : MultipathReceiver :=
  { receiver with freeSegs := receiver.freeSegs ++ frame.present.map VideoPacket.object }

/-- What `CheckDeliverFrame` does with a frame that leaves the cache. -/
def releaseFrame (now : UInt32) (frame : VideoFrame) (receiver : MultipathReceiver) :
    MultipathReceiver × List CacheCall :=
  let (receiver, calls) := receiver.deliverFrame now frame
  (receiver.buffCollection frame, calls ++ packetConsumed frame)

/-- The loop of `CheckDeliverFrame` over the entries of the cache: the entries left,
and what was done for the others. -/
def checkLoop (now : UInt32) : List (UInt32 × VideoFrame) → MultipathReceiver →
    List (UInt32 × VideoFrame) × MultipathReceiver × List CacheCall
  | [], receiver => ([], receiver, [])
  | entry :: rest, receiver =>
      if entry.2.ready now then
        let (receiver, calls) := receiver.releaseFrame now entry.2
        let (left, receiver, more) := checkLoop now rest receiver
        (left, receiver, calls ++ more)
      else (entry :: rest, receiver, [])

theorem checkLoop_suffix (now : UInt32) (entries : List (UInt32 × VideoFrame))
    (receiver : MultipathReceiver) : (checkLoop now entries receiver).1 <:+ entries := by
  induction entries generalizing receiver with
  | nil => exact List.suffix_rfl
  | cons entry rest ih =>
      rw [checkLoop]
      split_ifs
      · exact (ih _).trans (List.suffix_cons entry rest)
      · exact List.suffix_rfl

/-- The callback at the end of `CheckDeliverFrame`. -/
def recvBufLenCalls (delivered : Bool) (receiver : MultipathReceiver) : List CacheCall :=
  if delivered ∧ receiver.recvLenCb then [.recvBufLen receiver.recvBufLen] else []

/-- `CheckDeliverFrame`. -/
def checkDeliverFrame (now : UInt32) (receiver : MultipathReceiver) :
    MultipathReceiver × List CacheCall :=
  let entries := receiver.frameCache.entries
  let result := checkLoop now entries receiver
  let receiver' :=
    { result.2.1 with
      frameCache := ⟨result.1, receiver.frameCache.sorted.sublist
        (checkLoop_suffix now entries receiver).sublist⟩ }
  let delivered := result.1.length < entries.length
  (receiver', result.2.2 ++ receiver'.recvBufLenCalls delivered)

/-- The members that no delivery changes. -/
structure Steady (receiver next : MultipathReceiver) : Prop where
  sink : next.sink = receiver.sink
  stop : next.stop = receiver.stop
  firstPacket : next.firstPacket = receiver.firstPacket
  hbTimer : next.hbTimer = receiver.hbTimer
  frameInfoCb : next.frameInfoCb = receiver.frameInfoCb

theorem steady_releaseFrame (now : UInt32) (frame : VideoFrame) (receiver : MultipathReceiver) :
    Steady receiver (receiver.releaseFrame now frame).1 := by
  simp only [releaseFrame, deliverFrame]
  split_ifs <;> exact ⟨rfl, rfl, rfl, rfl, rfl⟩

theorem steady_checkLoop (now : UInt32) (entries : List (UInt32 × VideoFrame))
    (receiver : MultipathReceiver) : Steady receiver (checkLoop now entries receiver).2.1 := by
  induction entries generalizing receiver with
  | nil => exact ⟨rfl, rfl, rfl, rfl, rfl⟩
  | cons entry rest ih =>
      rw [checkLoop]
      split_ifs with ready
      · have one := steady_releaseFrame now entry.2 receiver
        have more := ih (receiver.releaseFrame now entry.2).1
        exact ⟨more.sink.trans one.sink, more.stop.trans one.stop,
          more.firstPacket.trans one.firstPacket, more.hbTimer.trans one.hbTimer,
          more.frameInfoCb.trans one.frameInfoCb⟩
      · exact ⟨rfl, rfl, rfl, rfl, rfl⟩

theorem steady_checkDeliverFrame (now : UInt32) (receiver : MultipathReceiver) :
    Steady receiver (receiver.checkDeliverFrame now).1 := by
  have loop := steady_checkLoop now receiver.frameCache.entries receiver
  exact ⟨loop.sink, loop.stop, loop.firstPacket, loop.hbTimer, loop.frameInfoCb⟩

/-! ## Heartbeat -/

/-- `Process`. The check for a blocked frame only prints. -/
def process (now : UInt32) (receiver : MultipathReceiver) : MultipathReceiver × List CacheCall :=
  if receiver.stop then (receiver, []) else receiver.checkDeliverFrame now

/-- `HeartBeat`. -/
def heartBeat (now : UInt32) (receiver : MultipathReceiver) :
    MultipathReceiver × List CacheCall :=
  if receiver.hbTimer then (receiver, [])
  else
    let (receiver, calls) := receiver.process now
    ({ receiver with hbTimer := true }, calls)

/-- The expiry of `hbTimer_`. -/
def heartBeatExpired (now : UInt32) (receiver : MultipathReceiver) :
    MultipathReceiver × List CacheCall :=
  { receiver with hbTimer := false }.heartBeat now

/-! ## Arrival -/

/-- `CheckLateFrame`. -/
def checkLateFrame (fid : UInt32) (receiver : MultipathReceiver) : Bool :=
  fid ≤ receiver.minFid

/-- The frame a segment belongs to: the cached one, or a new one. -/
def frameOf (seg : SimSegment) (receiver : MultipathReceiver) : VideoFrame :=
  (receiver.frameCache.find? seg.fid).getD (.new seg.fid seg.total seg.ftype)

/-- A packet object from the pool, or a new one. -/
def takeObject (receiver : MultipathReceiver) : Nat × MultipathReceiver :=
  match receiver.freeSegs with
  | object :: rest => (object, { receiver with freeSegs := rest })
  | [] =>
      (receiver.objects,
        { receiver with objects := receiver.objects + 1, segC := receiver.segC + 1 })

/-- The segment enters its frame, and the frame the cache. -/
def store (env : CacheEnv) (pid : UInt8) (seg : SimSegment) (receiver : MultipathReceiver) :
    MultipathReceiver :=
  let frame := receiver.frameOf seg
  let (object, receiver) := receiver.takeObject
  let frame := frame.stamp receiver.frameInfoCb env seg
  let frame := (frame.place seg.index ⟨object, pid, seg⟩ env.now).await env
  { receiver with
    recvBufLen := receiver.recvBufLen + segmentLen seg
    frameCache := receiver.frameCache.set seg.fid frame }

/-- The part of `DeliverToCache` behind the first heartbeat. -/
def accept (env : CacheEnv) (pid : UInt8) (seg : SimSegment) (receiver : MultipathReceiver) :
    Option (MultipathReceiver × List CacheCall) :=
  if receiver.checkLateFrame seg.fid then some (receiver, [])
  else
    match (receiver.frameOf seg).packets[seg.index.toNat]? with
    | none => none
    | some (some _) => some (receiver, [])
    | some none => some ((receiver.store env pid seg).checkDeliverFrame env.now)

/-- The heartbeat that the first segment starts. -/
def firstHeartBeat (now : UInt32) (receiver : MultipathReceiver) :
    MultipathReceiver × List CacheCall :=
  if receiver.firstPacket then (receiver, [])
  else
    let (receiver, calls) := receiver.heartBeat now
    ({ receiver with firstPacket := true }, calls)

/-- `DeliverToCache`. -/
def deliverToCache (env : CacheEnv) (pid : UInt8) (seg : SimSegment)
    (receiver : MultipathReceiver) : Option (MultipathReceiver × List CacheCall) :=
  if receiver.stop then some (receiver, [])
  else
    let (receiver, first) := receiver.firstHeartBeat env.now
    (receiver.accept env pid seg).map fun (receiver, calls) => (receiver, first ++ calls)

/-- `Stop`, on the members of the receiver itself. -/
def stopReceiver (receiver : MultipathReceiver) : MultipathReceiver :=
  { receiver with hbTimer := false, stop := true }

/-! ## The receiver as a machine -/

/-- What happens to the receiver from outside. -/
inductive CacheEvent where
  | deliverToCache (env : CacheEnv) (pid : UInt8) (seg : SimSegment)
  | heartBeatExpired (now : UInt32)
  | stop

/-- What the receiver does on an event. -/
def handle (receiver : MultipathReceiver) :
    CacheEvent → Option (MultipathReceiver × List CacheCall)
  | .deliverToCache env pid seg => receiver.deliverToCache env pid seg
  | .heartBeatExpired now => some (receiver.heartBeatExpired now)
  | .stop => some (receiver.stopReceiver, [])

/-- The multipath receiver as a machine. -/
def machine : Machine MultipathReceiver CacheEvent CacheCall := ⟨handle⟩

end MultipathReceiver

end MpVideo.Receiver
