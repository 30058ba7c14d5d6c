import MpVideo.Receiver.SeqTables
import MpVideo.Wire.Proto

/-!
# The path receiver

`pathreceiver.cc`. A call of the source that leaves the object (a datagram sent, a
segment handed to the frame cache, a delay reported) is a `PathCall`; a member
function maps the receiver to the receiver afterwards and the calls it made, in
order. Simulated time and the first frame time of the sender end are arguments
(`Env`). A receiver interface is registered, as the source assumes wherever it
asks for the user id.

The calls into the congestion controller are left out, since they return nothing;
what remains of the controller is whether it exists.
-/

set_option autoImplicit false

namespace MpVideo.Receiver

open Wire

/-- `PING_INTERVAL`. -/
def pingInterval : UInt32 := 150
/-- `PATH_ACK_REAL_TIME`. -/
def pathAckRealTime : UInt32 := 20
/-- `PATH_ACK_HB_TIME`. -/
def pathAckHbTime : UInt32 := 200
/-- `protection_time`. -/
def protectionTime : UInt32 := 50

/-- What a member function reads from outside. -/
structure Env where
  /-- `Simulator::Now().GetMilliSeconds()`, as stored in 32 bits. -/
  now : UInt32
  /-- `GetFirstTs` of the sender end, when `SetSourceEnd` was called. -/
  senderFirstTs : Option UInt32

/-- A call that leaves the receiver. -/
inductive PathCall where
  /-- `SendToNetwork`. -/
  | sendToNetwork (data : List UInt8)
  /-- `DeliverToCache` of the registered receiver interface. -/
  | deliverToCache (pid : UInt8) (seg : SimSegment)
  /-- The delay trace callback. -/
  | delay (packetId owd : UInt32)

/-- The members of `PathReceiver`. -/
structure PathReceiver where
  pid : UInt8 := 0
  /-- The user id of the registered receiver interface. -/
  uid : UInt32
  /-- Whether `Bind` created the socket. -/
  socket : Bool := true
  rtt : UInt32 := 0
  sumRtt : UInt32 := 0
  maxRtt : UInt32 := 0
  rttNum : UInt32 := 0
  rttVar : UInt32 := 5
  rttUpdateTs : UInt32 := 0
  pingResend : UInt32 := 0
  tables : SeqTables := {}
  ackTs : UInt32 := 0
  firstPacket : Bool := true
  stop : Bool := false
  /-- Whether `controller_` was created. -/
  controller : Bool := false
  /-- Whether `pingTimer_` is scheduled. -/
  pingTimer : Bool := false
  /-- Whether a delay trace callback is set. -/
  delayCb : Bool := false
  strm : BinStream := binStreamInit

namespace PathReceiver

/-! ## Sending -/

/-- `SendToNetwork`. -/
def sendToNetwork (data : List UInt8) (path : PathReceiver) : List PathCall :=
  if path.socket then [.sendToNetwork data] else []

/-- The header that `INIT_SIM_HEADER` and the assignment of `ver` produce. -/
def header (mid : MsgId) (path : PathReceiver) : SimHeader :=
  ⟨path.pid, mid.toUInt8, path.uid⟩

/-- Encode a message into the stream of the path and send the bytes in use. -/
def sendMsg (body : SimBody) (path : PathReceiver) : PathReceiver × List PathCall :=
  let strm := simEncodeMsg path.strm (path.header body.mid) body
  ({ path with strm }, path.sendToNetwork strm.data)

/-- `SendConnectAck`. -/
def sendConnectAck (cid : UInt32) : PathReceiver → PathReceiver × List PathCall :=
  sendMsg (.connectAck ⟨cid, 0⟩)

/-- `SendDisconnect`. -/
def sendDisconnect (now : UInt32) : PathReceiver → PathReceiver × List PathCall :=
  sendMsg (.disconnect ⟨now⟩)

/-- `SendPingMsg`. -/
def sendPingMsg (now : UInt32) (path : PathReceiver) : PathReceiver × List PathCall :=
  let (path, calls) := path.sendMsg (.ping ⟨now.toUInt64.toInt64⟩)
  ({ path with rttUpdateTs := now, pingResend := path.pingResend + 1 }, calls)

/-- `SendSegmentAck`. -/
def sendSegmentAck (ack : SimSegmentAck) : PathReceiver → PathReceiver × List PathCall :=
  sendMsg (.segAck ack)

/-- `CheckPing`. -/
def checkPing (now : UInt32) (path : PathReceiver) : PathReceiver × List PathCall :=
  if path.pingTimer then (path, [])
  else
    let (path, calls) :=
      if path.rttUpdateTs = 0 ∨ now - path.rttUpdateTs > pingInterval then path.sendPingMsg now
      else (path, [])
    ({ path with pingTimer := true }, calls)

/-- The expiry of `pingTimer_`. -/
def pingTimerExpired (now : UInt32) (path : PathReceiver) : PathReceiver × List PathCall :=
  { path with pingTimer := false }.checkPing now

/-! ## Acknowledgements -/

/-- The missing numbers that `VideoRealAck` reports: of the last `NACK_NUM` entries
of the loss table those not below the base, as 16-bit offsets from it. -/
def nackList (tables : SeqTables) : List UInt16 :=
  let keys := tables.loss.elems
  let last := keys.drop (keys.length - nackNum)
  ((last.filter fun key => ¬ key < tables.baseSeq).map fun key =>
    (key - tables.baseSeq).toUInt16).take nackNum

/-- The acknowledgement that `VideoRealAck` builds. -/
def segmentAck (seq : UInt32) (tables : SeqTables) : SimSegmentAck where
  basePacketId := tables.baseSeq
  ackedPacketId := seq
  nack := nackList tables
  nackBounded := List.length_take_le _ _

/-- `VideoRealAck`. -/
def videoRealAck (now : UInt32) (hb : Bool) (seq : UInt32) (path : PathReceiver) :
    PathReceiver × List PathCall :=
  if (¬ hb ∧ path.ackTs + pathAckRealTime < now) ∨ path.ackTs + pathAckHbTime < now then
    let (path, calls) := path.sendSegmentAck (segmentAck seq path.tables)
    ({ path with ackTs := now }, calls)
  else (path, [])

/-! ## Round trip time -/

/-- `SU_ABS`. -/
def suAbs (a b : UInt32) : UInt32 := if a > b then a - b else b - a

/-- The smoothed values of `UpdateRtt`, neither below ten milliseconds. -/
def smoothRtt (keepRtt now : UInt32) (path : PathReceiver) : PathReceiver :=
  let rttVar := (path.rttVar * 3 + suAbs path.rtt keepRtt) / 4
  let rtt := (7 * path.rtt + keepRtt) / 8
  { path with
    rttVar := if rttVar < 10 then 10 else rttVar
    rtt := if rtt < 10 then 10 else rtt
    rttUpdateTs := now
    pingResend := 0 }

/-- `UpdateRtt`. The average divides by the number of samples, which is undefined
(`none`) when that number wrapped to zero. -/
def updateRtt (time now : UInt32) (path : PathReceiver) : Option PathReceiver :=
  let keepRtt := if time > 5 then time else 5
  let path := path.smoothRtt keepRtt now
  if path.rttNum = 0 then
    some { path with sumRtt := keepRtt, maxRtt := keepRtt, rttNum := 1 }
  else if path.rttNum + 1 = 0 then none
  else
    some { path with
      rttNum := path.rttNum + 1
      sumRtt := path.sumRtt + keepRtt
      maxRtt := if keepRtt > path.maxRtt then keepRtt else path.maxRtt }

/-- `GetWaittingDuration`. -/
def getWaittingDuration (path : PathReceiver) : UInt32 :=
  path.rtt + path.rttVar + protectionTime

/-! ## Segments -/

/-- The block of `OnReceiveSegment` for the first packet: the controller is created
in one of the two modes, and the path begins to ping. -/
def onFirstPacket (now : UInt32) (path : PathReceiver) : PathReceiver × List PathCall :=
  if path.firstPacket then
    let (path, calls) := { path with controller := true }.checkPing now
    ({ path with firstPacket := false }, calls)
  else (path, [])

/-- The delay that `OnReceiveSegment` reports to the trace callback. -/
def delayCalls (env : Env) (seg : SimSegment) (path : PathReceiver) : List PathCall :=
  if path.delayCb then
    [.delay seg.packetId (env.now - (seg.timestamp + env.senderFirstTs.getD 0))]
  else []

/-- The part of `OnReceiveSegment` behind the duplicate tests. -/
def acceptSegment (env : Env) (seg : SimSegment) (path : PathReceiver) :
    PathReceiver × List PathCall :=
  let path := { path with tables := path.tables.record seg.packetId seg.index }
  let (path, ack) := path.videoRealAck env.now false seg.packetId
  (path, ack ++ (path.delayCalls env seg ++ [.deliverToCache path.pid seg]))

/-- `OnReceiveSegment`. -/
def onReceiveSegment (env : Env) (seg : SimSegment) (path : PathReceiver) :
    PathReceiver × List PathCall :=
  if path.stop then (path, [])
  else
    let (path, first) := path.onFirstPacket env.now
    if path.tables.dropped seg.packetId then (path, first)
    else
      let (path, calls) := path.acceptSegment env seg
      (path, first ++ calls)

/-- `Consume`. -/
def consume (packetId : UInt32) (path : PathReceiver) : PathReceiver :=
  { path with tables := path.tables.consume packetId }

/-- `Stop`. -/
def stopPath (path : PathReceiver) : PathReceiver := { path with stop := true }

/-! ## Datagrams -/

/-- The switch of `ProcessingMsg`. A padding message before the first segment
reads through the null controller, which is undefined. -/
def processBody (env : Env) (header : SimHeader) (path : PathReceiver) :
    SimBody → Option (PathReceiver × List PathCall)
  | .connect body => some ({ path with pid := header.ver }.sendConnectAck body.cid)
  | .seg body =>
      if path.pid ≠ header.ver then some (path, []) else some (path.onReceiveSegment env body)
  | .pad _ =>
      if path.pid ≠ header.ver then some (path, [])
      else if path.controller then some (path, []) else none
  | .ping body => some (path.sendMsg (.pong body))
  | .pong body =>
      let rtt := env.now - body.ts.toUInt64.toUInt32
      if rtt > 0 then (path.updateRtt rtt env.now).map (·, []) else some (path, [])
  | _ => some (path, [])

/-- The message ids for which `ProcessingMsg` decodes a body. -/
def handled : MsgId → Bool
  | .simConnect | .simSeg | .simPad | .simPing | .simPong => true
  | _ => false

/-- `ProcessingMsg` behind the header: the body is decoded and dispatched. -/
def processDecoded (env : Env) (header : SimHeader) (path : PathReceiver) :
    Option (PathReceiver × List PathCall) :=
  match MsgId.ofUInt8? header.mid with
  | none => some (path, [])
  | some mid =>
      if handled mid then
        let (body, strm) := simDecodeMsg path.strm header
        match body with
        | none => some ({ path with strm }, [])
        | some body => processBody env header { path with strm } body
      else some (path, [])

/-- `ProcessingMsg` on the stream of the path; `none` is undefined behaviour. -/
def processingMsg (env : Env) (path : PathReceiver) : Option (PathReceiver × List PathCall) :=
  if path.stop then some (path, [])
  else
    match simDecodeHeader path.strm with
    | none => none
    | some (none, strm) => some ({ path with strm }, [])
    | some (some header, strm) => processDecoded env header { path with strm }

/-- The stream with the bytes of a packet at its start, and `used` set to their number. -/
def withPacket (packet : List UInt8) (path : PathReceiver) : PathReceiver :=
  { path with strm := { binStreamRewind true path.strm with data := packet } }

/-- The first half of `RecvPacket`: the bytes are copied to the buffer, which is not resized
before. More bytes than are allocated overwrite other memory (`none`). -/
def copyPacket (packet : List UInt8) (path : PathReceiver) : Option PathReceiver :=
  if packet.length ≤ path.strm.size then some (path.withPacket packet) else none

/-- `RecvPacket`, with the payload type that the simulator header carries. -/
def recvPacket (env : Env) (razor : Bool) (packet : List UInt8) (path : PathReceiver) :
    Option (PathReceiver × List PathCall) :=
  if razor then (path.copyPacket packet).bind (processingMsg env) else some (path, [])

theorem copyPacket_eq_some_iff {packet : List UInt8} {path copied : PathReceiver} :
    path.copyPacket packet = some copied ↔
      packet.length ≤ path.strm.size ∧ copied = path.withPacket packet := by
  rw [copyPacket]
  split_ifs with fits
  · rw [Option.some.injEq, eq_comm, and_iff_right fits]
  · exact iff_of_false (fun copied => by cases copied) fun both => fits both.1

/-- A packet that fits is processed. -/
theorem recvPacket_eq {packet : List UInt8} {path : PathReceiver} (env : Env)
    (fits : packet.length ≤ path.strm.size) :
    path.recvPacket env true packet = (path.withPacket packet).processingMsg env := by
  rw [recvPacket, if_pos rfl, copyPacket_eq_some_iff.mpr ⟨fits, rfl⟩, Option.bind_some]

/-- A packet that was processed fitted. -/
theorem recvPacket_eq_some_iff {env : Env} {packet : List UInt8} {path : PathReceiver}
    {result : PathReceiver × List PathCall} :
    path.recvPacket env true packet = some result ↔
      packet.length ≤ path.strm.size ∧ (path.withPacket packet).processingMsg env = some result := by
  rw [recvPacket, if_pos rfl, Option.bind_eq_some_iff]
  simp only [copyPacket_eq_some_iff]
  constructor
  · rintro ⟨copied, ⟨fits, rfl⟩, processed⟩
    exact ⟨fits, processed⟩
  · rintro ⟨fits, processed⟩
    exact ⟨_, ⟨fits, rfl⟩, processed⟩

end PathReceiver

end MpVideo.Receiver
