import MpVideo.Lib.Machine
import MpVideo.Lib.MachineInt
import MpVideo.Lib.SortedMap
import MpVideo.V1.VideoProto

/-!
# The path sender of the second generation

`path_sender_v1.cc`: packets wait in two queues, each one that is sent gets the next
sequence number, and `seq_id_map_` and `seq_delay_map_` note its packet id and its time.
An acknowledgement of a sequence number beyond `recv_seq_` declares all numbers in
between lost; a loss is reported to the multipath sender, which can queue a packet again
while the report is being made.

The congestion controller and the pacer neither read nor change these members, and
`queue_offset_`, a number that only leaves through a getter, is not kept.
-/

set_option autoImplicit false

namespace MpVideo.V1

/-- `MAX_BUF_SIZE`. -/
def maxBufSize : UInt32 := 1400
/-- `smooth_delay_num`. -/
def smoothDelayNum : UInt32 := 85
/-- `smooth_delay_den`. -/
def smoothDelayDen : UInt32 := 100

/-- The members of `PathSenderV1`. -/
structure PathSenderV1 where
  pid : UInt8 := 0
  /-- Whether a multipath sender is registered. -/
  mpsender : Bool := false
  /-- Whether the loss callback is set. -/
  traceLossCb : Bool := false
  firstPacket : Bool := true
  sendingQueue : List VideoPacketWrapper := []
  resendingQueue : List VideoPacketWrapper := []
  idDelayMap : SortedMap UInt32 UInt32 := .empty
  seqIdMap : SortedMap UInt64 UInt32 := .empty
  seqDelayMap : SortedMap UInt64 Int32 := .empty
  seq : UInt64 := 1
  recvSeq : UInt64 := 0
  curRtt : UInt32 := 0
  aggregateDelay : UInt32 := 0
  pendingBytes : UInt32 := 0

namespace PathSenderV1

/-! ## Sending -/

/-- `OnVideoPacket`. -/
def onVideoPacket (now packetId : UInt32) (packet : VideoPacketWrapper) (isRetrans : Bool)
    (path : PathSenderV1) : PathSenderV1 :=
  let packet := packet.setEnqueueTime now
  { path with
    sendingQueue := if isRetrans then path.sendingQueue else path.sendingQueue ++ [packet]
    resendingQueue := if isRetrans then path.resendingQueue ++ [packet] else path.resendingQueue
    pendingBytes := path.pendingBytes + packet.payloadSize
    idDelayMap := path.idDelayMap.insert packetId now
    firstPacket := false }

/-- The next sequence number is taken, for a packet with this id. -/
def number (now packetId : UInt32) (path : PathSenderV1) : PathSenderV1 :=
  { path with
    seq := path.seq + 1
    seqDelayMap := path.seqDelayMap.insert path.seq now.toInt32
    seqIdMap := path.seqIdMap.insert path.seq packetId }

/-- `SendPaddingPacket`. The id zero stands for no packet id. -/
def sendPaddingPacket (now : UInt32) (path : PathSenderV1) : PathSenderV1 := path.number now 0

/-- `SendStreamPacket`, from one of the queues: the id of the packet that is sent. An
empty queue is undefined, and so is a packet that cannot be serialized (`none`). -/
def sendStreamPacket (quic : QuicData) (now : UInt32) (isRetrans : Bool) (path : PathSenderV1) :
    Option (PathSenderV1 × UInt32) :=
  match if isRetrans then path.resendingQueue else path.sendingQueue with
  | [] => none
  | packet :: rest =>
      match (packet.serialize quic maxBufSize now).1 with
      | none => none
      | some _ =>
          let path := { path with
            resendingQueue := if isRetrans then rest else path.resendingQueue
            sendingQueue := if isRetrans then path.sendingQueue else rest
            pendingBytes := path.pendingBytes - packet.payloadSize }
          some (path.number now packet.packetId, packet.packetId)

/-! ## Acknowledgements -/

/-- `UpdateAggregeteDelay`. -/
def updateAggregateDelay (delay : UInt32) (path : PathSenderV1) : PathSenderV1 :=
  { path with
    aggregateDelay :=
      if path.aggregateDelay = 0 then delay
      else ((smoothDelayDen - smoothDelayNum) * path.aggregateDelay + smoothDelayNum * delay) /
        smoothDelayDen }

/-- The part of `UpdateRtt` that looks the packet id up. -/
def updateIdDelay (now : UInt32) (seq : UInt64) (path : PathSenderV1) : PathSenderV1 :=
  match path.seqIdMap.find? seq with
  | none => path
  | some packetId =>
      match path.idDelayMap.find? packetId with
      | none => path
      | some since =>
          let path := path.updateAggregateDelay (now - since)
          { path with idDelayMap := path.idDelayMap.popLe packetId }

/-- `UpdateRtt`. -/
def updateRtt (now : UInt32) (seq : UInt64) (path : PathSenderV1) : PathSenderV1 :=
  let path := { path with
    curRtt := ((path.seqDelayMap.find? seq).map fun (ms : Int32) =>
      now - ms.toUInt32).getD path.curRtt }
  let path := path.updateIdDelay now seq
  { path with seqDelayMap := path.seqDelayMap.popLe seq }

/-- What `DetectLoss` does with a sequence number. -/
inductive Resolution where
  /-- `recv_seq_` becomes this number. -/
  | advanced (seq : UInt64)
  /-- The number is declared lost. With a loss callback it gets the number and a round
  trip time; with a packet id, `OnPacketLost` gets the path and the id. -/
  | lost (seq : UInt64) (trace : Option (UInt32 × UInt32)) (call : Option (UInt8 × UInt32))

/-- The number that is resolved. -/
def Resolution.seq : Resolution → UInt64
  | .advanced seq => seq
  | .lost seq _ _ => seq

/-- The packets that are queued on this path again while a loss is reported, with the
ids that `OnVideoPacket` gets. -/
abbrev Retrans := List (UInt32 × VideoPacketWrapper)

/-- The packets enter the queue of retransmissions. -/
def requeue (now : UInt32) (retrans : Retrans) (path : PathSenderV1) : PathSenderV1 :=
  retrans.foldl (fun path (packetId, packet) => path.onVideoPacket now packetId packet true) path

/-- The packet id of a sequence number, unless there is none. -/
def packetIdOf (seq : UInt64) (path : PathSenderV1) : Option UInt32 :=
  (path.seqIdMap.find? seq).filter (· ≠ 0)

/-- One round of the loop of `DetectLoss`. -/
def declareLost (now rtt : UInt32) (retrans : Retrans) (i : UInt64) (path : PathSenderV1) :
    PathSenderV1 × Resolution :=
  let trace := if path.traceLossCb then some (i.toUInt32, rtt) else none
  let call := if path.mpsender then (path.packetIdOf i).map (path.pid, ·) else none
  (if call.isSome then path.requeue now retrans else path, .lost i trace call)

/-- The loop of `DetectLoss`, a number of rounds from `i` on. -/
def lossLoop (now rtt : UInt32) (retrans : UInt64 → Retrans) :
    Nat → UInt64 → PathSenderV1 → PathSenderV1 × List Resolution
  | 0, _, path => (path, [])
  | n + 1, i, path =>
      let (path, lost) := path.declareLost now rtt (retrans i) i
      let (path, more) := lossLoop now rtt retrans n (i + 1) path
      (path, lost :: more)

/-- `DetectLoss`. -/
def detectLoss (now : UInt32) (retrans : UInt64 → Retrans) (seq : UInt64) (path : PathSenderV1) :
    PathSenderV1 × List Resolution :=
  let (path, resolved) :=
    if path.recvSeq + 1 ≤ seq then
      let i := path.recvSeq + 1
      let (path, lost) := path.lossLoop now path.curRtt retrans (seq - i).toNat i
      ({ path with recvSeq := seq }, lost ++ [.advanced seq])
    else (path, [])
  ({ path with seqIdMap := path.seqIdMap.popLe seq }, resolved)

/-- `OnAck`. -/
def onAck (now : UInt32) (retrans : UInt64 → Retrans) (seq : UInt64) (path : PathSenderV1) :
    PathSenderV1 × List Resolution :=
  (path.updateRtt now seq).detectLoss now retrans seq

end PathSenderV1

/-! ## Runs -/

/-- What happens to a path from outside. -/
inductive PathEventV1 where
  | onVideoPacket (now packetId : UInt32) (packet : VideoPacketWrapper) (isRetrans : Bool)
  | sendPaddingPacket (now : UInt32)
  | sendStreamPacket (now : UInt32) (isRetrans : Bool)
  /-- An acknowledgement, and what is queued again for each loss that it reveals. -/
  | onAck (now : UInt32) (seq : UInt64) (retrans : UInt64 → PathSenderV1.Retrans)

/-- A path and the sequence numbers that were sent, with the packet ids they carry; a
padding packet carries none. -/
structure NumberedPath where
  path : PathSenderV1 := {}
  sent : List (UInt64 × Option UInt32) := []

namespace NumberedPath

/-- What happens on an event. Only numbers that were sent are acknowledged. -/
def handle (quic : QuicData) (numbered : NumberedPath) :
    PathEventV1 → Option (NumberedPath × List PathSenderV1.Resolution)
  | .onVideoPacket now packetId packet isRetrans =>
      some ({ numbered with
        path := numbered.path.onVideoPacket now packetId packet isRetrans }, [])
  | .sendPaddingPacket now =>
      some (⟨numbered.path.sendPaddingPacket now, (numbered.path.seq, none) :: numbered.sent⟩, [])
  | .sendStreamPacket now isRetrans =>
      (numbered.path.sendStreamPacket quic now isRetrans).map fun (path, packetId) =>
        (⟨path, (numbered.path.seq, some packetId) :: numbered.sent⟩, [])
  | .onAck now seq retrans =>
      if seq ∈ numbered.sent.map Prod.fst then
        let (path, resolved) := numbered.path.onAck now retrans seq
        some ({ numbered with path := path }, resolved)
      else none

/-- The path as a machine. -/
def machine (quic : QuicData) : Machine NumberedPath PathEventV1 PathSenderV1.Resolution :=
  ⟨handle quic⟩

end NumberedPath

end MpVideo.V1
