import MpVideo.Wire.Stream
import MpVideo.Wire.Crc32

/-!
# Messages of the simulated transport

`sim_proto.h`, `sim_proto.inl` and `sim_proto.c`: the message bodies, one encoder
and one decoder per kind of body, and the two dispatchers. A message is a header
of six bytes, the body, and the checksum of both.

A byte array with a size field is a `Payload`: the bytes up to the size, together
with the proof that they fit the array.
-/

set_option autoImplicit false

namespace MpVideo.Wire

/-! ## Bodies -/

/-- A byte array of capacity `cap` of which the first bytes are in use. -/
structure Payload (cap : Nat) where
  bytes : List UInt8
  bounded : bytes.length ≤ cap
  deriving DecidableEq

namespace Payload

variable {cap : Nat}

/-- No byte in use. -/
def empty : Payload cap := ⟨[], Nat.zero_le _⟩

/-- As many of the bytes as fit. -/
def clip (cap : Nat) (bytes : List UInt8) : Payload cap :=
  ⟨bytes.take cap, List.length_take_le _ _⟩

@[simp] theorem clip_bytes (payload : Payload cap) : clip cap payload.bytes = payload := by
  obtain ⟨bytes, bounded⟩ := payload
  simp only [clip, List.take_of_length_le bounded]

/-- The size field of the array. -/
def size (payload : Payload cap) : Nat := payload.bytes.length

/-- A full array of zeros. -/
def zeros (cap : Nat) : Payload cap := ⟨List.replicate cap 0, Nat.le_of_eq List.length_replicate⟩

@[simp] theorem size_zeros (cap : Nat) : (zeros cap).size = cap := List.length_replicate

end Payload

/-- `sim_header_t`. -/
structure SimHeader where
  ver : UInt8
  mid : UInt8
  uid : UInt32
  deriving DecidableEq

/-- `SIM_HEADER_SIZE`. -/
def simHeaderSize : Nat := 6
/-- `SIM_VIDEO_SIZE`. -/
def simVideoSize : Nat := 1000
/-- `SIM_TOKEN_SIZE`. -/
def simTokenSize : Nat := 128
/-- `NACK_NUM`. -/
def nackNum : Nat := 80
/-- `SIM_FEEDBACK_SIZE`. -/
def simFeedbackSize : Nat := 1000
/-- `SIM_SEGMENT_HEADER_SIZE`. -/
def simSegmentHeaderSize : Nat := simHeaderSize + 24
/-- `PADDING_DATA_SIZE`. -/
def paddingDataSize : Nat := 500

/-- `sim_connect_t`. -/
structure SimConnect where
  cid : UInt32
  token : Payload simTokenSize
  ccType : UInt8
  deriving DecidableEq

/-- `sim_connect_ack_t`, also `sim_disconnect_ack_t`. -/
structure SimConnectAck where
  cid : UInt32
  result : UInt32
  deriving DecidableEq

/-- `sim_disconnect_t`. -/
structure SimDisconnect where
  cid : UInt32
  deriving DecidableEq

/-- `sim_segment_t`: one piece of a video frame. -/
structure SimSegment where
  packetId : UInt32
  fid : UInt32
  timestamp : UInt32
  index : UInt16
  total : UInt16
  ftype : UInt8
  payloadType : UInt8
  remb : UInt8
  sendTs : UInt16
  transportSeq : UInt16
  data : Payload simVideoSize
  deriving DecidableEq

/-- `sim_segment_ack_t`. -/
structure SimSegmentAck where
  basePacketId : UInt32
  ackedPacketId : UInt32
  nack : List UInt16
  /-- `nack_num` counts entries of an array of `NACK_NUM`. -/
  nackBounded : nack.length ≤ nackNum
  deriving DecidableEq

/-- `sim_ping_t`, also `sim_pong_t`. -/
structure SimPing where
  ts : Int64
  deriving DecidableEq

/-- `sim_feedback_t`. -/
structure SimFeedback where
  basePacketId : UInt32
  feedback : Payload simFeedbackSize
  deriving DecidableEq

/-- `sim_fir_t`. -/
structure SimFir where
  firSeq : UInt32
  deriving DecidableEq

/-- `sim_pad_t`. -/
structure SimPad where
  sendTs : UInt32
  transportSeq : UInt16
  data : Payload paddingDataSize
  deriving DecidableEq

/-- The message ids between `MIN_MSG_ID` and `MAX_MSG_ID`. -/
inductive MsgId where
  | simConnect | simConnectAck | simDisconnect | simDisconnectAck | simPing | simPong
  | simSeg | simSegAck | simFeedback | simFir | simPad
  deriving DecidableEq

/-- The number of a message id. -/
def MsgId.toUInt8 : MsgId → UInt8
  | .simConnect => 0x11
  | .simConnectAck => 0x12
  | .simDisconnect => 0x13
  | .simDisconnectAck => 0x14
  | .simPing => 0x15
  | .simPong => 0x16
  | .simSeg => 0x17
  | .simSegAck => 0x18
  | .simFeedback => 0x19
  | .simFir => 0x1a
  | .simPad => 0x1b

/-- The message id with a given number. -/
def MsgId.ofUInt8? : UInt8 → Option MsgId
  | 0x11 => some .simConnect
  | 0x12 => some .simConnectAck
  | 0x13 => some .simDisconnect
  | 0x14 => some .simDisconnectAck
  | 0x15 => some .simPing
  | 0x16 => some .simPong
  | 0x17 => some .simSeg
  | 0x18 => some .simSegAck
  | 0x19 => some .simFeedback
  | 0x1a => some .simFir
  | 0x1b => some .simPad
  | _ => none

@[simp] theorem MsgId.ofUInt8?_toUInt8 (id : MsgId) : MsgId.ofUInt8? id.toUInt8 = some id := by
  cases id <;> rfl

/-- A body together with the message id that selects its type. -/
inductive SimBody where
  | connect (body : SimConnect)
  | connectAck (body : SimConnectAck)
  | disconnect (body : SimDisconnect)
  | disconnectAck (body : SimConnectAck)
  | ping (body : SimPing)
  | pong (body : SimPing)
  | seg (body : SimSegment)
  | segAck (body : SimSegmentAck)
  | feedback (body : SimFeedback)
  | fir (body : SimFir)
  | pad (body : SimPad)
  deriving DecidableEq

/-- The message id of a body. -/
def SimBody.mid : SimBody → MsgId
  | .connect _ => .simConnect
  | .connectAck _ => .simConnectAck
  | .disconnect _ => .simDisconnect
  | .disconnectAck _ => .simDisconnectAck
  | .ping _ => .simPing
  | .pong _ => .simPong
  | .seg _ => .simSeg
  | .segAck _ => .simSegAck
  | .feedback _ => .simFeedback
  | .fir _ => .simFir
  | .pad _ => .simPad

/-! ## Encoders -/

/-- `sim_encode_header`. -/
def simEncodeHeader (header : SimHeader) : StreamM Unit := do
  machUint8Write header.ver
  machUint8Write header.mid
  machUint32Write header.uid

/-- `sim_connect_encode`. -/
def simConnectEncode (body : SimConnect) : StreamM Unit := do
  machUint32Write body.cid
  machDataWrite body.token.bytes
  machInt8Write body.ccType.toInt8

/-- `sim_connect_ack_encode`. -/
def simConnectAckEncode (body : SimConnectAck) : StreamM Unit := do
  machUint32Write body.cid
  machUint32Write body.result

/-- `sim_disconnect_encode`. -/
def simDisconnectEncode (body : SimDisconnect) : StreamM Unit :=
  machUint32Write body.cid

/-- `sim_ping_encode`. -/
def simPingEncode (body : SimPing) : StreamM Unit :=
  machInt64Write body.ts

/-- `sim_feedbak_encode`. -/
def simFeedbakEncode (body : SimFeedback) : StreamM Unit := do
  machUint32Write body.basePacketId
  machDataWrite body.feedback.bytes

/-- The mask byte of a segment: the low bit of the frame type, and one bit for each
choice of width. -/
def segmentMask (body : SimSegment) : UInt8 :=
  let mask := body.ftype &&& 0x01
  let mask := if body.packetId > 65535 then mask ||| ((1 : UInt8) <<< 7) else mask
  let mask := if body.fid > 65535 then mask ||| ((1 : UInt8) <<< 6) else mask
  let mask := if body.total > 255 then mask ||| ((1 : UInt8) <<< 5) else mask
  if body.remb = 0 then mask ||| ((1 : UInt8) <<< 4) else mask

/-- A packet or frame number, in two bytes when it fits. -/
def writeShortId (id : UInt32) : StreamM Unit :=
  if id > 65535 then machUint32Write id else machUint16Write id.toUInt16

/-- Index and total, in one byte each when the total fits. -/
def writePosition (index total : UInt16) : StreamM Unit :=
  if total > 255 then do
    machUint16Write index
    machUint16Write total
  else do
    machUint8Write index.toUInt8
    machUint8Write total.toUInt8

/-- `sim_segment_encode`. -/
def simSegmentEncode (body : SimSegment) : StreamM Unit := do
  machUint8Write (segmentMask body)
  machUint8Write body.payloadType
  writeShortId body.packetId
  writeShortId body.fid
  machUint32Write body.timestamp
  writePosition body.index body.total
  machUint16Write body.sendTs
  machUint16Write body.transportSeq
  machDataWrite body.data.bytes

/-- The loop of `sim_segment_ack_encode` over the missing ids. -/
def writeNacks : List UInt16 → StreamM Unit
  | [] => pure ()
  | nack :: rest => do
      machUint16Write nack
      writeNacks rest

/-- `sim_segment_ack_encode`. -/
def simSegmentAckEncode (body : SimSegmentAck) : StreamM Unit := do
  machUint32Write body.basePacketId
  machUint32Write body.ackedPacketId
  machUint8Write (UInt8.ofNat body.nack.length)
  writeNacks body.nack

/-- `sim_fir_encode`. -/
def simFirEncode (body : SimFir) : StreamM Unit :=
  machUint32Write body.firSeq

/-- `sim_pad_encode`. -/
def simPadEncode (body : SimPad) : StreamM Unit := do
  machUint32Write body.sendTs
  machUint16Write body.transportSeq
  machDataWrite body.data.bytes

/-- The switch of `sim_encode_msg`. -/
def encodeBody : SimBody → StreamM Unit
  | .connect body => simConnectEncode body
  | .connectAck body | .disconnectAck body => simConnectAckEncode body
  | .disconnect body => simDisconnectEncode body
  | .ping body | .pong body => simPingEncode body
  | .seg body => simSegmentEncode body
  | .segAck body => simSegmentAckEncode body
  | .feedback body => simFeedbakEncode body
  | .fir body => simFirEncode body
  | .pad body => simPadEncode body

/-- `CRC_VAL`. -/
def crcVal : UInt32 := 0x0e3dfc0a

/-- `sim_encode_msg`. The source switches on `header.mid` and reads the body at the
type this selects; a caller passes a body of that type, so the switch is on the body. -/
def simEncodeMsg (strm : BinStream) (header : SimHeader) (body : SimBody) : BinStream :=
  let strm := binStreamRewind true strm
  let strm := ((simEncodeHeader header).run strm).2
  let strm := ((encodeBody body).run strm).2
  let crc := crc32 crcVal strm.data
  ((machUint32Write crc).run strm).2

/-! ## Decoders -/

/-- `mach_data_read` into an array of a message, with `READ_DATA_ERROR` turned
into size zero. -/
def readPayload (cap : Nat) : StreamM (Payload cap) := do
  let (size, bytes) ← machDataRead cap
  return if size = readDataError then .empty else .clip cap bytes

/-- `sim_connect_decode`. -/
def simConnectDecode : StreamM SimConnect := do
  let cid ← machUint32Read
  let token ← readPayload simTokenSize
  let ccType ← machInt8Read
  return { cid, token, ccType := ccType.toUInt8 }

/-- `sim_connect_ack_decode`. -/
def simConnectAckDecode : StreamM SimConnectAck := do
  let cid ← machUint32Read
  let result ← machUint32Read
  return { cid, result }

/-- `sim_disconnect_decode`. -/
def simDisconnectDecode : StreamM SimDisconnect := do
  let cid ← machUint32Read
  return { cid }

/-- `sim_ping_decode`. -/
def simPingDecode : StreamM SimPing := do
  let ts ← machInt64Read
  return { ts }

/-- `sim_feedbak_decode`. -/
def simFeedbakDecode : StreamM SimFeedback := do
  let basePacketId ← machUint32Read
  let feedback ← readPayload simFeedbackSize
  return { basePacketId, feedback }

/-- A packet or frame number, in four bytes when its mask bit is set. -/
def readShortId (wide : Bool) : StreamM UInt32 :=
  if wide then machUint32Read else UInt16.toUInt32 <$> machUint16Read

/-- Index and total, in two bytes each when their mask bit is set. -/
def readPosition (wide : Bool) : StreamM (UInt16 × UInt16) :=
  if wide then do
    let index ← machUint16Read
    let total ← machUint16Read
    return (index, total)
  else do
    let index ← machUint8Read
    let total ← machUint8Read
    return (index.toUInt16, total.toUInt16)

/-- `sim_segment_decode`. -/
def simSegmentDecode : StreamM SimSegment := do
  let mask ← machUint8Read
  let payloadType ← machUint8Read
  let packetId ← readShortId (mask &&& ((1 : UInt8) <<< 7) ≠ 0)
  let fid ← readShortId (mask &&& ((1 : UInt8) <<< 6) ≠ 0)
  let timestamp ← machUint32Read
  let (index, total) ← readPosition (mask &&& ((1 : UInt8) <<< 5) ≠ 0)
  let sendTs ← machUint16Read
  let transportSeq ← machUint16Read
  let data ← readPayload simVideoSize
  return {
    packetId, fid, timestamp, index, total, payloadType, sendTs, transportSeq, data
    ftype := mask &&& 0x01
    remb := if mask &&& ((1 : UInt8) <<< 4) ≠ 0 then 0 else 0xff }

/-- `sim_segment_ack_decode`. -/
def simSegmentAckDecode : StreamM SimSegmentAck := do
  let basePacketId ← machUint32Read
  let ackedPacketId ← machUint32Read
  let num ← machUint8Read
  let nack ← Tape.times machUint16Read (min num.toNat nackNum)
  return {
    basePacketId, ackedPacketId
    nack := nack.take nackNum
    nackBounded := List.length_take_le _ _ }

/-- `sim_fir_decode`. -/
def simFirDecode : StreamM SimFir := do
  let firSeq ← machUint32Read
  return { firSeq }

/-- `sim_pad_decode`. -/
def simPadDecode : StreamM SimPad := do
  let sendTs ← machUint32Read
  let transportSeq ← machUint16Read
  let data ← readPayload paddingDataSize
  return { sendTs, transportSeq, data }

/-- The switch of `sim_decode_msg`. -/
def decodeBody : MsgId → StreamM SimBody
  | .simConnect => .connect <$> simConnectDecode
  | .simConnectAck => .connectAck <$> simConnectAckDecode
  | .simDisconnect => .disconnect <$> simDisconnectDecode
  | .simDisconnectAck => .disconnectAck <$> simConnectAckDecode
  | .simPing => .ping <$> simPingDecode
  | .simPong => .pong <$> simPingDecode
  | .simSeg => .seg <$> simSegmentDecode
  | .simSegAck => .segAck <$> simSegmentAckDecode
  | .simFeedback => .feedback <$> simFeedbakDecode
  | .simFir => .fir <$> simFirDecode
  | .simPad => .pad <$> simPadDecode

/-- `sim_decode_msg`. The result `none` is the return value `-1`, a body is the
return value `0`. -/
def simDecodeMsg (strm : BinStream) (header : SimHeader) : Option SimBody × BinStream :=
  match MsgId.ofUInt8? header.mid with
  | some mid => ((decodeBody mid).run strm).map some id
  | none => (none, strm)

/-- The three reads of `sim_decode_header`. -/
def readHeader : StreamM SimHeader := do
  let ver ← machUint8Read
  let mid ← machUint8Read
  let uid ← machUint32Read
  return { ver, mid, uid }

/-- `sim_decode_header`. With fewer than four bytes in use the checksum is read
from before the buffer, which is undefined: the outer `none`. The inner `none` is
the return value `-1`, a header is the return value `0`. -/
def simDecodeHeader (strm : BinStream) : Option (Option SimHeader × BinStream) :=
  if strm.used < 4 then none
  else
    let src := machGet4 (strm.data.drop (strm.used - 4))
    let crc := crc32 crcVal (strm.data.take (strm.used - 4))
    if src = crc then some ((readHeader.run strm).map some id) else some (none, strm)

/-! ## Decoders only move the read position -/

theorem readsOnly_payload (cap : Nat) : ReadsOnly (readPayload cap) :=
  (readsOnly_data cap).bind fun _ => .pure _

theorem readsOnly_shortId (wide : Bool) : ReadsOnly (readShortId wide) := by
  cases wide with
  | true => exact readsOnly_machRead 4 _ _
  | false => exact (readsOnly_machRead 2 _ _).map _

theorem readsOnly_position (wide : Bool) : ReadsOnly (readPosition wide) := by
  cases wide with
  | true =>
      exact (readsOnly_machRead 2 _ _).bind fun _ =>
        (readsOnly_machRead 2 _ _).bind fun _ => .pure _
  | false =>
      exact (readsOnly_machRead 1 _ _).bind fun _ =>
        (readsOnly_machRead 1 _ _).bind fun _ => .pure _

theorem readsOnly_header : ReadsOnly readHeader :=
  (readsOnly_machRead 1 _ _).bind fun _ => (readsOnly_machRead 1 _ _).bind fun _ =>
    (readsOnly_machRead 4 _ _).bind fun _ => .pure _

theorem readsOnly_connectAck : ReadsOnly simConnectAckDecode :=
  (readsOnly_machRead 4 _ _).bind fun _ => (readsOnly_machRead 4 _ _).bind fun _ => .pure _

theorem readsOnly_ping : ReadsOnly simPingDecode :=
  (readsOnly_machRead 8 _ _).bind fun _ => .pure _

theorem readsOnly_segment : ReadsOnly simSegmentDecode :=
  (readsOnly_machRead 1 _ _).bind fun _ => (readsOnly_machRead 1 _ _).bind fun _ =>
    (readsOnly_shortId _).bind fun _ => (readsOnly_shortId _).bind fun _ =>
      (readsOnly_machRead 4 _ _).bind fun _ => (readsOnly_position _).bind fun _ =>
        (readsOnly_machRead 2 _ _).bind fun _ => (readsOnly_machRead 2 _ _).bind fun _ =>
          (readsOnly_payload _).bind fun _ => .pure _

theorem readsOnly_segmentAck : ReadsOnly simSegmentAckDecode :=
  (readsOnly_machRead 4 _ _).bind fun _ => (readsOnly_machRead 4 _ _).bind fun _ =>
    (readsOnly_machRead 1 _ _).bind fun _ =>
      (ReadsOnly.times (readsOnly_machRead 2 _ _) _).bind fun _ => .pure _

/-- **Decoding a body of any kind changes neither the bytes nor the allocation**, and
stops within the bytes in use. -/
theorem readsOnly_body (mid : MsgId) : ReadsOnly (decodeBody mid) := by
  cases mid with
  | simConnect =>
      exact ((readsOnly_machRead 4 _ _).bind fun _ => (readsOnly_payload _).bind fun _ =>
        (readsOnly_machRead 1 _ _).bind fun _ => .pure _).map _
  | simConnectAck => exact readsOnly_connectAck.map _
  | simDisconnect => exact ((readsOnly_machRead 4 _ _).bind fun _ => .pure _).map _
  | simDisconnectAck => exact readsOnly_connectAck.map _
  | simPing => exact readsOnly_ping.map _
  | simPong => exact readsOnly_ping.map _
  | simSeg => exact readsOnly_segment.map _
  | simSegAck => exact readsOnly_segmentAck.map _
  | simFeedback =>
      exact ((readsOnly_machRead 4 _ _).bind fun _ => (readsOnly_payload _).bind fun _ =>
        .pure _).map _
  | simFir => exact ((readsOnly_machRead 4 _ _).bind fun _ => .pure _).map _
  | simPad =>
      exact ((readsOnly_machRead 4 _ _).bind fun _ => (readsOnly_machRead 2 _ _).bind fun _ =>
        (readsOnly_payload _).bind fun _ => .pure _).map _

end MpVideo.Wire
