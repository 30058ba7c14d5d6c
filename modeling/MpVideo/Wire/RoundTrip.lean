import MpVideo.Wire.Proto
import Mathlib.Tactic.Ring

/-!
# Encoding and decoding agree

Each encoder appends a fixed list of bytes (`Writes`), and the decoder of the
same message reads exactly this list (`Tape.Reads`). The two facts are proved
field by field and composed. A segment chooses its layout by four mask bits; the
mask is a function of the values, and reading it back selects the same widths.

The bytes of a whole message are the header, the body and the checksum of both
(`messageBytes`). Encoding leaves exactly these bytes in the stream, whatever the
stream held before, and decoding them returns the header and the body
(`simDecode_encode`).
-/

set_option autoImplicit false

namespace MpVideo.Wire

open BinStream Tape

/-! ## The bytes of a message -/

/-- The bytes of a header. -/
def headerBytes (header : SimHeader) : List UInt8 :=
  [header.ver] ++ ([header.mid] ++ machPut4 header.uid)

/-- The bytes of a packet or frame number. -/
def shortIdBytes (id : UInt32) : List UInt8 :=
  if id > 65535 then machPut4 id else machPut2 id.toUInt16

/-- The bytes of index and total. -/
def positionBytes (index total : UInt16) : List UInt8 :=
  if total > 255 then machPut2 index ++ machPut2 total else [index.toUInt8] ++ [total.toUInt8]

/-- The bytes of a segment. -/
def segmentBytes (body : SimSegment) : List UInt8 :=
  [segmentMask body] ++ ([body.payloadType] ++ (shortIdBytes body.packetId ++
    (shortIdBytes body.fid ++ (machPut4 body.timestamp ++ (positionBytes body.index body.total ++
      (machPut2 body.sendTs ++ (machPut2 body.transportSeq ++ dataBytes body.data.bytes)))))))

/-- The bytes of a body. -/
def bodyBytes : SimBody → List UInt8
  | .connect body => machPut4 body.cid ++ (dataBytes body.token.bytes ++ [body.ccType])
  | .connectAck body | .disconnectAck body => machPut4 body.cid ++ machPut4 body.result
  | .disconnect body => machPut4 body.cid
  | .ping body | .pong body => machPut8 body.ts.toUInt64
  | .seg body => segmentBytes body
  | .segAck body =>
      machPut4 body.basePacketId ++ (machPut4 body.ackedPacketId ++
        ([UInt8.ofNat body.nack.length] ++ body.nack.flatMap machPut2))
  | .feedback body => machPut4 body.basePacketId ++ dataBytes body.feedback.bytes
  | .fir body => machPut4 body.firSeq
  | .pad body => machPut4 body.sendTs ++ (machPut2 body.transportSeq ++ dataBytes body.data.bytes)

/-- The bytes the checksum covers. -/
def contentBytes (header : SimHeader) (body : SimBody) : List UInt8 :=
  headerBytes header ++ bodyBytes body

/-- The checksum of a message. -/
def messageCrc (header : SimHeader) (body : SimBody) : UInt32 :=
  crc32 crcVal (contentBytes header body)

/-- The bytes of a message. -/
def messageBytes (header : SimHeader) (body : SimBody) : List UInt8 :=
  contentBytes header body ++ machPut4 (messageCrc header body)

/-! ## Encoders write these bytes -/

theorem Writes.ite {c : Prop} [Decidable c] {first second : StreamM Unit}
    {bytes more : List UInt8} (one : Writes first bytes) (two : Writes second more) :
    Writes (if c then first else second) (if c then bytes else more) := by
  split_ifs
  · exact one
  · exact two

theorem writes_header (header : SimHeader) :
    Writes (simEncodeHeader header) (headerBytes header) :=
  (writes_machWrite _).bind ((writes_machWrite _).bind (writes_machWrite _))

theorem writes_shortId (id : UInt32) : Writes (writeShortId id) (shortIdBytes id) :=
  .ite (writes_machWrite _) (writes_machWrite _)

theorem writes_position (index total : UInt16) :
    Writes (writePosition index total) (positionBytes index total) :=
  .ite ((writes_machWrite _).bind (writes_machWrite _))
    ((writes_machWrite _).bind (writes_machWrite _))

theorem writes_segment (body : SimSegment) : Writes (simSegmentEncode body) (segmentBytes body) :=
  (writes_machWrite _).bind <| (writes_machWrite _).bind <| (writes_shortId _).bind <|
    (writes_shortId _).bind <| (writes_machWrite _).bind <| (writes_position _ _).bind <|
      (writes_machWrite _).bind <| (writes_machWrite _).bind <| writes_data _

theorem writes_nacks (nack : List UInt16) : Writes (writeNacks nack) (nack.flatMap machPut2) := by
  induction nack with
  | nil => exact .pure
  | cons id rest ih => exact (writes_machWrite _).bind ih

theorem writes_body (body : SimBody) : Writes (encodeBody body) (bodyBytes body) := by
  cases body with
  | connect body =>
      have ccType : Writes (machInt8Write body.ccType.toInt8) [body.ccType] := by
        have written := writes_machWrite [body.ccType.toInt8.toUInt8]
        rwa [UInt8.toUInt8_toInt8] at written
      exact (writes_machWrite _).bind ((writes_data _).bind ccType)
  | connectAck body => exact (writes_machWrite _).bind (writes_machWrite _)
  | disconnectAck body => exact (writes_machWrite _).bind (writes_machWrite _)
  | disconnect body => exact writes_machWrite _
  | ping body => exact writes_machWrite _
  | pong body => exact writes_machWrite _
  | seg body => exact writes_segment body
  | segAck body =>
      exact (writes_machWrite _).bind ((writes_machWrite _).bind
        ((writes_machWrite _).bind (writes_nacks _)))
  | feedback body => exact (writes_machWrite _).bind (writes_data _)
  | fir body => exact writes_machWrite _
  | pad body => exact (writes_machWrite _).bind ((writes_machWrite _).bind (writes_data _))

theorem writes_content (header : SimHeader) (body : SimBody) :
    Writes (simEncodeHeader header >>= fun _ => encodeBody body) (contentBytes header body) :=
  (writes_header header).bind (writes_body body)

/-- The stream of `simEncodeMsg` before the checksum is written. -/
theorem simEncodeMsg_eq (strm : BinStream) (header : SimHeader) (body : SimBody) :
    simEncodeMsg strm header body =
      (((simEncodeHeader header >>= fun _ => encodeBody body) >>= fun _ =>
        machUint32Write (messageCrc header body)).run (binStreamRewind true strm)).2 := by
  have content := (writes_content header body).data (binStreamRewind true strm)
  rw [StateT.run_bind] at content
  rw [StateT.run_bind, StateT.run_bind]
  unfold simEncodeMsg messageCrc
  apply congrArg (fun crc => ((machUint32Write crc).run _).2)
  exact congrArg (crc32 crcVal) content

theorem writes_message (header : SimHeader) (body : SimBody) :
    Writes ((simEncodeHeader header >>= fun _ => encodeBody body) >>= fun _ =>
      machUint32Write (messageCrc header body)) (messageBytes header body) :=
  (writes_content header body).bind (writes_machWrite _)

/-- **Encoding leaves exactly the bytes of the message in the stream.** -/
theorem simEncodeMsg_data (strm : BinStream) (header : SimHeader) (body : SimBody) :
    (simEncodeMsg strm header body).data = messageBytes header body := by
  rw [simEncodeMsg_eq, (writes_message header body).data]
  rfl

theorem simEncodeMsg_rsize (strm : BinStream) (header : SimHeader) (body : SimBody) :
    (simEncodeMsg strm header body).rsize = 0 := by
  rw [simEncodeMsg_eq, (writes_message header body).rsize]
  rfl

theorem simEncodeMsg_used_le (strm : BinStream) (header : SimHeader) (body : SimBody) :
    (simEncodeMsg strm header body).used ≤ (simEncodeMsg strm header body).size := by
  rw [simEncodeMsg_eq]
  exact (writes_message header body).used_le _ (Nat.zero_le _)

/-- A message that fits the allocation does not change it. -/
theorem simEncodeMsg_size {strm : BinStream} {header : SimHeader} {body : SimBody}
    (fits : (messageBytes header body).length ≤ strm.size) :
    (simEncodeMsg strm header body).size = strm.size := by
  rw [simEncodeMsg_eq]
  apply (writes_message header body).size_eq (binStreamRewind true strm)
  change 0 + _ ≤ strm.size
  omega

/-! ## Lengths -/

theorem length_shortIdBytes (id : UInt32) :
    (shortIdBytes id).length = 2 + if id > 65535 then 2 else 0 := by
  rw [shortIdBytes]; split_ifs <;> rfl

theorem length_positionBytes (index total : UInt16) :
    (positionBytes index total).length = 2 + if total > 255 then 2 else 0 := by
  rw [positionBytes]; split_ifs <;> rfl

theorem length_segmentBytes (body : SimSegment) :
    (segmentBytes body).length = 18 + body.data.size +
      ((if body.packetId > 65535 then 2 else 0) + (if body.fid > 65535 then 2 else 0) +
        if body.total > 255 then 2 else 0) := by
  simp only [segmentBytes, List.length_append, List.length_singleton, length_shortIdBytes,
    length_positionBytes, length_machPut2, length_machPut4, length_dataBytes, Payload.size]
  ring

theorem length_nackBytes (nack : List UInt16) :
    (nack.flatMap machPut2).length = 2 * nack.length := by
  induction nack with
  | nil => rfl
  | cons id rest ih =>
      simp only [List.flatMap_cons, List.length_append, length_machPut2, List.length_cons, ih]
      omega

/-- Every body but a segment fits the default packet with header and checksum. -/
theorem length_bodyBytes_le {body : SimBody} (other : ∀ seg, body ≠ .seg seg) :
    (bodyBytes body).length + 10 ≤ defaultPacketSize := by
  unfold defaultPacketSize
  cases body with
  | connect body =>
      have bounded : body.token.bytes.length ≤ 128 := body.token.bounded
      simp only [bodyBytes, List.length_append, length_machPut4, length_dataBytes,
        List.length_singleton]
      omega
  | connectAck body => simp [bodyBytes]
  | disconnectAck body => simp [bodyBytes]
  | disconnect body => simp [bodyBytes]
  | ping body => simp [bodyBytes]
  | pong body => simp [bodyBytes]
  | seg body => exact absurd rfl (other body)
  | segAck body =>
      have bounded : body.nack.length ≤ 80 := body.nackBounded
      simp only [bodyBytes, List.length_append, length_machPut4, List.length_singleton,
        length_nackBytes]
      omega
  | feedback body =>
      have bounded : body.feedback.bytes.length ≤ 1000 := body.feedback.bounded
      simp only [bodyBytes, List.length_append, length_machPut4, length_dataBytes]
      omega
  | fir body => simp [bodyBytes]
  | pad body =>
      have bounded : body.data.bytes.length ≤ 500 := body.data.bounded
      simp only [bodyBytes, List.length_append, length_machPut4, length_machPut2, length_dataBytes]
      omega

theorem length_messageBytes (header : SimHeader) (body : SimBody) :
    (messageBytes header body).length = (bodyBytes body).length + 10 := by
  simp only [messageBytes, contentBytes, headerBytes, List.length_append, List.length_singleton,
    length_machPut4]
  ring

/-! ## Decoders read these bytes -/

/-- What the decoder returns for an encoded segment: of the frame type the low bit is
kept, and the flag is either zero or `0xff`. -/
def SimSegment.received (body : SimSegment) : SimSegment :=
  { body with
    ftype := body.ftype &&& 0x01
    remb := if body.remb = 0 then 0 else 0xff }

/-- What a decoder returns for an encoded body: only a segment is changed. -/
def SimBody.received : SimBody → SimBody
  | .seg body => .seg body.received
  | body => body

/-- The frame type of a decoded segment is its own low bit. -/
theorem received_ftype (body : SimSegment) :
    body.received.ftype &&& 0x01 = body.received.ftype := by
  change (body.ftype &&& 0x01) &&& 0x01 = body.ftype &&& 0x01
  rw [UInt8.and_assoc]
  rfl

/-- A segment whose index fits the byte that a small total leaves for it. -/
def SimBody.Legal : SimBody → Prop
  | .seg body => body.total ≤ 255 → body.index ≤ 255
  | _ => True

/-- The bytes of a message that names a path. -/
def Message (pid : UInt8) (body : SimBody) (bytes : List UInt8) : Prop :=
  body.Legal ∧ ∃ header : SimHeader, header.ver = pid ∧ header.mid = body.mid.toUInt8 ∧
    bytes = messageBytes header body

theorem reads_payload {cap : Nat} (payload : Payload cap) (small : cap < 65535) :
    tape.Reads (readPayload cap) (dataBytes payload.bytes) payload := by
  have short : payload.bytes.length < 2 ^ 16 := by have := payload.bounded; omega
  have noError : UInt16.ofNat payload.bytes.length ≠ readDataError := by
    intro same
    have := congrArg UInt16.toNat same
    have bounded := payload.bounded
    rw [UInt16.toNat_ofNat', Nat.mod_eq_of_lt short] at this
    simp only [readDataError, UInt16.reduceToNat] at this
    omega
  have reads := Reads.bind_pure (reads_data payload.bounded short) fun read =>
    if read.1 = readDataError then (.empty : Payload cap) else .clip cap read.2
  rwa [if_neg noError, Payload.clip_bytes] at reads

theorem reads_header (header : SimHeader) : tape.Reads readHeader (headerBytes header) header :=
  (reads_uint8 _).bind <| (reads_uint8 _).bind <| Reads.bind_pure (reads_uint32 _) _

theorem reads_shortId (id : UInt32) :
    tape.Reads (readShortId (id > 65535)) (shortIdBytes id) id := by
  by_cases wide : id > 65535
  · simp only [readShortId, shortIdBytes, wide, decide_true, if_true]
    exact reads_uint32 id
  · simp only [readShortId, shortIdBytes, wide, decide_false, Bool.false_eq_true, if_false]
    have narrow : id.toUInt16.toUInt32 = id := by
      apply UInt32.toNat_inj.mp
      simp only [UInt16.toNat_toUInt32, UInt32.toNat_toUInt16]
      have := UInt32.lt_iff_toNat_lt.not.mp wide
      simp only [UInt32.reduceToNat] at this
      omega
    have reads := (reads_uint16 id.toUInt16).map UInt16.toUInt32
    rwa [narrow] at reads

theorem reads_position {index total : UInt16} (legal : total ≤ 255 → index ≤ 255) :
    tape.Reads (readPosition (total > 255)) (positionBytes index total) (index, total) := by
  by_cases wide : total > 255
  · simp only [readPosition, positionBytes, wide, decide_true, if_true]
    exact (reads_uint16 index).bind (Reads.bind_pure (reads_uint16 total) _)
  · simp only [readPosition, positionBytes, wide, decide_false, Bool.false_eq_true, if_false]
    have small : ∀ value : UInt16, value ≤ 255 → value.toUInt8.toUInt16 = value := by
      intro value atMost
      apply UInt16.toNat_inj.mp
      simp only [UInt8.toNat_toUInt16, UInt16.toNat_toUInt8]
      have := UInt16.le_iff_toNat_le.mp atMost
      simp only [UInt16.reduceToNat] at this
      omega
    have totalSmall : total ≤ 255 := by grind
    have reads : tape.Reads (do
        let index ← machUint8Read
        let total ← machUint8Read
        return (index.toUInt16, total.toUInt16)) [index.toUInt8, total.toUInt8]
          (index.toUInt8.toUInt16, total.toUInt8.toUInt16) :=
      (reads_uint8 index.toUInt8).bind (Reads.bind_pure (reads_uint8 total.toUInt8) _)
    rwa [small index (legal totalSmall), small total totalSmall] at reads

/-- The low bit is the only bit of the frame type in the mask. -/
theorem low_bit_cases (ftype : UInt8) : ftype &&& 0x01 = 0 ∨ ftype &&& 0x01 = 1 := by
  have value : (ftype &&& 0x01).toNat = ftype.toNat % 2 := by
    rw [UInt8.toNat_and]
    exact Nat.and_one_is_mod _
  cases Nat.mod_two_eq_zero_or_one ftype.toNat with
  | inl even => exact .inl (UInt8.toNat_inj.mp (by rw [value, even]; rfl))
  | inr odd => exact .inr (UInt8.toNat_inj.mp (by rw [value, odd]; rfl))

/-- **Each bit of the mask can be read back.** -/
theorem segmentMask_bits (body : SimSegment) :
    (decide (segmentMask body &&& ((1 : UInt8) <<< 7) ≠ 0) = decide (body.packetId > 65535)) ∧
    (decide (segmentMask body &&& ((1 : UInt8) <<< 6) ≠ 0) = decide (body.fid > 65535)) ∧
    (decide (segmentMask body &&& ((1 : UInt8) <<< 5) ≠ 0) = decide (body.total > 255)) ∧
    (segmentMask body &&& ((1 : UInt8) <<< 4) ≠ 0 ↔ body.remb = 0) ∧
    segmentMask body &&& 0x01 = body.ftype &&& 0x01 := by
  unfold segmentMask
  by_cases widePacket : body.packetId > 65535 <;> by_cases wideFid : body.fid > 65535 <;>
    by_cases wideTotal : body.total > 255 <;> by_cases noRemb : body.remb = 0 <;>
      simp only [widePacket, wideFid, wideTotal, noRemb, if_true, if_false] <;>
        rcases low_bit_cases body.ftype with low | low <;> rw [low] <;> decide

theorem reads_segment {body : SimSegment} (legal : body.total ≤ 255 → body.index ≤ 255) :
    tape.Reads simSegmentDecode (segmentBytes body) body.received := by
  obtain ⟨packetBit, fidBit, totalBit, rembBit, lowBit⟩ := segmentMask_bits body
  refine (reads_uint8 (segmentMask body)).bind <| (reads_uint8 body.payloadType).bind ?_
  rw [packetBit, fidBit, totalBit]
  simp only [rembBit, lowBit]
  exact (reads_shortId _).bind <| (reads_shortId _).bind <| (reads_uint32 _).bind <|
    (reads_position legal).bind <| (reads_uint16 _).bind <| (reads_uint16 _).bind <|
      Reads.bind_pure (reads_payload body.data (by decide)) _

theorem reads_segmentAck (body : SimSegmentAck) :
    tape.Reads simSegmentAckDecode (bodyBytes (.segAck body)) body := by
  obtain ⟨base, acked, nack, bounded⟩ := body
  refine (reads_uint32 base).bind <| (reads_uint32 acked).bind <|
    (reads_uint8 (UInt8.ofNat nack.length)).bind ?_
  have count : min (UInt8.ofNat nack.length).toNat nackNum = nack.length := by
    have small : nack.length ≤ 80 := bounded
    rw [UInt8.toNat_ofNat', Nat.mod_eq_of_lt (by omega)]
    exact Nat.min_eq_left bounded
  rw [count]
  have reads := Reads.bind_pure ((Reads.times reads_uint16 nack)) fun nack =>
    ({ basePacketId := base, ackedPacketId := acked, nack := nack.take nackNum,
       nackBounded := List.length_take_le _ _ } : SimSegmentAck)
  simpa only [List.take_of_length_le bounded] using reads

theorem reads_body {body : SimBody} (legal : body.Legal) :
    tape.Reads (decodeBody body.mid) (bodyBytes body) body.received := by
  cases body with
  | connect body =>
      refine Reads.map ?_ SimBody.connect
      refine (reads_uint32 _).bind <| (reads_payload _ (by decide)).bind ?_
      have reads := Reads.bind_pure (reads_int8 body.ccType.toInt8) fun ccType =>
        ({ cid := body.cid, token := body.token, ccType := ccType.toUInt8 } : SimConnect)
      rwa [UInt8.toUInt8_toInt8] at reads
  | connectAck body =>
      refine Reads.map ?_ SimBody.connectAck
      exact (reads_uint32 _).bind (Reads.bind_pure (reads_uint32 _) _)
  | disconnectAck body =>
      refine Reads.map ?_ SimBody.disconnectAck
      exact (reads_uint32 _).bind (Reads.bind_pure (reads_uint32 _) _)
  | disconnect body =>
      refine Reads.map ?_ SimBody.disconnect
      exact Reads.bind_pure (reads_uint32 _) _
  | ping body =>
      refine Reads.map ?_ SimBody.ping
      exact Reads.bind_pure (reads_int64 _) _
  | pong body =>
      refine Reads.map ?_ SimBody.pong
      exact Reads.bind_pure (reads_int64 _) _
  | seg body => exact (reads_segment legal).map _
  | segAck body => exact (reads_segmentAck body).map _
  | feedback body =>
      refine Reads.map ?_ SimBody.feedback
      exact (reads_uint32 _).bind (Reads.bind_pure (reads_payload _ (by decide)) _)
  | fir body =>
      refine Reads.map ?_ SimBody.fir
      exact Reads.bind_pure (reads_uint32 _) _
  | pad body =>
      refine Reads.map ?_ SimBody.pad
      exact (reads_uint32 _).bind
        ((reads_uint16 _).bind (Reads.bind_pure (reads_payload _ (by decide)) _))

/-! ## The round trip -/

theorem tape_starts {strm : BinStream} {header : SimHeader} {body : SimBody}
    (bytes : strm.data = messageBytes header body) (rewound : strm.rsize = 0) :
    tape.unread strm =
      headerBytes header ++ (bodyBytes body ++ machPut4 (messageCrc header body)) := by
  change strm.data.drop strm.rsize = _
  rw [bytes, rewound, List.drop_zero, messageBytes, contentBytes, List.append_assoc]

/-- The stream after the header of a message. -/
def afterHeader (header : SimHeader) (strm : BinStream) : BinStream :=
  strm.advance (headerBytes header).length

/-- The stream after the body of a message. -/
def afterBody (header : SimHeader) (body : SimBody) (strm : BinStream) : BinStream :=
  (afterHeader header strm).advance (bodyBytes body).length

/-- The checksum of a received message is found at its end and agrees. -/
theorem simDecodeHeader_message {strm : BinStream} {header : SimHeader} {body : SimBody}
    (bytes : strm.data = messageBytes header body) (rewound : strm.rsize = 0) :
    simDecodeHeader strm = some (some header, afterHeader header strm) := by
  have used : strm.used = (contentBytes header body).length + 4 := by
    rw [BinStream.used, bytes, messageBytes, List.length_append, length_machPut4]
  have src : machGet4 (strm.data.drop (strm.used - 4)) = messageCrc header body := by
    rw [used, Nat.add_sub_cancel, bytes, messageBytes, List.drop_left]
    simpa using machGet4_put (messageCrc header body) []
  have crc : crc32 crcVal (strm.data.take (strm.used - 4)) = messageCrc header body := by
    rw [used, Nat.add_sub_cancel, bytes, messageBytes, List.take_left, messageCrc]
  rw [simDecodeHeader, if_neg (by omega)]
  simp only [src, crc, if_true]
  rw [(reads_header header).run_eq (tape_starts bytes rewound)]
  rfl

/-- The body decoder selected by the header returns the body and stops at the checksum. -/
theorem simDecodeMsg_message {strm : BinStream} {header : SimHeader} {body : SimBody}
    (bytes : strm.data = messageBytes header body) (rewound : strm.rsize = 0)
    (mid : header.mid = body.mid.toUInt8) (legal : body.Legal) :
    simDecodeMsg (afterHeader header strm) header =
      (some body.received, afterBody header body strm) := by
  have starts := unread_after (tape_starts bytes rewound)
  rw [simDecodeMsg, mid, MsgId.ofUInt8?_toUInt8]
  exact congrArg (Prod.map some id) ((reads_body legal).run_eq starts)

/-- The bytes of a message tell what is received. -/
theorem Message.received_eq {pid other : UInt8} {body twin : SimBody} {bytes : List UInt8}
    (message : Message pid body bytes) (same : Message other twin bytes) :
    body.received = twin.received := by
  obtain ⟨legal, header, -, mid, eq⟩ := message
  obtain ⟨legal', header', -, mid', eq'⟩ := same
  have start : ({ binStreamInit with data := bytes } : BinStream).rsize = 0 := rfl
  have first := simDecodeHeader_message eq start
  rw [simDecodeHeader_message eq' start] at first
  obtain ⟨sameHeader, -⟩ := Prod.mk.inj (Option.some.inj first)
  obtain rfl := Option.some.inj sameHeader
  have decoded := simDecodeMsg_message eq start mid legal
  rw [simDecodeMsg_message eq' start mid' legal'] at decoded
  exact Option.some.inj (Prod.mk.inj decoded).1.symm

theorem afterBody_unread {strm : BinStream} {header : SimHeader} {body : SimBody}
    (bytes : strm.data = messageBytes header body) (rewound : strm.rsize = 0) :
    (afterBody header body strm).unread = machPut4 (messageCrc header body) :=
  show tape.unread (afterBody header body strm) = machPut4 (messageCrc header body) from
    unread_after (unread_after (tape_starts bytes rewound))

theorem afterBody_rsize {strm : BinStream} {header : SimHeader} {body : SimBody}
    (bytes : strm.data = messageBytes header body) (rewound : strm.rsize = 0) :
    (afterBody header body strm).rsize + 4 = (afterBody header body strm).used := by
  simp only [afterBody, afterHeader, BinStream.used, advance_data, advance_rsize, bytes, rewound,
    messageBytes, contentBytes, List.length_append, length_machPut4, Nat.zero_add]

/-- **Decoding what was encoded returns the header and the body.** The stream that
encodes is in any state; the stream that decodes holds the bytes and is rewound.
Both decoders succeed, and the body decoder stops where the four bytes of the
checksum begin. -/
theorem simDecode_encode (sender receiver : BinStream) (header : SimHeader) (body : SimBody)
    (copied : receiver.data = (simEncodeMsg sender header body).data)
    (mid : header.mid = body.mid.toUInt8) (legal : body.Legal) :
    ∃ inBody atTrailer : BinStream,
      simDecodeHeader (binStreamRewind false receiver) = some (some header, inBody) ∧
      simDecodeMsg inBody header = (some body.received, atTrailer) ∧
      atTrailer.data = receiver.data ∧
      atTrailer.rsize + 4 = atTrailer.used ∧
      atTrailer.unread = machPut4 (crc32 crcVal (receiver.data.take (receiver.used - 4))) := by
  have bytes : (binStreamRewind false receiver).data = messageBytes header body :=
    copied.trans (simEncodeMsg_data sender header body)
  have rewound : (binStreamRewind false receiver).rsize = 0 := rfl
  refine ⟨_, _, simDecodeHeader_message bytes rewound,
    simDecodeMsg_message bytes rewound mid legal, rfl, afterBody_rsize bytes rewound, ?_⟩
  have content : receiver.data.take (receiver.used - 4) = contentBytes header body := by
    have received : receiver.data = messageBytes header body := bytes
    simp only [BinStream.used, received, messageBytes, List.length_append, length_machPut4,
      Nat.add_sub_cancel, List.take_left]
  rw [afterBody_unread bytes rewound, content, messageCrc]

/-- A wide segment with a zero `remb` survives a stream that held something else. -/
theorem simDecode_encode_segment :
    ∃ inBody atTrailer : BinStream,
      simDecodeHeader (binStreamRewind false (simEncodeMsg binStreamInit ⟨1, 0x17, 7⟩
        (.seg ⟨70000, 3, 40, 300, 400, 3, 0, 0, 12, 5, ⟨[1, 2, 3], by decide⟩⟩))) =
          some (some ⟨1, 0x17, 7⟩, inBody) ∧
      simDecodeMsg inBody ⟨1, 0x17, 7⟩ =
        (some (.seg ⟨70000, 3, 40, 300, 400, 1, 0, 0, 12, 5, ⟨[1, 2, 3], by decide⟩⟩),
          atTrailer) ∧
      atTrailer.rsize + 4 = atTrailer.used := by
  have trip := simDecode_encode binStreamInit
    (simEncodeMsg binStreamInit ⟨1, 0x17, 7⟩
      (.seg ⟨70000, 3, 40, 300, 400, 3, 0, 0, 12, 5, ⟨[1, 2, 3], by decide⟩⟩))
    ⟨1, 0x17, 7⟩ (.seg ⟨70000, 3, 40, 300, 400, 3, 0, 0, 12, 5, ⟨[1, 2, 3], by decide⟩⟩)
    rfl rfl (fun narrow => absurd narrow (by decide))
  obtain ⟨inBody, atTrailer, headerRead, bodyRead, -, stops, -⟩ := trip
  exact ⟨inBody, atTrailer, headerRead, bodyRead, stops⟩

end MpVideo.Wire
