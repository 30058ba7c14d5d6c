import MpVideo.Wire.RoundTrip

/-!
# Truncated messages

What the message id, the mask, a length prefix or a count byte announce, says how long a
body is (`announcedLength`); a message is complete when header and body lie in front of
the checksum (`Complete`). Everything that is encoded is complete (`complete_content`).

The decoders read bytes in use only, but they do not tell when bytes are missing: a
reader that finds too few yields zero, and the last four bytes count as in use although
they are the checksum. A byte string is therefore rejected for being truncated only
where the checksum or the message id is wrong (`rejectsTruncated_iff`). Fewer than four
bytes are not even a checksum, which is then read from in front of the buffer.
-/

set_option autoImplicit false

namespace MpVideo.Wire

open BinStream

/-! ## Reads in bounds -/

/-- A program that consists of values, of fetches and of sequences of such programs. A
fetch looks at the next `count` bytes, all of them in use, moves past them, and depends
on nothing else than these bytes and the two positions. -/
inductive InBounds : {α : Type} → StreamM α → Prop where
  | pure {α : Type} (value : α) : InBounds (Pure.pure value : StreamM α)
  | fetch {α : Type} (program : StreamM α) (count : BinStream → Nat)
      (value : Nat → Nat → List UInt8 → α)
      (inUse : ∀ strm, count strm = 0 ∨ strm.rsize + count strm ≤ strm.used)
      (result : ∀ strm, program strm = (value strm.used strm.rsize
        (strm.unread.take (count strm)), strm.advance (count strm))) : InBounds program
  | bind {α β : Type} {first : StreamM α} {next : α → StreamM β} (one : InBounds first)
      (two : ∀ value, InBounds (next value)) : InBounds (first >>= next)

/-- A read of a fixed width looks at this many bytes or at none. -/
theorem inBounds_machRead {α : Type} (width : Nat) (zero : α) (get : List UInt8 → α)
    (narrow : ∀ ptr, get ptr = get (ptr.take width)) : InBounds (machRead width zero get) := by
  refine .fetch _ (fun strm => if strm.used < strm.rsize + width then 0 else width)
    (fun used rsize bytes => if used < rsize + width then zero else get bytes) ?_ ?_
  · intro strm
    split_ifs with short
    · exact .inl rfl
    · exact .inr (by omega)
  · intro strm
    rw [machRead]
    split_ifs with short
    · rfl
    · rw [← narrow]

/-- The copy of a data read looks at the announced length or at nothing. -/
theorem inBounds_copy (size : Nat) (len : UInt16) : InBounds (fun strm =>
    if len.toNat > size ∨ strm.rsize + len.toNat > strm.used then ((readDataError, []), strm)
    else ((len, strm.unread.take len.toNat), strm.advance len.toNat) :
      StreamM (UInt16 × List UInt8)) := by
  refine .fetch _
    (fun strm => if len.toNat > size ∨ strm.rsize + len.toNat > strm.used then 0 else len.toNat)
    (fun used rsize bytes =>
      if len.toNat > size ∨ rsize + len.toNat > used then (readDataError, []) else (len, bytes))
    ?_ ?_
  · intro strm
    split_ifs with long
    · exact .inl rfl
    · exact .inr (by omega)
  · intro strm
    split_ifs with long
    · rfl
    · rfl

theorem InBounds.map {α β : Type} {first : StreamM α} (one : InBounds first) (f : α → β) :
    InBounds (f <$> first) := by
  rw [map_eq_pure_bind]
  exact .bind one fun value => .pure (f value)

theorem InBounds.times {α : Type} {program : StreamM α} (one : InBounds program) :
    ∀ n, InBounds (Tape.times program n)
  | 0 => .pure []
  | n + 1 => .bind one fun _ => .bind (InBounds.times one n) fun _ => .pure _

theorem inBounds_uint8 : InBounds machUint8Read :=
  inBounds_machRead 1 0 _ fun _ => (getD_take Nat.zero_lt_one).symm

theorem inBounds_int8 : InBounds machInt8Read :=
  inBounds_machRead 1 0 _ fun _ => congrArg UInt8.toInt8 (getD_take Nat.zero_lt_one).symm

theorem inBounds_uint16 : InBounds machUint16Read :=
  inBounds_machRead 2 0 _ fun ptr => by rw [machGet2_take]

theorem inBounds_uint32 : InBounds machUint32Read :=
  inBounds_machRead 4 0 _ fun ptr => (machGet4_take ptr).symm

theorem inBounds_int64 : InBounds machInt64Read :=
  inBounds_machRead 8 0 _ fun ptr => by rw [machGet8_take]

theorem inBounds_data (size : Nat) : InBounds (machDataRead size) :=
  .bind inBounds_uint16 fun len => inBounds_copy size len

theorem inBounds_payload (cap : Nat) : InBounds (readPayload cap) :=
  .bind (inBounds_data cap) fun _ => .pure _

theorem inBounds_shortId (wide : Bool) : InBounds (readShortId wide) := by
  cases wide with
  | true => exact inBounds_uint32
  | false => exact inBounds_uint16.map _

theorem inBounds_position (wide : Bool) : InBounds (readPosition wide) := by
  cases wide with
  | true => exact .bind inBounds_uint16 fun _ => .bind inBounds_uint16 fun _ => .pure _
  | false => exact .bind inBounds_uint8 fun _ => .bind inBounds_uint8 fun _ => .pure _

theorem inBounds_header : InBounds readHeader :=
  .bind inBounds_uint8 fun _ => .bind inBounds_uint8 fun _ => .bind inBounds_uint32 fun _ => .pure _

theorem inBounds_segment : InBounds simSegmentDecode :=
  .bind inBounds_uint8 fun _ => .bind inBounds_uint8 fun _ => .bind (inBounds_shortId _) fun _ =>
    .bind (inBounds_shortId _) fun _ => .bind inBounds_uint32 fun _ =>
      .bind (inBounds_position _) fun _ => .bind inBounds_uint16 fun _ =>
        .bind inBounds_uint16 fun _ => .bind (inBounds_payload _) fun _ => .pure _

theorem inBounds_connectAck : InBounds simConnectAckDecode :=
  .bind inBounds_uint32 fun _ => .bind inBounds_uint32 fun _ => .pure _

theorem inBounds_ping : InBounds simPingDecode :=
  .bind inBounds_int64 fun _ => .pure _

/-- **Every body is read in bounds.** -/
theorem inBounds_body (mid : MsgId) : InBounds (decodeBody mid) := by
  cases mid with
  | simConnect =>
      refine InBounds.map ?_ _
      exact .bind inBounds_uint32 fun _ => .bind (inBounds_payload _) fun _ =>
        .bind inBounds_int8 fun _ => .pure _
  | simConnectAck => exact inBounds_connectAck.map _
  | simDisconnect =>
      refine InBounds.map ?_ _
      exact .bind inBounds_uint32 fun _ => .pure _
  | simDisconnectAck => exact inBounds_connectAck.map _
  | simPing => exact inBounds_ping.map _
  | simPong => exact inBounds_ping.map _
  | simSeg => exact inBounds_segment.map _
  | simSegAck =>
      refine InBounds.map ?_ _
      exact .bind inBounds_uint32 fun _ => .bind inBounds_uint32 fun _ =>
        .bind inBounds_uint8 fun _ => .bind (inBounds_uint16.times _) fun _ => .pure _
  | simFeedback =>
      refine InBounds.map ?_ _
      exact .bind inBounds_uint32 fun _ => .bind (inBounds_payload _) fun _ => .pure _
  | simFir =>
      refine InBounds.map ?_ _
      exact .bind inBounds_uint32 fun _ => .pure _
  | simPad =>
      refine InBounds.map ?_ _
      exact .bind inBounds_uint32 fun _ => .bind inBounds_uint16 fun _ =>
        .bind (inBounds_payload _) fun _ => .pure _

/-! ## Announced lengths -/

/-- The 16-bit number at a place, when both of its bytes are there. -/
def numberAt (place : Nat) (bytes : List UInt8) : Option Nat :=
  match bytes.drop place with
  | high :: low :: _ => some (high.toNat * 256 + low.toNat)
  | _ => none

/-- The length of the fields of a segment in front of its data. -/
def segmentFieldsLength (mask : UInt8) : Nat :=
  2 + (if mask &&& ((1 : UInt8) <<< 7) ≠ 0 then 4 else 2) +
    (if mask &&& ((1 : UInt8) <<< 6) ≠ 0 then 4 else 2) + 4 +
    (if mask &&& ((1 : UInt8) <<< 5) ≠ 0 then 4 else 2) + 4

/-- The length that a body announces; it is unknown (`none`) as long as the byte or the
prefix that decides is missing. -/
def announcedLength : MsgId → List UInt8 → Option Nat
  | .simConnect, body => (numberAt 4 body).map fun len => 6 + len + 1
  | .simConnectAck, _ | .simDisconnectAck, _ | .simPing, _ | .simPong, _ => some 8
  | .simDisconnect, _ | .simFir, _ => some 4
  | .simSeg, body => body.head?.bind fun mask =>
      (numberAt (segmentFieldsLength mask) body).map fun len => segmentFieldsLength mask + 2 + len
  | .simSegAck, body => body[8]?.map fun num => 9 + 2 * num.toNat
  | .simFeedback, body => (numberAt 4 body).map fun len => 6 + len
  | .simPad, body => (numberAt 6 body).map fun len => 8 + len

/-- The header and the announced body lie within the bytes. -/
def Complete (content : List UInt8) : Prop :=
  ∃ mid length, MsgId.ofUInt8? (content.getD 1 0) = some mid ∧
    announcedLength mid (content.drop simHeaderSize) = some length ∧
    simHeaderSize + length ≤ content.length

theorem numberAt_dataBytes (front : List UInt8) {data : List UInt8} (short : data.length < 2 ^ 16)
    (rest : List UInt8) : numberAt front.length (front ++ (dataBytes data ++ rest)) =
      some data.length := by
  rw [numberAt, List.drop_left, dataBytes, machPut2]
  have size : (UInt16.ofNat data.length).toNat = data.length := by
    rw [UInt16.toNat_ofNat']
    exact Nat.mod_eq_of_lt short
  simp [Nat.shiftRight_eq_div_pow, size]
  omega

/-- The mask of a segment announces the widths that were chosen. -/
theorem segmentFieldsLength_mask (body : SimSegment) :
    segmentFieldsLength (segmentMask body) = 2 + (shortIdBytes body.packetId).length +
      (shortIdBytes body.fid).length + 4 + (positionBytes body.index body.total).length + 4 := by
  obtain ⟨packetId, fid, total, -⟩ := segmentMask_bits body
  rw [decide_eq_decide] at packetId fid total
  rw [segmentFieldsLength, length_shortIdBytes, length_shortIdBytes, length_positionBytes]
  simp only [packetId, fid, total]
  split_ifs <;> rfl

/-- The bytes of a segment in front of its data. -/
def segmentFields (body : SimSegment) : List UInt8 :=
  [segmentMask body] ++ ([body.payloadType] ++ (shortIdBytes body.packetId ++
    (shortIdBytes body.fid ++ (machPut4 body.timestamp ++ (positionBytes body.index body.total ++
      (machPut2 body.sendTs ++ machPut2 body.transportSeq))))))

theorem segmentBytes_eq (body : SimSegment) :
    segmentBytes body = segmentFields body ++ dataBytes body.data.bytes := by
  simp only [segmentBytes, segmentFields, List.append_assoc]

theorem length_segmentFields (body : SimSegment) :
    (segmentFields body).length = segmentFieldsLength (segmentMask body) := by
  simp only [segmentFieldsLength_mask, segmentFields, List.length_append, List.length_singleton,
    length_machPut4, length_machPut2]
  omega

/-- **A body that is encoded announces its length.** -/
theorem announcedLength_bodyBytes (body : SimBody) (rest : List UInt8) :
    announcedLength body.mid (bodyBytes body ++ rest) = some (bodyBytes body).length := by
  cases body with
  | connectAck body | disconnect body | disconnectAck body | ping body | pong body | fir body => rfl
  | connect body =>
      have short : body.token.bytes.length < 2 ^ 16 :=
        Nat.lt_of_le_of_lt body.token.bounded (by decide)
      have found := numberAt_dataBytes (machPut4 body.cid) short ([body.ccType] ++ rest)
      rw [length_machPut4] at found
      simp only [SimBody.mid, announcedLength, bodyBytes, List.append_assoc, found,
        Option.map_some, List.length_append, length_machPut4, length_dataBytes,
        List.length_singleton]
      exact congrArg some (by omega)
  | seg body =>
      have short : body.data.bytes.length < 2 ^ 16 :=
        Nat.lt_of_le_of_lt body.data.bounded (by decide)
      have found := numberAt_dataBytes (segmentFields body) short rest
      rw [length_segmentFields] at found
      have mask : (segmentFields body ++ (dataBytes body.data.bytes ++ rest)).head? =
          some (segmentMask body) := rfl
      simp only [SimBody.mid, announcedLength, bodyBytes, segmentBytes_eq, List.append_assoc, mask,
        Option.bind_some, found, Option.map_some, List.length_append, length_dataBytes,
        length_segmentFields]
      exact congrArg some (by omega)
  | segAck body =>
      have few : (UInt8.ofNat body.nack.length).toNat = body.nack.length := by
        rw [UInt8.toNat_ofNat']
        exact Nat.mod_eq_of_lt (Nat.lt_of_le_of_lt body.nackBounded (by decide))
      have count : (bodyBytes (.segAck body) ++ rest)[8]? =
          some (UInt8.ofNat body.nack.length) := rfl
      change ((bodyBytes (.segAck body) ++ rest)[8]?).map (fun num => 9 + 2 * num.toNat) = _
      rw [count, Option.map_some, few]
      simp only [bodyBytes, List.length_append, length_machPut4, List.length_singleton,
        length_nackBytes]
      exact congrArg some (by omega)
  | feedback body =>
      have short : body.feedback.bytes.length < 2 ^ 16 :=
        Nat.lt_of_le_of_lt body.feedback.bounded (by decide)
      have found := numberAt_dataBytes (machPut4 body.basePacketId) short rest
      rw [length_machPut4] at found
      simp only [SimBody.mid, announcedLength, bodyBytes, List.append_assoc, found,
        Option.map_some, List.length_append, length_machPut4, length_dataBytes]
      exact congrArg some (by omega)
  | pad body =>
      have short : body.data.bytes.length < 2 ^ 16 :=
        Nat.lt_of_le_of_lt body.data.bounded (by decide)
      have found := numberAt_dataBytes (machPut4 body.sendTs ++ machPut2 body.transportSeq) short
        rest
      rw [List.length_append, length_machPut4, length_machPut2, List.append_assoc] at found
      simp only [SimBody.mid, announcedLength, bodyBytes, List.append_assoc, found,
        Option.map_some, List.length_append, length_machPut4, length_machPut2, length_dataBytes]
      exact congrArg some (by omega)

/-- **Everything that is encoded is complete.** -/
theorem complete_content {header : SimHeader} {body : SimBody}
    (mid : header.mid = body.mid.toUInt8) : Complete (contentBytes header body) := by
  have dropped : (contentBytes header body).drop simHeaderSize = bodyBytes body := rfl
  have announced := announcedLength_bodyBytes body []
  rw [List.append_nil] at announced
  refine ⟨body.mid, (bodyBytes body).length, ?_, dropped ▸ announced, ?_⟩
  · change MsgId.ofUInt8? header.mid = some body.mid
    rw [mid, MsgId.ofUInt8?_toUInt8]
  · rw [contentBytes, List.length_append]
    exact Nat.le_refl _

/-! ## Decoding a byte string -/

/-- A stream that got the bytes of a datagram, as `RecvPacket` stores them. -/
def loaded (bytes : List UInt8) (strm : BinStream) : BinStream :=
  { binStreamRewind true strm with data := bytes }

/-- The checksum at the end of the bytes is the one of the bytes in front of it. -/
def ChecksumAgrees (bytes : List UInt8) : Prop :=
  machGet4 (bytes.drop (bytes.length - 4)) = crc32 crcVal (bytes.take (bytes.length - 4))

instance (bytes : List UInt8) : Decidable (ChecksumAgrees bytes) :=
  inferInstanceAs (Decidable (machGet4 _ = _))

/-- What the decoders are to do with the bytes of a datagram: no byte outside of them is
read, and both decoders succeed only on a complete message. -/
structure RejectsTruncated (bytes : List UInt8) (strm : BinStream) : Prop where
  checksum : simDecodeHeader (loaded bytes strm) ≠ none
  header : InBounds readHeader
  body : ∀ mid, InBounds (decodeBody mid)
  complete : ∀ header inBody body atEnd,
    simDecodeHeader (loaded bytes strm) = some (some header, inBody) →
    simDecodeMsg inBody header = (some body, atEnd) → Complete (bytes.take (bytes.length - 4))

/-- A byte in use is read as it is. -/
theorem machUint8Read_inUse {strm : BinStream} (inUse : strm.rsize < strm.used) :
    machUint8Read strm = (strm.data.getD strm.rsize 0, strm.advance 1) := by
  rw [machUint8Read, machRead, if_neg (by omega)]
  simp only [unread, List.getD_eq_getElem?_getD, List.getElem?_drop, Nat.add_zero]

/-- The second byte is taken for the message id, also when it belongs to the checksum. -/
theorem readHeader_mid {strm : BinStream} (start : strm.rsize = 0) (enough : 2 ≤ strm.used) :
    ((readHeader.run strm).1).mid = strm.data.getD 1 0 := by
  have ver : machUint8Read strm = _ := machUint8Read_inUse (by omega)
  have mid : machUint8Read (strm.advance 1) = _ := machUint8Read_inUse (by
    rw [advance_rsize, start]
    exact enough)
  rw [advance_rsize, start, advance_data] at mid
  change ((machUint8Read (machUint8Read strm).2).1) = _
  rw [ver, mid]

/-- With the right checksum the header is decoded and the body is decoded next. -/
theorem simDecodeHeader_loaded {bytes : List UInt8} (enough : 4 ≤ bytes.length)
    (agrees : ChecksumAgrees bytes) (strm : BinStream) :
    ∃ header inBody, simDecodeHeader (loaded bytes strm) = some (some header, inBody) ∧
      header.mid = bytes.getD 1 0 := by
  have used : (loaded bytes strm).used = bytes.length := rfl
  have same : machGet4 ((loaded bytes strm).data.drop ((loaded bytes strm).used - 4)) =
      crc32 crcVal ((loaded bytes strm).data.take ((loaded bytes strm).used - 4)) := agrees
  rw [simDecodeHeader, if_neg (by omega)]
  simp only [if_pos same]
  exact ⟨_, _, rfl, readHeader_mid rfl (by omega)⟩

/-- The message id alone decides whether the body decoder succeeds. -/
theorem simDecodeMsg_isSome (strm : BinStream) (header : SimHeader) :
    (simDecodeMsg strm header).1.isSome = (MsgId.ofUInt8? header.mid).isSome := by
  rw [simDecodeMsg]
  cases MsgId.ofUInt8? header.mid with
  | none => rfl
  | some mid => rfl

/-- With the right checksum and a known message id both decoders succeed. -/
theorem decoders_succeed {bytes : List UInt8} (enough : 4 ≤ bytes.length)
    (agrees : ChecksumAgrees bytes) (known : (MsgId.ofUInt8? (bytes.getD 1 0)).isSome)
    (strm : BinStream) : ∃ header inBody body atEnd,
      simDecodeHeader (loaded bytes strm) = some (some header, inBody) ∧
        simDecodeMsg inBody header = (some body, atEnd) := by
  obtain ⟨header, inBody, decoded, mid⟩ := simDecodeHeader_loaded enough agrees strm
  have isSome := simDecodeMsg_isSome inBody header
  rw [mid, known, Option.isSome_iff_exists] at isSome
  obtain ⟨body, found⟩ := isSome
  exact ⟨header, inBody, body, _, decoded, Prod.ext found rfl⟩

/-- With a wrong checksum nothing is decoded. -/
theorem simDecodeHeader_differs {bytes : List UInt8} (enough : 4 ≤ bytes.length)
    (differs : ¬ ChecksumAgrees bytes) (strm : BinStream) :
    simDecodeHeader (loaded bytes strm) = some (none, loaded bytes strm) := by
  have used : (loaded bytes strm).used = bytes.length := rfl
  have other : ¬ machGet4 ((loaded bytes strm).data.drop ((loaded bytes strm).used - 4)) =
      crc32 crcVal ((loaded bytes strm).data.take ((loaded bytes strm).used - 4)) := differs
  rw [simDecodeHeader, if_neg (by omega)]
  simp only [if_neg other]

/-- **A truncated message is rejected by the checksum or the message id alone.** -/
theorem rejectsTruncated_iff (bytes : List UInt8) (strm : BinStream) :
    RejectsTruncated bytes strm ↔ 4 ≤ bytes.length ∧
      (ChecksumAgrees bytes → (MsgId.ofUInt8? (bytes.getD 1 0)).isSome →
        Complete (bytes.take (bytes.length - 4))) := by
  have used : (loaded bytes strm).used = bytes.length := rfl
  constructor
  · intro rejects
    have enough : 4 ≤ bytes.length := by
      by_contra few
      apply rejects.checksum
      rw [simDecodeHeader, if_pos (by omega)]
    refine ⟨enough, fun agrees known => ?_⟩
    obtain ⟨header, inBody, body, atEnd, decoded, found⟩ :=
      decoders_succeed enough agrees known strm
    exact rejects.complete header inBody body atEnd decoded found
  · rintro ⟨enough, complete⟩
    have checksum : simDecodeHeader (loaded bytes strm) ≠ none := by
      rw [simDecodeHeader, if_neg (by omega)]
      simp only
      split_ifs <;> exact Option.some_ne_none _
    refine ⟨checksum, inBounds_header, inBounds_body, ?_⟩
    intro header inBody body atEnd decoded found
    have agrees : ChecksumAgrees bytes := by
      by_contra differs
      rw [simDecodeHeader_differs enough differs] at decoded
      cases decoded
    obtain ⟨header', inBody', decoded', mid⟩ := simDecodeHeader_loaded enough agrees strm
    rw [decoded] at decoded'
    cases decoded'
    have isSome := simDecodeMsg_isSome inBody header
    rw [found, mid] at isSome
    exact complete agrees isSome.symm

/-- The header of a segment and its checksum: the checksum is read as the body. -/
theorem headerOnly_accepted :
    ¬ RejectsTruncated [1, 0x17, 0, 0, 0, 7, 18, 186, 63, 123] binStreamInit := by
  intro rejects
  have agrees : ChecksumAgrees [1, 0x17, 0, 0, 0, 7, 18, 186, 63, 123] := by
    decide +kernel
  obtain ⟨header, inBody, body, atEnd, decoded, found⟩ :=
    decoders_succeed (by decide) agrees (by decide) binStreamInit
  obtain ⟨kind, length, known, announced, -⟩ :=
    rejects.complete header inBody body atEnd decoded found
  cases known
  cases announced

end MpVideo.Wire
