import MpVideo.V1.PathSender
import MpVideo.V1.Reception

/-!
# The datagrams of the second generation

The first byte of a datagram says what it is and how long the packet number behind it is. The
sender of a path puts the next number into every stream packet and padding packet; the receiver
acknowledges each one that arrives by its number, and the sender reads it again.

The library writes a number in the fewest bytes that hold it, up to six, and reads it as it was
written (`QuicHeader.Lawful`). So a packet is answered with the number that it was sent with
(`onIncomingMessage_carries`), and the answer acknowledges this number (`onIncomingMessage_ack`).
-/

set_option autoImplicit false

namespace MpVideo.V1

open Wire

/-- `PADDING_SIZE`. -/
def paddingSize : ℕ := 500

/-- The packet number behind the flags, as it is read and written. -/
structure QuicHeader extends QuicNumber where
  /-- `GetMinSeqLength`. -/
  getMinSeqLength : UInt64 → UInt8
  /-- `GetPacketNumberFlags`. -/
  getPacketNumberFlags : UInt8 → UInt8
  /-- `WriteBytesToUInt64`. -/
  writeBytesToUInt64 : UInt8 → UInt64 → List UInt8

namespace QuicHeader

/-- The flags of a length have four bits and say the length, and a number that fits into six
bytes is read as it was written. -/
structure Lawful (header : QuicHeader) : Prop where
  flags_lt : ∀ seq, header.getPacketNumberFlags (header.getMinSeqLength seq) < 16
  length_flags : ∀ seq, header.readSequenceNumberLength
    (header.getPacketNumberFlags (header.getMinSeqLength seq)) = header.getMinSeqLength seq
  short : ∀ seq, header.getMinSeqLength seq ≤ 8
  length_write : ∀ seq, (header.writeBytesToUInt64 (header.getMinSeqLength seq) seq).length =
    (header.getMinSeqLength seq).toNat
  reads : ∀ seq : UInt64, seq.toNat < 2 ^ 48 →
    bytes.Reads (header.readBytesToUInt64 (header.getMinSeqLength seq))
      (header.writeBytesToUInt64 (header.getMinSeqLength seq) seq) seq

variable (header : QuicHeader)

/-- The first byte of a datagram with a packet number. -/
def publicFlags (type : VideoProtoV1) (seq : UInt64) : UInt8 :=
  header.getPacketNumberFlags (header.getMinSeqLength seq) <<< 4 ||| type.toUInt8

/-- The flags and the packet number. -/
def write (type : VideoProtoV1) (seq : UInt64) : List UInt8 :=
  header.publicFlags type seq :: header.writeBytesToUInt64 (header.getMinSeqLength seq) seq

/-- What `SendStreamPacket` sends. -/
def streamDatagram (seq : UInt64) (payload : List UInt8) : List UInt8 :=
  header.write .v1Stream seq ++ payload

/-- What `SendPaddingPacket` sends: the front of a buffer that is zero behind the time. -/
def paddingDatagram (quic : QuicData) (now : UInt32) (seq : UInt64) : List UInt8 :=
  (header.write .v1Padding seq ++
    (quic.uint32.write now ++ List.replicate maxBufSize.toNat 0)).take paddingSize

/-- What `SendAck` sends. -/
def ackDatagram (seq : UInt64) : List UInt8 := header.write .v1Ack seq

end QuicHeader

/-- What `SendPong` sends. -/
def pongDatagram (quic : QuicData) (sentTs : UInt32) : List UInt8 :=
  VideoProtoV1.v1Pong.toUInt8 :: quic.uint32.write sentTs

/-- The datagram of a call of the receiver. -/
def IncomingCall.datagram (quic : QuicData) (header : QuicHeader) :
    IncomingCall → Option (List UInt8)
  | .sendPong sentTs => some (pongDatagram quic sentTs)
  | .sendAck seq => some (header.ackDatagram seq)
  | _ => none

/-- The datagram of these bytes, which the network delivers. -/
def Datagram.ofBytes (buf : List UInt8) : Option Datagram :=
  if length_lt : buf.length < 2 ^ 32 then some ⟨buf, length_lt⟩ else none

namespace PathSenderV1

/-- `OnIncomingMessage`: the number that is acknowledged, if one is. The round trip time of a
pong is not used. -/
def onIncomingMessage (quic : QuicData) (number : QuicNumber) (buf : List UInt8) :
    Option UInt64 :=
  let (read, rest) := (quic.readBytes 1).run buf
  let publicFlags := (read.getD []).getD 0 0
  if publicFlags &&& 0x0F = VideoProtoV1.v1Ack.toUInt8 then
    let seqLen := number.readSequenceNumberLength (publicFlags >>> 4)
    some ((number.readBytesToUInt64 seqLen).run rest).1
  else none

/-- The bytes that `Serialize` writes for the packet that `SendStreamPacket` takes. -/
def streamPayload (quic : QuicData) (now : UInt32) (isRetrans : Bool) (path : PathSenderV1) :
    Option (List UInt8) :=
  match if isRetrans then path.resendingQueue else path.sendingQueue with
  | [] => none
  | packet :: _ => (packet.serialize quic maxBufSize now).1

end PathSenderV1

/-! ## Reading what was written -/

namespace QuicHeader.Lawful

variable {header : QuicHeader}

/-- Four bits of flags above four bits of type. -/
theorem nibbles {flags : UInt8} (small : flags < 16) (type : VideoProtoV1) :
    (flags <<< 4 ||| type.toUInt8) &&& 0x0F = type.toUInt8 ∧
      (flags <<< 4 ||| type.toUInt8) >>> 4 = flags := by
  obtain ⟨n, bounded, rfl⟩ : ∃ n < 16, flags = UInt8.ofNat n :=
    ⟨flags.toNat, UInt8.lt_iff_toNat_lt.mp small, (UInt8.ofNat_toNat).symm⟩
  clear small
  cases type <;> revert n <;> decide

theorem type_publicFlags (lawful : header.Lawful) (type : VideoProtoV1) (seq : UInt64) :
    header.publicFlags type seq &&& 0x0F = type.toUInt8 :=
  (nibbles (lawful.flags_lt seq) type).1

theorem length_publicFlags (lawful : header.Lawful) (type : VideoProtoV1) (seq : UInt64) :
    header.readSequenceNumberLength (header.publicFlags type seq >>> 4) =
      header.getMinSeqLength seq := by
  rw [publicFlags, (nibbles (lawful.flags_lt seq) type).2, lawful.length_flags]

/-- The number is read behind the flags. -/
theorem run_number (lawful : header.Lawful) {seq : UInt64} (small : seq.toNat < 2 ^ 48)
    (rest : List UInt8) :
    (header.readBytesToUInt64 (header.getMinSeqLength seq)).run
      (header.writeBytesToUInt64 (header.getMinSeqLength seq) seq ++ rest) = (seq, rest) := by
  have ran := lawful.reads seq small _ ⟨rest, rfl⟩
  rw [ran]
  exact congrArg (Prod.mk seq) List.drop_left

end QuicHeader.Lawful

variable {quic : QuicData} {header : QuicHeader} {seq : UInt64}

/-- The flags are read first. -/
theorem run_write (quic : QuicData) (header : QuicHeader) (type : VideoProtoV1) (seq : UInt64)
    (rest : List UInt8) :
    (quic.readBytes 1).run (header.write type seq ++ rest) =
      (some [header.publicFlags type seq],
        header.writeBytesToUInt64 (header.getMinSeqLength seq) seq ++ rest) :=
  quic.reads_bytes [header.publicFlags type seq] _
    ⟨header.writeBytesToUInt64 (header.getMinSeqLength seq) seq ++ rest, rfl⟩

/-- **A number that is acknowledged is read as it was written.** -/
theorem onIncomingMessage_ack (lawful : header.Lawful) (small : seq.toNat < 2 ^ 48) :
    PathSenderV1.onIncomingMessage quic header.toQuicNumber (header.ackDatagram seq) =
      some seq := by
  have first := run_write quic header .v1Ack seq []
  have number := lawful.run_number small []
  rw [List.append_nil] at first number
  have isAck : header.publicFlags .v1Ack seq &&& 0x0F = VideoProtoV1.v1Ack.toUInt8 :=
    lawful.type_publicFlags .v1Ack seq
  simp only [PathSenderV1.onIncomingMessage, QuicHeader.ackDatagram, first, Option.getD_some,
    List.getD_cons_zero, isAck, if_true, lawful.length_publicFlags, List.append_nil, number]

/-- A packet with a number: a stream packet, or padding. -/
structure Carries (header : QuicHeader) (seq : UInt64) (buf : List UInt8) : Prop where
  packet : ∃ type rest, (type = .v1Stream ∨ type = .v1Padding) ∧ buf = header.write type seq ++ rest

theorem carries_streamDatagram (seq : UInt64) (payload : List UInt8) :
    Carries header seq (header.streamDatagram seq payload) :=
  ⟨.v1Stream, payload, .inl rfl, rfl⟩

theorem carries_paddingDatagram (lawful : header.Lawful) (now : UInt32) (seq : UInt64) :
    Carries header seq (header.paddingDatagram quic now seq) := by
  have fits : (header.write .v1Padding seq).length ≤ paddingSize := by
    have short := UInt8.le_iff_toNat_le.mp (lawful.short seq)
    rw [QuicHeader.write, List.length_cons, lawful.length_write]
    exact Nat.succ_le_of_lt (lt_of_le_of_lt short (by decide))
  rw [QuicHeader.paddingDatagram, List.take_append, List.take_of_length_le fits]
  exact ⟨.v1Padding, _, .inr rfl, rfl⟩

/-- The number that a call acknowledges. -/
def IncomingCall.acked : IncomingCall → Option UInt64
  | .sendAck seq => some seq
  | _ => none

/-- What `OnIncomingMessage` does besides does not answer. -/
theorem onVideo_silent (header : QuicHeader) {now : UInt32} {firstTs : Int64}
    {offset : UInt32} {datagram : Datagram}
    {calls : List IncomingCall}
    (received : PathReceiverV1.onVideo quic now firstTs offset datagram = some calls) :
    calls.filterMap IncomingCall.acked = [] ∧
      calls.filterMap (IncomingCall.datagram quic header) = [] := by
  rw [PathReceiverV1.onVideo] at received
  split_ifs at received <;> obtain rfl := Option.some.inj received <;> exact ⟨rfl, rfl⟩

/-- **A packet is answered with its number, and with nothing else.** -/
theorem onIncomingMessage_carries (lawful : header.Lawful) (small : seq.toNat < 2 ^ 48)
    {datagram : Datagram} (carries : Carries header seq datagram.buf) {now : UInt32}
    {firstTs : Int64} {calls : List IncomingCall}
    (received : PathReceiverV1.onIncomingMessage quic header.toQuicNumber now firstTs datagram =
      some calls) :
    calls.filterMap IncomingCall.acked = [seq] ∧
      calls.filterMap (IncomingCall.datagram quic header) = [header.ackDatagram seq] := by
  obtain ⟨type, rest, kind, buf⟩ := carries
  have first := run_write quic header type seq rest
  have number := lawful.run_number small rest
  have isType := lawful.type_publicFlags type seq
  have notPing : ¬ type.toUInt8 = VideoProtoV1.v1Ping.toUInt8 := by
    rcases kind with rfl | rfl <;> decide
  have isPacket : type.toUInt8 = VideoProtoV1.v1Stream.toUInt8 ∨
      type.toUInt8 = VideoProtoV1.v1Padding.toUInt8 := by
    rcases kind with rfl | rfl <;> decide
  simp only [PathReceiverV1.onIncomingMessage, buf, first, Option.getD_some,
    List.getD_cons_zero, isType, if_neg notPing, if_pos isPacket, lawful.length_publicFlags,
    number] at received
  split_ifs at received
  · obtain ⟨video, taken, rfl⟩ := Option.map_eq_some_iff.mp received
    obtain ⟨acked, sent⟩ := onVideo_silent header taken
    exact ⟨congrArg (seq :: ·) acked, congrArg (header.ackDatagram seq :: ·) sent⟩
  · obtain rfl := Option.some.inj received
    exact ⟨rfl, rfl⟩

/-! ## Delays -/

/-- The time stands whole behind the number of a padding packet. -/
theorem paddingDatagram_eq (lawful : header.Lawful) (bigEndian : quic.BigEndian) (now : UInt32)
    (seq : UInt64) : ∃ more, header.paddingDatagram quic now seq =
      header.write .v1Padding seq ++ (quic.uint32.write now ++ more) := by
  have length : (header.write .v1Padding seq ++ quic.uint32.write now).length ≤ paddingSize := by
    have short := UInt8.le_iff_toNat_le.mp (lawful.short seq)
    have eight : (8 : UInt8).toNat = 8 := rfl
    rw [List.length_append, QuicHeader.write, List.length_cons, lawful.length_write,
      bigEndian.uint32, length_machPut4, paddingSize]
    omega
  refine ⟨(List.replicate maxBufSize.toNat 0).take (paddingSize -
    (header.write .v1Padding seq ++ quic.uint32.write now).length), ?_⟩
  rw [QuicHeader.paddingDatagram, ← List.append_assoc, List.take_append,
    List.take_of_length_le length, List.append_assoc]

/-- A padding packet has the delay since it was sent. -/
theorem received_padding (lawful : header.Lawful) (bigEndian : quic.BigEndian)
    (small : seq.toNat < 2 ^ 48) {sent now : UInt32} {firstTs : Int64} {datagram : Datagram}
    (buf : datagram.buf = header.paddingDatagram quic sent seq) {calls : List IncomingCall}
    (received : PathReceiverV1.onIncomingMessage quic header.toQuicNumber now firstTs datagram =
      some calls) :
    calls = [.sendAck seq, .updateOneWayDelay (now - sent)] := by
  obtain ⟨more, eq⟩ := paddingDatagram_eq lawful bigEndian sent seq
  have first := run_write quic header .v1Padding seq
    (quic.uint32.write sent ++ more)
  have number := lawful.run_number small (quic.uint32.write sent ++ more)
  have time := quic.uint32.reads_write sent _ ⟨more, rfl⟩
  have isType := lawful.type_publicFlags .v1Padding seq
  have notPing : ¬ VideoProtoV1.v1Padding.toUInt8 = VideoProtoV1.v1Ping.toUInt8 := by decide
  have notStream : ¬ VideoProtoV1.v1Padding.toUInt8 = VideoProtoV1.v1Stream.toUInt8 := by decide
  simp only [PathReceiverV1.onIncomingMessage, buf, eq, first, Option.getD_some,
    List.getD_cons_zero, isType, if_neg notPing, if_neg notStream, or_true, if_true,
    lawful.length_publicFlags, number, time] at received
  exact (Option.some.inj received).symm

/-- A stream packet has the delay since its segment was written, when the sixteen bits of the
send time hold it. -/
theorem received_stream (lawful : header.Lawful) (small : seq.toNat < 2 ^ 48)
    {sent now refTime : UInt32} {firstTs : Int64} (known : firstTs ≠ -1)
    (reference : firstTs.toUInt64.toUInt32 = refTime) {segment : VideoSegment}
    (sendTs : segment.sendTs = (sent - refTime - segment.timestamp).toUInt16)
    (near : (sent - refTime - segment.timestamp).toNat < 2 ^ 16) {datagram : Datagram}
    (buf : datagram.buf = header.streamDatagram seq (segment.write quic))
    {calls : List IncomingCall}
    (received : PathReceiverV1.onIncomingMessage quic header.toQuicNumber now firstTs datagram =
      some calls) :
    ∃ packet,
      calls = [.sendAck seq, .updateOneWayDelay (now - sent), .processVideoPacket packet] := by
  have first := run_write quic header .v1Stream seq (segment.write quic)
  have number := lawful.run_number small (segment.write quic)
  have isType := lawful.type_publicFlags .v1Stream seq
  have notPing : ¬ VideoProtoV1.v1Stream.toUInt8 = VideoProtoV1.v1Ping.toUInt8 := by decide
  have offset : ((1 : UInt32) + (header.getMinSeqLength seq).toUInt32).toNat =
      (header.write .v1Stream seq).length := by
    have short := UInt8.le_iff_toNat_le.mp (lawful.short seq)
    have eight : (8 : UInt8).toNat = 8 := rfl
    rw [QuicHeader.write, List.length_cons, lawful.length_write, UInt32.toNat_add,
      UInt8.toNat_toUInt32]
    change (1 + _) % 2 ^ 32 = _
    omega
  have inside : ¬ datagram.len < (1 : UInt32) + (header.getMinSeqLength seq).toUInt32 := by
    rw [UInt32.lt_iff_toNat_lt, datagram.toNat_len, offset, buf, QuicHeader.streamDatagram,
      List.length_append]
    exact Nat.not_lt.mpr (Nat.le_add_right _ _)
  -- the segment is read as it was written
  have read : ((ReceivedSegment.read quic).run (segment.write quic)).1.segment? = some segment :=
    congrArg Prod.fst (VideoSegment.reads_write quic segment _ List.prefix_rfl)
  generalize parsed : ((ReceivedSegment.read quic).run (segment.write quic)).1 = segment' at read
  have fields : segment'.timestamp = segment.timestamp ∧ segment'.sendTs = segment.sendTs := by
    rw [ReceivedSegment.segment?] at read
    split_ifs at read
    exact ⟨congrArg VideoSegment.timestamp (Option.some.inj read),
      congrArg VideoSegment.sendTs (Option.some.inj read)⟩
  have owd : now - (segment'.timestamp + segment'.sendTs.toUInt32 +
      firstTs.toUInt64.toUInt32) = now - sent := by
    rw [fields.1, fields.2, reference, sendTs, offset_restored near]
  simp only [PathReceiverV1.onIncomingMessage, buf, QuicHeader.streamDatagram, first,
    Option.getD_some, List.getD_cons_zero, isType, if_neg notPing, true_or, if_true,
    lawful.length_publicFlags, number, PathReceiverV1.onVideo, if_neg inside, if_pos known,
    offset, List.drop_left, parsed, ReceivedPacket.getOwd, owd, Option.map_some] at received
  exact ⟨_, (Option.some.inj received).symm⟩

/-! ## Public headers -/

/-- The low bytes of a number, the most significant first. -/
def numberBytes : ℕ → UInt64 → List UInt8
  | 0, _ => []
  | n + 1, seq => numberBytes n (seq / 256) ++ [seq.toUInt8]

theorem length_numberBytes (n : ℕ) (seq : UInt64) : (numberBytes n seq).length = n := by
  induction n generalizing seq with
  | zero => rfl
  | succ n ih => rw [numberBytes, List.length_append, ih, List.length_singleton]

/-- The bytes make up the number that they hold. -/
theorem foldl_numberBytes {n : ℕ} {seq : UInt64} (holds : seq.toNat < 256 ^ n) :
    (numberBytes n seq).foldl (fun seq byte => seq * 256 + byte.toUInt64) 0 = seq := by
  induction n generalizing seq with
  | zero =>
      rw [pow_zero, Nat.lt_one_iff] at holds
      exact (UInt64.toNat_inj.mp holds).symm
  | succ n ih =>
      have higher : (seq / 256).toNat < 256 ^ n := by
        rw [UInt64.toNat_div, Nat.div_lt_iff_lt_mul (by decide)]
        exact holds
      rw [numberBytes, List.foldl_append, ih higher]
      apply UInt64.toNat_inj.mp
      have bounded := UInt64.toNat_lt seq
      simp only [List.foldl_cons, List.foldl_nil, UInt64.toNat_add, UInt64.toNat_mul,
        UInt64.toNat_div, UInt8.toNat_toUInt64, UInt64.toNat_toUInt8, UInt64.reduceToNat]
      omega

/-- A public header: its numbers have one, two, four or six bytes. -/
def publicHeader : QuicHeader where
  toQuicNumber := PathReceiverV1.publicHeader
  getMinSeqLength seq :=
    if seq < 0x100 then 1 else if seq < 0x10000 then 2 else if seq < 0x100000000 then 4 else 6
  getPacketNumberFlags seqLen :=
    if seqLen = 1 then 0 else if seqLen = 2 then 1 else if seqLen = 4 then 2 else 3
  writeBytesToUInt64 seqLen := numberBytes seqLen.toNat

/-- The lengths of numbers, with room for the number. -/
theorem minSeqLength_mem (seq : UInt64) :
    publicHeader.getMinSeqLength seq ∈ [1, 2, 4, (6 : UInt8)] ∧
      (seq.toNat < 2 ^ 48 → seq.toNat < 256 ^ (publicHeader.getMinSeqLength seq).toNat) := by
  simp only [publicHeader, UInt64.lt_iff_toNat_lt]
  split_ifs with one two four
  · exact ⟨by decide, fun _ => one⟩
  · exact ⟨by decide, fun _ => two⟩
  · exact ⟨by decide, fun _ => four⟩
  · exact ⟨by decide, id⟩

theorem minSeqLength_cases (seq : UInt64) :
    publicHeader.getMinSeqLength seq = 1 ∨ publicHeader.getMinSeqLength seq = 2 ∨
      publicHeader.getMinSeqLength seq = 4 ∨ publicHeader.getMinSeqLength seq = 6 := by
  simpa using (minSeqLength_mem seq).1

theorem publicHeader_lawful : publicHeader.Lawful where
  flags_lt seq := by
    rcases minSeqLength_cases seq with length | length | length | length <;>
      rw [length] <;> decide
  length_flags seq := by
    rcases minSeqLength_cases seq with length | length | length | length <;>
      rw [length] <;> decide
  short seq := by
    rcases minSeqLength_cases seq with length | length | length | length <;>
      rw [length] <;> decide
  length_write seq := length_numberBytes _ _
  reads seq small := by
    have holds := (minSeqLength_mem seq).2 small
    generalize publicHeader.getMinSeqLength seq = seqLen at holds
    let get (buf : List UInt8) : UInt64 :=
      (buf.take seqLen.toNat).foldl (fun seq byte => seq * 256 + byte.toUInt64) 0
    have value (rest : List UInt8) : get (numberBytes seqLen.toNat seq ++ rest) = seq := by
      change (List.take _ _).foldl _ _ = seq
      rw [List.take_left' (length_numberBytes _ _), foldl_numberBytes holds]
    have read := reads_fixed (numberBytes seqLen.toNat seq) value
    rw [length_numberBytes] at read
    exact read.bind_pure fun read => read.getD 0

end MpVideo.V1
