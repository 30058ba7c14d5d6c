import MpVideo.V1.SegmentCodec
import MpVideo.V1.TimeBase

/-!
# Reception of the second generation

`PathReceiverV1::OnIncomingMessage` (`path_receiver_v1.cc`) takes any datagram apart. The
low four bits of the first byte say what it is; the high ones say how long the packet
number behind it is. In a stream packet everything behind the number is the video part,
which `Deserialize` reads field by field.

No read is checked. Where the datagram ends before the video part the length of that
part wraps; a field that is missing is left zero; and the size that the segment names is
believed. So a segment that is handed on is bounded if and only if the datagram is long
enough for its number, the header of the segment and the size it names, and this size is
one that the array holds (`onIncomingMessage_bounded_iff`).
-/

set_option autoImplicit false

namespace MpVideo.V1

open Wire

/-! ## What the QUIC library provides -/

/-- A reader of a fixed number of bytes: it gets its value from the front, and fails
without enough bytes. -/
structure ReadsFixed {α : Type} (read : StateM (List UInt8) (Option α)) (width : Nat)
    (get : List UInt8 → α) : Prop where
  full : ∀ buf, width ≤ buf.length → read.run buf = (some (get buf), buf.drop width)
  short : ∀ buf, buf.length < width → (read.run buf).1 = none

/-- `QuicDataReader` in network byte order. -/
structure QuicData.NetworkReader (quic : QuicData) : Prop where
  uint8 : ReadsFixed quic.uint8.read 1 fun buf => buf.getD 0 0
  uint16 : ReadsFixed quic.uint16.read 2 machGet2
  uint32 : ReadsFixed quic.uint32.read 4 machGet4
  readBytes : ∀ size, ReadsFixed (quic.readBytes size) size (List.take size)

theorem readFixed_readsFixed {α : Type} (width : Nat) (get : List UInt8 → α) :
    ReadsFixed (readFixed width get) width get where
  full _ enough := if_neg (Nat.not_lt.mpr enough)
  short _ less := congrArg Prod.fst (if_pos less)

theorem networkOrder_networkReader : networkOrder.NetworkReader :=
  ⟨readFixed_readsFixed _ _, readFixed_readsFixed _ _, readFixed_readsFixed _ _,
    fun _ => readFixed_readsFixed _ _⟩

/-- The packet number behind the flags. -/
structure QuicNumber where
  /-- `ReadSequenceNumberLength`. -/
  readSequenceNumberLength : UInt8 → UInt8
  /-- What `ReadBytesToUInt64` leaves in the number. -/
  readBytesToUInt64 : UInt8 → StateM (List UInt8) UInt64

/-! ## What is received -/

/-- `Video_Proto_V1`. -/
inductive VideoProtoV1 where
  | v1Ping | v1Pong | v1Stream | v1Padding | v1Ack
  deriving DecidableEq

/-- The value of the enumeration. -/
def VideoProtoV1.toUInt8 : VideoProtoV1 → UInt8
  | .v1Ping => 0
  | .v1Pong => 1
  | .v1Stream => 2
  | .v1Padding => 3
  | .v1Ack => 4

/-- The segment as `Deserialize` leaves it, whatever was there to read. -/
structure ReceivedSegment where
  fid : UInt32
  timestamp : UInt32
  index : UInt8
  total : UInt8
  ftype : UInt8
  sendTs : UInt16
  dataSize : UInt16
  /-- The bytes that were copied to `data`, unless they could not be read. -/
  data : Option (List UInt8)

/-- `Deserialize`. -/
def ReceivedSegment.read (quic : QuicData) : StateM (List UInt8) ReceivedSegment := do
  let fid ← quic.uint32.read
  let timestamp ← quic.uint32.read
  let index ← quic.uint8.read
  let total ← quic.uint8.read
  let ftype ← quic.uint8.read
  let sendTs ← quic.uint16.read
  let dataSize ← quic.uint16.read
  let data ← quic.readBytes (dataSize.getD 0).toNat
  return {
    fid := fid.getD 0
    timestamp := timestamp.getD 0
    index := index.getD 0
    total := total.getD 0
    ftype := ftype.getD 0
    sendTs := sendTs.getD 0
    dataSize := dataSize.getD 0
    data }

/-- The segment, if the array holds the size that it names. -/
def ReceivedSegment.segment? (received : ReceivedSegment) : Option VideoSegment :=
  if videoPacketSize < received.dataSize.toNat then none
  else some {
    fid := received.fid
    timestamp := received.timestamp
    index := received.index
    total := received.total
    ftype := received.ftype
    sendTs := received.sendTs
    data := .clip videoPacketSize
      (received.data.getD (List.replicate received.dataSize.toNat 0)) }

/-- `VideoPacketReceiveWrapper` after `Deserialize`. -/
structure ReceivedPacket where
  receivedTs : UInt32
  firstTs : UInt32 := 0
  segment : ReceivedSegment

/-- `get_owd`. -/
def ReceivedPacket.getOwd (packet : ReceivedPacket) : UInt32 :=
  packet.receivedTs -
    (packet.segment.timestamp + packet.segment.sendTs.toUInt32 + packet.firstTs)

/-- The packet, if the array holds the size that its segment names. -/
def ReceivedPacket.wrapper? (packet : ReceivedPacket) : Option VideoPacketReceiveWrapper :=
  packet.segment.segment?.map fun segment =>
    { receivedTs := packet.receivedTs, firstTs := packet.firstTs, segment }

/-- A call that `OnIncomingMessage` makes. -/
inductive IncomingCall where
  | sendPong (sentTs : UInt32)
  | sendAck (seq : UInt64)
  | updateOneWayDelay (owd : UInt32)
  | processVideoPacket (packet : ReceivedPacket)

/-- A datagram; its length is kept in 32 bits. -/
structure Datagram where
  buf : List UInt8
  length_lt : buf.length < 2 ^ 32

namespace Datagram

/-- The length that `OnIncomingMessage` gets. -/
def len (datagram : Datagram) : UInt32 := UInt32.ofNat datagram.buf.length

theorem toNat_len (datagram : Datagram) : datagram.len.toNat = datagram.buf.length := by
  rw [len, UInt32.toNat_ofNat']
  exact Nat.mod_eq_of_lt datagram.length_lt

/-- The first byte, zero without one. -/
def publicFlags (datagram : Datagram) : UInt8 := datagram.buf.getD 0 0

/-- The datagram is a stream packet. -/
def IsStream (datagram : Datagram) : Prop :=
  datagram.publicFlags &&& 0x0F = VideoProtoV1.v1Stream.toUInt8

/-- Where the video part of a stream packet begins. -/
def offset (number : QuicNumber) (datagram : Datagram) : UInt32 :=
  (1 : UInt32) + (number.readSequenceNumberLength (datagram.publicFlags >>> 4)).toUInt32

/-- The video part. -/
def video (number : QuicNumber) (datagram : Datagram) : List UInt8 :=
  datagram.buf.drop (datagram.offset number).toNat

/-- The size that the segment of the video part names. -/
def namedSize (number : QuicNumber) (datagram : Datagram) : UInt16 :=
  machGet2 ((datagram.video number).drop 13)

end Datagram

namespace PathReceiverV1

/-- The branch of `OnIncomingMessage` for the video part of a stream packet. A part that
begins beyond the datagram is undefined (`none`): its length has wrapped. -/
def onVideo (quic : QuicData) (now : UInt32) (firstTs : Int64) (offset : UInt32)
    (datagram : Datagram) : Option (List IncomingCall) :=
  if datagram.len < offset then none
  else
    let segment := ((ReceivedSegment.read quic).run (datagram.buf.drop offset.toNat)).1
    let packet : ReceivedPacket := { receivedTs := now, segment }
    if firstTs ≠ -1 then
      let packet := { packet with firstTs := firstTs.toUInt64.toUInt32 }
      some [.updateOneWayDelay packet.getOwd, .processVideoPacket packet]
    else some [.processVideoPacket packet]

/-- `OnIncomingMessage`, with what `get_first_ts` of the sender returns: the calls that
it makes. -/
def onIncomingMessage (quic : QuicData) (number : QuicNumber) (now : UInt32) (firstTs : Int64)
    (datagram : Datagram) : Option (List IncomingCall) :=
  let (read, rest) := (quic.readBytes 1).run datagram.buf
  let publicFlags := (read.getD []).getD 0 0
  let type := publicFlags &&& 0x0F
  if type = VideoProtoV1.v1Ping.toUInt8 then
    let sentTs := (quic.uint32.read.run rest).1.getD 0
    some [.sendPong sentTs, .updateOneWayDelay (now - sentTs)]
  else if type = VideoProtoV1.v1Stream.toUInt8 ∨ type = VideoProtoV1.v1Padding.toUInt8 then
    let seqLen := number.readSequenceNumberLength (publicFlags >>> 4)
    let (seq, rest) := (number.readBytesToUInt64 seqLen).run rest
    if type = VideoProtoV1.v1Stream.toUInt8 then
      (onVideo quic now firstTs (1 + seqLen.toUInt32) datagram).map (.sendAck seq :: ·)
    else
      let sentTs := (quic.uint32.read.run rest).1.getD 0
      some [.sendAck seq, .updateOneWayDelay (now - sentTs)]
  else some []

end PathReceiverV1

/-! ## What is read of a video part -/

variable {quic : QuicData}

/-- What comes behind a program whose result is known. -/
theorem run_bind_of {σ α β : Type} {program : StateM σ α} {next : α → StateM σ β} {s s' : σ}
    {a : α} (ran : program.run s = (a, s')) : (program >>= next).run s = (next a).run s' := by
  rw [StateT.run_bind, ran]
  rfl

/-- **With a whole header the fields are the bytes in their places.** -/
theorem ReceivedSegment.read_of_full (reader : quic.NetworkReader) {video : List UInt8}
    (whole : 15 ≤ video.length) :
    ((read quic).run video).1 = {
      fid := machGet4 video
      timestamp := machGet4 (video.drop 4)
      index := (video.drop 8).getD 0 0
      total := (video.drop 9).getD 0 0
      ftype := (video.drop 10).getD 0 0
      sendTs := machGet2 (video.drop 11)
      dataSize := machGet2 (video.drop 13)
      data := ((quic.readBytes (machGet2 (video.drop 13)).toNat).run (video.drop 15)).1 } := by
  -- one fixed read from a place in the header
  have fieldAt {α : Type} {program : StateM (List UInt8) (Option α)} {width : Nat}
      {get : List UInt8 → α} (reads : ReadsFixed program width get) (place : Nat)
      (inside : place + width ≤ 15) :
      program.run (video.drop place) =
        (some (get (video.drop place)), video.drop (place + width)) := by
    rw [reads.full _ (by rw [List.length_drop]; omega), List.drop_drop]
  have fid : quic.uint32.read.run video = (some (machGet4 video), video.drop 4) :=
    reader.uint32.full video (by omega)
  rw [read, run_bind_of fid, run_bind_of (fieldAt reader.uint32 4 (by decide)),
    run_bind_of (fieldAt reader.uint8 8 (by decide)),
    run_bind_of (fieldAt reader.uint8 9 (by decide)),
    run_bind_of (fieldAt reader.uint8 10 (by decide)),
    run_bind_of (fieldAt reader.uint16 11 (by decide)),
    run_bind_of (fieldAt reader.uint16 13 (by decide))]
  rfl

/-- A segment within its array is what `VideoSegment.read` returns. -/
theorem VideoSegment.read_eq (quic : QuicData) (video : List UInt8) :
    ((VideoSegment.read quic).run video).1 = ((ReceivedSegment.read quic).run video).1.segment? :=
  rfl

/-! ## What is handed on -/

variable {number : QuicNumber} {now : UInt32} {firstTs : Int64} {datagram : Datagram}

namespace PathReceiverV1

/-- The datagram is taken apart within its bounds: the video part begins inside, and every
segment that is handed on names a size that its array holds, with so many bytes behind
its header. -/
structure Bounded (quic : QuicData) (number : QuicNumber) (now : UInt32) (firstTs : Int64)
    (datagram : Datagram) : Prop where
  noWrap : datagram.IsStream → datagram.offset number ≤ datagram.len
  handed : ∀ calls, onIncomingMessage quic number now firstTs datagram = some calls →
    ∀ packet, .processVideoPacket packet ∈ calls →
      packet.segment.dataSize.toNat ≤ videoPacketSize ∧
        15 + packet.segment.dataSize.toNat ≤ (datagram.video number).length

/-- The flags are the first byte, zero without one. -/
theorem publicFlags_eq (reader : quic.NetworkReader) (datagram : Datagram) :
    (((quic.readBytes 1).run datagram.buf).1.getD []).getD 0 0 = datagram.publicFlags := by
  rw [Datagram.publicFlags]
  cases datagram.buf with
  | nil =>
      rw [(reader.readBytes 1).short [] Nat.zero_lt_one]
      rfl
  | cons first rest =>
      rw [(reader.readBytes 1).full (first :: rest) (by simp)]
      rfl

/-- A stream packet is acknowledged, and its video part is taken. -/
theorem onIncomingMessage_stream (reader : quic.NetworkReader) (stream : datagram.IsStream)
    (number : QuicNumber) (now : UInt32) (firstTs : Int64) :
    ∃ seq, onIncomingMessage quic number now firstTs datagram =
      (onVideo quic now firstTs (datagram.offset number) datagram).map (.sendAck seq :: ·) := by
  have notPing : ¬ VideoProtoV1.v1Stream.toUInt8 = VideoProtoV1.v1Ping.toUInt8 := by decide
  have flags := publicFlags_eq reader datagram
  rw [Datagram.IsStream] at stream
  rw [onIncomingMessage]
  generalize (quic.readBytes 1).run datagram.buf = first at flags ⊢
  obtain ⟨read, rest⟩ := first
  simp only [flags, stream, if_neg notPing, true_or, if_true]
  exact ⟨_, rfl⟩

/-- Nothing else hands a segment on. -/
theorem onIncomingMessage_other (reader : quic.NetworkReader) (other : ¬ datagram.IsStream)
    {calls : List IncomingCall}
    (received : onIncomingMessage quic number now firstTs datagram = some calls)
    (packet : ReceivedPacket) : .processVideoPacket packet ∉ calls := by
  have flags := publicFlags_eq reader datagram
  rw [Datagram.IsStream] at other
  rw [onIncomingMessage] at received
  generalize (quic.readBytes 1).run datagram.buf = first at flags received
  obtain ⟨read, rest⟩ := first
  simp only [flags, if_neg other] at received
  split_ifs at received
  · obtain rfl := Option.some.inj received
    simp
  · obtain rfl := Option.some.inj received
    simp
  · obtain rfl := Option.some.inj received
    simp

/-- The packet of the video part. -/
def videoPacket (quic : QuicData) (number : QuicNumber) (now : UInt32) (firstTs : Int64)
    (datagram : Datagram) : ReceivedPacket where
  receivedTs := now
  firstTs := if firstTs ≠ -1 then firstTs.toUInt64.toUInt32 else 0
  segment := ((ReceivedSegment.read quic).run (datagram.video number)).1

/-- A stream packet that is long enough for its number hands on this packet. -/
theorem mem_onIncomingMessage (reader : quic.NetworkReader) (stream : datagram.IsStream)
    (inside : datagram.offset number ≤ datagram.len) (now : UInt32) (firstTs : Int64) :
    ∃ calls, onIncomingMessage quic number now firstTs datagram = some calls ∧
      ∀ packet, .processVideoPacket packet ∈ calls ↔
        packet = videoPacket quic number now firstTs datagram := by
  obtain ⟨seq, received⟩ := onIncomingMessage_stream reader stream number now firstTs
  have begins : ¬ datagram.len < datagram.offset number := UInt32.not_lt.mpr inside
  rw [received, onVideo, if_neg begins, videoPacket]
  split_ifs with known
  · exact ⟨_, rfl, fun packet => by simp [Datagram.video]⟩
  · exact ⟨_, rfl, fun packet => by simp [Datagram.video]⟩

/-- Where the array holds the size, this is the packet of `onStream`. -/
theorem onStream_eq (mpsender : Option MpSenderV1) :
    onStream quic now mpsender (datagram.video number) =
      (videoPacket quic number now (PathSenderV1.getFirstTs mpsender) datagram).wrapper? := by
  simp only [onStream, VideoPacketReceiveWrapper.deserialize, VideoSegment.read_eq,
    ReceivedPacket.wrapper?, videoPacket, Option.map_map]
  congr 1
  funext segment
  simp only [Function.comp_apply, VideoPacketReceiveWrapper.setFirstTs]
  split_ifs
  · rfl
  · rfl

/-- **What is handed on is the packet of `onStream`**, where the array holds the size that its
segment names. -/
theorem handsOn_onStream (reader : quic.NetworkReader) (stream : datagram.IsStream)
    (inside : datagram.offset number ≤ datagram.len) (now : UInt32)
    (mpsender : Option MpSenderV1) :
    ∃ calls, onIncomingMessage quic number now (PathSenderV1.getFirstTs mpsender) datagram =
        some calls ∧
      ∀ packet, .processVideoPacket packet ∈ calls →
        packet.wrapper? = onStream quic now mpsender (datagram.video number) := by
  obtain ⟨calls, received, processed⟩ :=
    mem_onIncomingMessage reader stream inside now (PathSenderV1.getFirstTs mpsender)
  refine ⟨calls, received, fun packet member => ?_⟩
  rw [(processed packet).mp member, onStream_eq]

/-- **A datagram is taken apart within its bounds if and only if** it is no stream packet,
or it is long enough for its number, a header and the size that the header names, and the
array holds this size. -/
theorem onIncomingMessage_bounded_iff (reader : quic.NetworkReader) (number : QuicNumber)
    (now : UInt32) (firstTs : Int64) (datagram : Datagram) :
    Bounded quic number now firstTs datagram ↔
      ¬ datagram.IsStream ∨
        (datagram.namedSize number).toNat ≤ videoPacketSize ∧
          (datagram.offset number).toNat + 15 + (datagram.namedSize number).toNat ≤
            datagram.buf.length := by
  by_cases stream : datagram.IsStream
  · rw [or_iff_right (not_not_intro stream)]
    have length : (datagram.video number).length =
        datagram.buf.length - (datagram.offset number).toNat := List.length_drop
    have named (whole : 15 ≤ (datagram.video number).length) :
        ((ReceivedSegment.read quic).run (datagram.video number)).1.dataSize =
          datagram.namedSize number := by
      rw [ReceivedSegment.read_of_full reader whole]
      rfl
    constructor
    · rintro ⟨noWrap, handed⟩
      obtain ⟨calls, received, hands⟩ :=
        mem_onIncomingMessage reader stream (noWrap stream) now firstTs
      obtain ⟨holds, present⟩ := handed calls received _ ((hands _).mpr rfl)
      have size : (videoPacket quic number now firstTs datagram).segment.dataSize =
          datagram.namedSize number := named (by omega)
      rw [size] at holds present
      exact ⟨holds, by omega⟩
    · rintro ⟨holds, present⟩
      have inside : datagram.offset number ≤ datagram.len := by
        rw [UInt32.le_iff_toNat_le, datagram.toNat_len]
        omega
      refine ⟨fun _ => inside, fun calls received packet member => ?_⟩
      obtain ⟨calls', received', hands⟩ :=
        mem_onIncomingMessage reader stream inside now firstTs
      obtain rfl := Option.some.inj (received.symm.trans received')
      have size : packet.segment.dataSize = datagram.namedSize number := by
        rw [(hands packet).mp member]
        exact named (by omega)
      rw [size]
      exact ⟨holds, by omega⟩
  · refine iff_of_true ⟨fun isStream => absurd isStream stream, ?_⟩ (.inl stream)
    intro calls received packet member
    exact absurd member (onIncomingMessage_other reader stream received packet)

/-- The number of a public header: one, two, four or six bytes, the most significant
first. -/
def publicHeader : QuicNumber where
  readSequenceNumberLength flags :=
    if flags &&& 3 = 0 then 1 else if flags &&& 3 = 1 then 2 else if flags &&& 3 = 2 then 4 else 6
  readBytesToUInt64 seqLen := do
    let seq ← readFixed seqLen.toNat fun buf =>
      (buf.take seqLen.toNat).foldl (fun seq byte => seq * 256 + byte.toUInt64) 0
    return seq.getD 0

/-- A stream packet with number 1 and a segment of three bytes. -/
def wholeDatagram : Datagram :=
  ⟨[2, 1, 0, 0, 0, 1, 0, 0, 0, 40, 0, 1, 0, 0, 10, 0, 3, 7, 8, 9], by decide⟩

theorem wholeDatagram_bounded : Bounded networkOrder publicHeader 250 100 wholeDatagram :=
  (onIncomingMessage_bounded_iff networkOrder_networkReader publicHeader 250 100
    wholeDatagram).mpr (.inr (by decide))

/-- One byte that says stream packet. -/
def flagsOnly : Datagram := ⟨[2], by decide⟩

/-- The number of the packet would begin where it ends, and the length wraps. -/
theorem flagsOnly_wraps : ¬ Bounded networkOrder publicHeader 250 100 flagsOnly := by
  intro bounded
  have inside : flagsOnly.offset publicHeader ≤ flagsOnly.len := bounded.noWrap rfl
  exact absurd inside (by decide)

end PathReceiverV1

end MpVideo.V1
