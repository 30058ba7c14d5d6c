import MpVideo.Lib.Tape
import MpVideo.Wire.Proto

/-!
# Video packets of the second generation

`video_proto.h` and `video_proto.cc`: a packet of the sender carries a segment of a
frame (`VideoPacketWrapper`), and is written and read field by field with the data
writer and the data reader of a QUIC library. The library is a parameter (`QuicData`):
what is known about it is that each reader returns what the writer of the same type
wrote.

Whatever a packet went through before it is written, the receiver reads the timestamp
that its segment was made with (`deserialize_serialize`).
-/

set_option autoImplicit false

namespace MpVideo.V1

open Wire

/-! ## Data writer and data reader -/

/-- Bytes that are read from the front. -/
def bytes : Tape (List UInt8) UInt8 where
  unread := id
  advance := List.drop
  unread_advance _ _ := rfl
  advance_zero _ := List.drop_zero
  advance_add m n s := by rw [List.drop_drop]

/-- A writer and a reader for values of one type. A reader that fails returns `none`. -/
structure DataField (α : Type) where
  write : α → List UInt8
  read : StateM (List UInt8) (Option α)
  reads_write : ∀ value, bytes.Reads read (write value) (some value)

/-- `QuicDataWriter` and `QuicDataReader` in network byte order. -/
structure QuicData where
  uint8 : DataField UInt8
  uint16 : DataField UInt16
  uint32 : DataField UInt32
  /-- `ReadBytes`, of a given number of bytes. -/
  readBytes : Nat → StateM (List UInt8) (Option (List UInt8))
  reads_bytes : ∀ data : List UInt8, bytes.Reads (readBytes data.length) data (some data)

/-- A reader of a fixed number of bytes. A failure leaves nothing to read. -/
def readFixed {α : Type} (width : Nat) (get : List UInt8 → α) : StateM (List UInt8) (Option α) :=
  fun buf => if buf.length < width then (none, []) else (some (get buf), buf.drop width)

theorem reads_fixed {α : Type} {get : List UInt8 → α} {value : α} (data : List UInt8)
    (inverse : ∀ rest, get (data ++ rest) = value) :
    bytes.Reads (readFixed data.length get) data (some value) := by
  rintro buf ⟨rest, rfl⟩
  have enough : ¬ (data ++ rest).length < data.length := by
    rw [List.length_append]
    omega
  change readFixed data.length get (data ++ rest) = _
  rw [readFixed, if_neg enough, inverse]
  rfl

/-- The most significant byte first. -/
def networkOrder : QuicData where
  uint8 := ⟨fun value => [value], readFixed 1 fun buf => buf.getD 0 0,
    fun value => reads_fixed [value] fun _ => rfl⟩
  uint16 := ⟨machPut2, readFixed 2 machGet2, fun value =>
    reads_fixed (machPut2 value) (machGet2_put value)⟩
  uint32 := ⟨machPut4, readFixed 4 machGet4, fun value =>
    reads_fixed (machPut4 value) (machGet4_put value)⟩
  readBytes size := readFixed size (List.take size)
  reads_bytes data := reads_fixed data fun _ => List.take_left

/-! ## Segments -/

/-- `VIDEO_PACKET_SIZE`. -/
def videoPacketSize : Nat := 1000
/-- `VIDEO_SEGMENT_HEADER_SIZE`. -/
def videoSegmentHeaderSize : UInt32 := 15

/-- `video_segment_t`. -/
structure VideoSegment where
  fid : UInt32
  timestamp : UInt32
  index : UInt8
  total : UInt8
  ftype : UInt8
  sendTs : UInt16
  data : Payload videoPacketSize

namespace VideoSegment

/-- The fields in the order in which `Serialize` writes them. -/
def write (quic : QuicData) (segment : VideoSegment) : List UInt8 :=
  quic.uint32.write segment.fid ++ (quic.uint32.write segment.timestamp ++
    (quic.uint8.write segment.index ++ (quic.uint8.write segment.total ++
      (quic.uint8.write segment.ftype ++ (quic.uint16.write segment.sendTs ++
        (quic.uint16.write (UInt16.ofNat segment.data.size) ++ segment.data.bytes))))))

/-- The fields in the order in which `Deserialize` reads them. A field that cannot be
read stays zero; more data than the array holds is undefined (`none`). -/
def read (quic : QuicData) : StateM (List UInt8) (Option VideoSegment) := do
  let fid ← quic.uint32.read
  let timestamp ← quic.uint32.read
  let index ← quic.uint8.read
  let total ← quic.uint8.read
  let ftype ← quic.uint8.read
  let sendTs ← quic.uint16.read
  let dataSize ← quic.uint16.read
  let size := (dataSize.getD 0).toNat
  let data ← quic.readBytes size
  return if videoPacketSize < size then none else some {
    fid := fid.getD 0
    timestamp := timestamp.getD 0
    index := index.getD 0
    total := total.getD 0
    ftype := ftype.getD 0
    sendTs := sendTs.getD 0
    data := .clip videoPacketSize (data.getD (List.replicate size 0)) }

/-- **A segment that is written is read again.** -/
theorem reads_write (quic : QuicData) (segment : VideoSegment) :
    bytes.Reads (read quic) (segment.write quic) (some segment) := by
  have size : (UInt16.ofNat segment.data.size).toNat = segment.data.bytes.length := by
    rw [UInt16.toNat_ofNat']
    exact Nat.mod_eq_of_lt (Nat.lt_of_le_of_lt segment.data.bounded (by decide))
  have fits : ¬ videoPacketSize < segment.data.bytes.length := Nat.not_lt.mpr segment.data.bounded
  have data : bytes.Reads (quic.readBytes (UInt16.ofNat segment.data.size).toNat)
      segment.data.bytes (some segment.data.bytes) := by
    rw [size]
    exact quic.reads_bytes segment.data.bytes
  refine (quic.uint32.reads_write _).bind ((quic.uint32.reads_write _).bind
    ((quic.uint8.reads_write _).bind ((quic.uint8.reads_write _).bind
      ((quic.uint8.reads_write _).bind ((quic.uint16.reads_write _).bind
        ((quic.uint16.reads_write _).bind ?_))))))
  rw [← List.append_nil segment.data.bytes]
  refine data.bind ?_
  simp only [Option.getD_some, size, if_neg fits, Payload.clip_bytes]
  exact Tape.Reads.pure _

end VideoSegment

/-! ## Packets of the sender -/

/-- `VideoPacketWrapper`. -/
structure VideoPacketWrapper where
  packetId : UInt32
  timestamp : UInt32 := 0
  generateTs : UInt32 := 0
  refTime : UInt32
  sendTs : Int64 := -1
  ftype : Int16 := -1
  segment : Option VideoSegment := none
  payloadSize : UInt32 := 0
  enqueueTs : UInt32 := 0

namespace VideoPacketWrapper

/-- `OnNewSegment`. -/
def onNewSegment (seg : VideoSegment) (now : UInt32) (packet : VideoPacketWrapper) :
    VideoPacketWrapper :=
  if packet.segment.isSome then packet
  else
    { packet with
      segment := some seg
      timestamp := seg.timestamp
      generateTs := now
      ftype := seg.ftype.toUInt16.toInt16
      payloadSize := videoSegmentHeaderSize + UInt32.ofNat seg.data.size }

/-- `set_enqueue_time`. -/
def setEnqueueTime (now : UInt32) (packet : VideoPacketWrapper) : VideoPacketWrapper :=
  { packet with enqueueTs := now }

/-- `Serialize` into a buffer of `len` bytes; `none` is the return value `-1`. -/
def serialize (quic : QuicData) (len now : UInt32) (packet : VideoPacketWrapper) :
    Option (List UInt8) × VideoPacketWrapper :=
  let packet :=
    { packet with sendTs := (now - packet.refTime - packet.timestamp).toUInt64.toInt64 }
  match packet.segment with
  | none => (none, packet)
  | some segment =>
      let segment := { segment with sendTs := packet.sendTs.toUInt64.toUInt16 }
      let packet := { packet with segment := some segment }
      if packet.payloadSize > len then (none, packet) else (some (segment.write quic), packet)

end VideoPacketWrapper

/-! ## Packets of the receiver -/

/-- `VideoPacketReceiveWrapper` after `Deserialize`. -/
structure VideoPacketReceiveWrapper where
  receivedTs : UInt32
  firstTs : UInt32 := 0
  segment : VideoSegment

namespace VideoPacketReceiveWrapper

/-- A new packet, and `Deserialize`. -/
def deserialize (quic : QuicData) (receivedTs : UInt32) (buf : List UInt8) :
    Option VideoPacketReceiveWrapper :=
  ((VideoSegment.read quic).run buf).1.map fun segment => { receivedTs, segment }

/-- `set_first_ts`. -/
def setFirstTs (firstTs : UInt32) (packet : VideoPacketReceiveWrapper) :
    VideoPacketReceiveWrapper :=
  { packet with firstTs }

/-- `get_index`. -/
def getIndex (packet : VideoPacketReceiveWrapper) : Int16 := packet.segment.index.toUInt16.toInt16

/-- `get_frame_timestamp`. -/
def getFrameTimestamp (packet : VideoPacketReceiveWrapper) : UInt32 :=
  packet.segment.timestamp + packet.firstTs

end VideoPacketReceiveWrapper

/-! ## What arrives -/

/-- What happens to a packet before it is received: it enters a queue, or it is sent. -/
inductive PacketEvent where
  | setEnqueueTime (now : UInt32)
  | serialize (len now : UInt32)

/-- The packet after an event. -/
def VideoPacketWrapper.after (quic : QuicData) (packet : VideoPacketWrapper) :
    PacketEvent → VideoPacketWrapper
  | .setEnqueueTime now => packet.setEnqueueTime now
  | .serialize len now => (packet.serialize quic len now).2

/-- The packet carries a segment with this timestamp. -/
def VideoPacketWrapper.Stamped (timestamp : UInt32) (packet : VideoPacketWrapper) : Prop :=
  ∃ segment, packet.segment = some segment ∧ segment.timestamp = timestamp

variable {quic : QuicData} {packet : VideoPacketWrapper} {timestamp : UInt32}

theorem VideoPacketWrapper.Stamped.after (stamped : packet.Stamped timestamp)
    (event : PacketEvent) : (packet.after quic event).Stamped timestamp := by
  obtain ⟨segment, carried, same⟩ := stamped
  cases event with
  | setEnqueueTime now => exact ⟨segment, carried, same⟩
  | serialize len now =>
      simp only [VideoPacketWrapper.after, VideoPacketWrapper.serialize, carried]
      split_ifs
      · exact ⟨_, rfl, same⟩
      · exact ⟨_, rfl, same⟩

/-- The timestamp stays the same in the queues and over retransmissions. -/
theorem VideoPacketWrapper.Stamped.foldl_after (stamped : packet.Stamped timestamp)
    (events : List PacketEvent) :
    (events.foldl (VideoPacketWrapper.after quic) packet).Stamped timestamp := by
  induction events generalizing packet with
  | nil => exact stamped
  | cons event rest ih => exact ih (stamped.after event)

/-- **The receiver reads the timestamp of the segment.** -/
theorem deserialize_serialize (stamped : packet.Stamped timestamp) {len now : UInt32}
    {buf : List UInt8} (sent : (packet.serialize quic len now).1 = some buf)
    (receivedTs : UInt32) :
    ∃ received, VideoPacketReceiveWrapper.deserialize quic receivedTs buf = some received ∧
      received.segment.timestamp = timestamp := by
  obtain ⟨segment, carried, same⟩ := stamped
  simp only [VideoPacketWrapper.serialize, carried] at sent
  split_ifs at sent with large
  obtain rfl := Option.some.inj sent
  have ran := VideoSegment.reads_write quic { segment with
    sendTs := (now - packet.refTime - packet.timestamp).toUInt64.toInt64.toUInt64.toUInt16 } _
    List.prefix_rfl
  exact ⟨_, congrArg (Option.map _) (congrArg Prod.fst ran), same⟩

end MpVideo.V1
