import MpVideo.V1.VideoProto

/-!
# The segment codec of the second generation

Four places agree about a segment. `OnNewSegment` computes the size that the queues
account for; `Serialize` writes the fields and notes the send time as a 16-bit offset
from the time of the frame; `Deserialize` reads the fields again; and `get_owd` adds
the offset to the timestamp and the reference time of the sender.

A packet keeps its segment, its timestamp and its size through the queues and over
retransmissions (`CarriesSegment.foldl_after`), so every time it is sent it is
written in as many bytes as were accounted for, is read as the same segment, and has the
delay since it was sent (`serialize_round_trip`).
-/

set_option autoImplicit false

namespace MpVideo.V1

open Wire

/-- Integers are stored in their width, the most significant byte first. -/
structure QuicData.BigEndian (quic : QuicData) : Prop where
  uint8 : ∀ value, quic.uint8.write value = [value]
  uint16 : ∀ value, quic.uint16.write value = machPut2 value
  uint32 : ∀ value, quic.uint32.write value = machPut4 value

theorem networkOrder_bigEndian : networkOrder.BigEndian :=
  ⟨fun _ => rfl, fun _ => rfl, fun _ => rfl⟩

/-! ## The delay -/

namespace VideoPacketReceiveWrapper

/-- The send time that `get_owd` notes in `sent_ts_`. -/
def getSentTs (packet : VideoPacketReceiveWrapper) : UInt32 :=
  packet.segment.timestamp + packet.segment.sendTs.toUInt32 + packet.firstTs

/-- `get_owd`. -/
def getOwd (packet : VideoPacketReceiveWrapper) : UInt32 := packet.receivedTs - packet.getSentTs

end VideoPacketReceiveWrapper

/-- An offset of 16 bits, added to what it was taken from. -/
theorem offset_restored {now refTime timestamp : UInt32}
    (near : (now - refTime - timestamp).toNat < 2 ^ 16) :
    timestamp + (now - refTime - timestamp).toUInt16.toUInt32 + refTime = now := by
  have whole : (now - refTime - timestamp).toUInt16.toUInt32 = now - refTime - timestamp := by
    rw [← UInt32.toNat_inj, UInt16.toNat_toUInt32, UInt32.toNat_toUInt16]
    exact Nat.mod_eq_of_lt near
  rw [whole, UInt32.add_comm timestamp, UInt32.sub_add_cancel, UInt32.sub_add_cancel]

/-! ## The size -/

/-- The fields take the fifteen bytes of the header. -/
theorem VideoSegment.length_write {quic : QuicData} (bigEndian : quic.BigEndian)
    (segment : VideoSegment) :
    (segment.write quic).length =
      (videoSegmentHeaderSize + UInt32.ofNat segment.data.size).toNat := by
  have bounded : segment.data.bytes.length ≤ 1000 := segment.data.bounded
  have size : (videoSegmentHeaderSize + UInt32.ofNat segment.data.size).toNat =
      15 + segment.data.bytes.length := by
    rw [UInt32.toNat_add, UInt32.toNat_ofNat', Payload.size, videoSegmentHeaderSize]
    simp only [UInt32.reduceToNat]
    omega
  rw [size]
  simp only [write, bigEndian.uint8, bigEndian.uint16, bigEndian.uint32, List.length_append,
    List.length_singleton, length_machPut2, length_machPut4]
  omega

/-! ## What happens to a packet -/

/-- What `OnNewSegment` made of a segment, whatever the send time is now. -/
structure CarriesSegment (seg : VideoSegment) (refTime : UInt32) (packet : VideoPacketWrapper) :
    Prop where
  segment : ∃ sendTs, packet.segment = some { seg with sendTs }
  timestamp : packet.timestamp = seg.timestamp
  refTime : packet.refTime = refTime
  payloadSize : packet.payloadSize = videoSegmentHeaderSize + UInt32.ofNat seg.data.size

/-- A packet that got a segment, after what happened to it since. -/
def packetAfter (quic : QuicData) (packetId refTime : UInt32) (seg : VideoSegment)
    (generated : UInt32) (events : List PacketEvent) : VideoPacketWrapper :=
  events.foldl (VideoPacketWrapper.after quic)
    (({ packetId, refTime } : VideoPacketWrapper).onNewSegment seg generated)

variable {quic : QuicData} {seg : VideoSegment} {refTime : UInt32} {packet : VideoPacketWrapper}

theorem carriesSegment_onNewSegment (seg : VideoSegment) (packetId refTime generated : UInt32) :
    CarriesSegment seg refTime
      (({ packetId, refTime } : VideoPacketWrapper).onNewSegment seg generated) :=
  ⟨⟨seg.sendTs, rfl⟩, rfl, rfl, rfl⟩

/-- One event leaves a packet with its segment. -/
theorem CarriesSegment.after (carries : CarriesSegment seg refTime packet) (event : PacketEvent) :
    CarriesSegment seg refTime (packet.after quic event) := by
  obtain ⟨⟨sendTs, carried⟩, timestamp, ref, payloadSize⟩ := carries
  cases event with
  | setEnqueueTime now => exact ⟨⟨sendTs, carried⟩, timestamp, ref, payloadSize⟩
  | serialize len now =>
      simp only [VideoPacketWrapper.after, VideoPacketWrapper.serialize, carried]
      split_ifs
      · exact ⟨⟨_, rfl⟩, timestamp, ref, payloadSize⟩
      · exact ⟨⟨_, rfl⟩, timestamp, ref, payloadSize⟩

/-- Queues and retransmissions leave a packet with its segment. -/
theorem CarriesSegment.foldl_after (carries : CarriesSegment seg refTime packet)
    (events : List PacketEvent) :
    CarriesSegment seg refTime (events.foldl (VideoPacketWrapper.after quic) packet) := by
  induction events generalizing packet with
  | nil => exact carries
  | cons event rest ih => exact ih (carries.after event)

/-- What is written is the segment with the offset of the send time. -/
theorem CarriesSegment.serialize_eq (carries : CarriesSegment seg refTime packet)
    {len : UInt32} (room : packet.payloadSize ≤ len) (now : UInt32) :
    (packet.serialize quic len now).1 = some
      (({ seg with sendTs := (now - refTime - seg.timestamp).toUInt16 } : VideoSegment).write
        quic) := by
  obtain ⟨⟨sendTs, carried⟩, timestamp, ref, -⟩ := carries
  have fits : ¬ packet.payloadSize > len := UInt32.not_lt.mpr room
  simp only [VideoPacketWrapper.serialize, carried, if_neg fits, timestamp, ref,
    UInt64.toUInt64_toInt64, UInt32.toUInt16_toUInt64]

/-- **A segment is written in the bytes it is accounted for, read as it was, and has the
delay since it was sent**, each time its packet is sent, whatever happened to the packet
before. -/
theorem serialize_round_trip (bigEndian : quic.BigEndian) (seg : VideoSegment)
    (packetId refTime generated : UInt32) (events : List PacketEvent) (len now : UInt32)
    (room : (packetAfter quic packetId refTime seg generated events).payloadSize ≤ len) :
    ∃ buf, ((packetAfter quic packetId refTime seg generated events).serialize quic len now).1 =
        some buf ∧
      buf.length = (packetAfter quic packetId refTime seg generated events).payloadSize.toNat ∧
      ∀ receivedTs, ∃ received,
        VideoPacketReceiveWrapper.deserialize quic receivedTs buf = some received ∧
          received.segment = { seg with sendTs := received.segment.sendTs } ∧
          (refTime.toNat + seg.timestamp.toNat ≤ now.toNat →
            now.toNat - refTime.toNat - seg.timestamp.toNat < 2 ^ 16 →
              (received.setFirstTs refTime).getOwd = receivedTs - now) := by
  have carries : CarriesSegment seg refTime
      (packetAfter quic packetId refTime seg generated events) :=
    (carriesSegment_onNewSegment seg packetId refTime generated).foldl_after events
  refine ⟨_, carries.serialize_eq room now, ?_, ?_⟩
  · rw [carries.payloadSize]
    exact VideoSegment.length_write bigEndian _
  · intro receivedTs
    have read := VideoSegment.reads_write quic
      { seg with sendTs := (now - refTime - seg.timestamp).toUInt16 } _ List.prefix_rfl
    refine ⟨_, congrArg (Option.map _) (congrArg Prod.fst read), rfl, ?_⟩
    intro later near
    have offset : (now - refTime - seg.timestamp).toNat =
        now.toNat - refTime.toNat - seg.timestamp.toNat := by
      have first : (now - refTime).toNat = now.toNat - refTime.toNat :=
        UInt32.toNat_sub_of_le _ _ (UInt32.le_iff_toNat_le.mpr (by omega))
      rw [UInt32.toNat_sub_of_le _ _ (UInt32.le_iff_toNat_le.mpr (by omega)), first]
    have small : (now - refTime - seg.timestamp).toNat < 2 ^ 16 := by
      rw [offset]
      exact near
    exact congrArg (receivedTs - ·) (offset_restored small)

/-- A segment of three bytes, of a frame 40 milliseconds behind the reference time. -/
def threeBytes : VideoSegment := ⟨1, 40, 0, 1, 0, 0, ⟨[7, 8, 9], by decide⟩⟩

theorem serialize_round_trip_resent :
    ∃ buf, ((packetAfter networkOrder 1 100 threeBytes 140
          [.setEnqueueTime 140, .serialize 1400 150, .setEnqueueTime 200]).serialize
        networkOrder 1400 230).1 = some buf ∧
      buf.length = (packetAfter networkOrder 1 100 threeBytes 140
        [.setEnqueueTime 140, .serialize 1400 150, .setEnqueueTime 200]).payloadSize.toNat ∧
      ∃ received, VideoPacketReceiveWrapper.deserialize networkOrder 250 buf = some received ∧
        received.segment = { threeBytes with sendTs := received.segment.sendTs } ∧
        (received.setFirstTs 100).getOwd = 250 - 230 := by
  obtain ⟨buf, written, length, reads⟩ := serialize_round_trip networkOrder_bigEndian threeBytes
    1 100 140 [.setEnqueueTime 140, .serialize 1400 150, .setEnqueueTime 200] 1400 230 (by decide)
  obtain ⟨received, read, same, delay⟩ := reads 250
  exact ⟨buf, written, length, received, read, same, delay (by decide) (by decide)⟩

end MpVideo.V1
