import MpVideo.Lib.MachineInt
import MpVideo.Lib.SortedMap

/-!
# The bandwidth sampler

`congestion/sampler.cc`: every packet that is sent leaves a snapshot of the sampler in
`packet_infos_`. When the packet is acknowledged at the end of a round, the snapshot gives
the bytes and the span of time on the side of the sender and on the side of the receiver.

A time is a number of microseconds, and zero is `QuicTime::Zero()`. A rate stays the pair
that `FromBytesAndTimeDelta` gets. The member `last_sent_packet_` is never read.
-/

set_option autoImplicit false

namespace MpVideo.Congestion

/-- `QuicTime` and `QuicTime::Delta`, in microseconds. -/
abbrev QuicTime := Int

/-- `PacketState`. -/
structure PacketState where
  sentTime : QuicTime
  size : UInt64
  totalBytesSent : UInt64
  totalBytesSentAtLastAckedPacket : UInt64
  lastAckedPacketSentTime : QuicTime
  lastAckedPacketAckTime : QuicTime
  totalBytesAckedAtTheLastAckedPacket : UInt64
  deriving DecidableEq

/-- The members of `MySampler`. -/
structure MySampler where
  totalBytesSent : UInt64 := 0
  totalBytesAcked : UInt64 := 0
  totalBytesSentAtLastAckedPacket : UInt64 := 0
  lastAckedPacketSentTime : QuicTime := 0
  lastAckedPacketAckTime : QuicTime := 0
  packetInfos : SortedMap UInt64 PacketState := .empty

/-- The arguments of `QuicBandwidth::FromBytesAndTimeDelta`. -/
structure Rate where
  bytes : UInt64
  delta : QuicTime
  deriving DecidableEq

/-- A sample is the smaller one of two rates; without a send rate, that one is
`QuicBandwidth::Infinite()`. -/
structure Sample where
  sendRate : Option Rate
  ackRate : Rate
  deriving DecidableEq

namespace MySampler

/-- The constructor of `PacketState` that takes a snapshot of the sampler. -/
def snapshot (sentTime : QuicTime) (size : UInt64) (sampler : MySampler) : PacketState where
  sentTime := sentTime
  size := size
  totalBytesSent := sampler.totalBytesSent
  totalBytesSentAtLastAckedPacket := sampler.totalBytesSentAtLastAckedPacket
  lastAckedPacketSentTime := sampler.lastAckedPacketSentTime
  lastAckedPacketAckTime := sampler.lastAckedPacketAckTime
  totalBytesAckedAtTheLastAckedPacket := sampler.totalBytesAcked

/-- `OnPacketSent`. -/
def onPacketSent (sentTime : QuicTime) (packetNumber bytes bytesInFlight : UInt64)
    (sampler : MySampler) : MySampler :=
  let sampler := { sampler with totalBytesSent := sampler.totalBytesSent + bytes }
  let sampler :=
    if bytesInFlight = 0 then
      { sampler with
        lastAckedPacketAckTime := sentTime
        totalBytesSentAtLastAckedPacket := sampler.totalBytesSent
        lastAckedPacketSentTime := sentTime }
    else sampler
  { sampler with
    packetInfos := sampler.packetInfos.insert packetNumber (sampler.snapshot sentTime bytes) }

/-- `PacketInfoRemove`. -/
def packetInfoRemove (seq : UInt64) (sampler : MySampler) : MySampler :=
  { sampler with packetInfos := sampler.packetInfos.erase seq }

/-- `OnPacketLost`. -/
def onPacketLost (packetNumber : UInt64) (sampler : MySampler) : MySampler :=
  sampler.packetInfoRemove packetNumber

/-- The sample that `OnPacketAcknowledgedInner` forms from the snapshot of the packet, once
its totals are up to date; `none` is `QuicBandwidth::Zero()`. -/
def sample (ackTime : QuicTime) (sentPacket : PacketState) (roundUpdate : Bool)
    (sampler : MySampler) : Option Sample :=
  if ¬ roundUpdate then none
  else if sentPacket.lastAckedPacketSentTime = 0 then none
  else if ackTime ≤ sentPacket.lastAckedPacketAckTime then none
  else some {
    sendRate :=
      if sentPacket.lastAckedPacketSentTime < sentPacket.sentTime then some {
        bytes := sentPacket.totalBytesSent - sentPacket.totalBytesSentAtLastAckedPacket
        delta := sentPacket.sentTime - sentPacket.lastAckedPacketSentTime }
      else none
    ackRate := {
      bytes := sampler.totalBytesAcked - sentPacket.totalBytesAckedAtTheLastAckedPacket
      delta := ackTime - sentPacket.lastAckedPacketAckTime } }

/-- `OnPacketAcknowledgedInner`. -/
def onPacketAcknowledgedInner (ackTime : QuicTime) (sentPacket : PacketState)
    (roundUpdate : Bool) (sampler : MySampler) : MySampler × Option Sample :=
  let sampler := { sampler with
    totalBytesAcked := sampler.totalBytesAcked + sentPacket.size
    totalBytesSentAtLastAckedPacket := sentPacket.totalBytesSent
    lastAckedPacketSentTime := sentPacket.sentTime
    lastAckedPacketAckTime := ackTime }
  (sampler, sampler.sample ackTime sentPacket roundUpdate)

/-- `OnPacketAcknowledged`. -/
def onPacketAcknowledged (ackTime : QuicTime) (packetNumber : UInt64) (roundUpdate : Bool)
    (sampler : MySampler) : MySampler × Option Sample :=
  match sampler.packetInfos.find? packetNumber with
  | none => (sampler, none)
  | some state =>
      let (sampler, bw) := sampler.onPacketAcknowledgedInner ackTime state roundUpdate
      (sampler.packetInfoRemove packetNumber, bw)

/-! ## Which packets the sampler knows -/

@[simp] theorem packetInfos_onPacketSent (sentTime : QuicTime)
    (packetNumber bytes bytesInFlight seq : UInt64) (sampler : MySampler) :
    seq ∈ (sampler.onPacketSent sentTime packetNumber bytes bytesInFlight).packetInfos.keys ↔
      seq = packetNumber ∨ seq ∈ sampler.packetInfos.keys := by
  unfold onPacketSent
  split_ifs <;> exact SortedMap.mem_keys_insert

@[simp] theorem packetInfos_onPacketLost (packetNumber seq : UInt64) (sampler : MySampler) :
    seq ∈ (sampler.onPacketLost packetNumber).packetInfos.keys ↔
      seq ∈ sampler.packetInfos.keys ∧ seq ≠ packetNumber :=
  SortedMap.mem_keys_erase

@[simp] theorem packetInfos_onPacketAcknowledged (ackTime : QuicTime)
    (packetNumber seq : UInt64) (roundUpdate : Bool) (sampler : MySampler) :
    seq ∈ (sampler.onPacketAcknowledged ackTime packetNumber roundUpdate).1.packetInfos.keys ↔
      seq ∈ sampler.packetInfos.keys ∧ seq ≠ packetNumber := by
  cases known : sampler.packetInfos.find? packetNumber with
  | some state =>
      rw [onPacketAcknowledged, known]
      exact SortedMap.mem_keys_erase
  | none =>
      rw [onPacketAcknowledged, known]
      refine ⟨fun present => ⟨present, ?_⟩, And.left⟩
      rintro rfl
      obtain ⟨state, found⟩ := SortedMap.mem_keys_iff.mp present
      simp [known] at found

end MySampler

end MpVideo.Congestion
