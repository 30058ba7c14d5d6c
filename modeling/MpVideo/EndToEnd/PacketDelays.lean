import MpVideo.EndToEnd.PacketLosses
import MpVideo.EndToEnd.RoundTrips
import MpVideo.V1.SegmentCodec

/-!
# Delays over a network

What a path of the second generation measures are times that passed. The round trip time of an
acknowledgement is that of the packet with its number, also when acknowledgements are repeated
and overtaken: once a number is acknowledged it is within the bounds of the network, and so is
every round trip time that goes with a loss (`rtt_within`).

The one-way delay goes a longer way. A stream packet carries its send time in sixteen bits,
counted from the time of its frame, and the receiver adds the reference time of the sender
again. As long as no packet waits for longer than these bits can tell, the delay that the
receiver estimates is within the bounds of the network (`owd_within`).
-/

set_option autoImplicit false

namespace MpVideo.EndToEnd

open Sender (millis millisecond)
open V1 PathSenderV1

/-! ## Round trip times -/

/-- A round trip time that the network allows. -/
def Delay.RttWithin (delay : Delay) (rtt : UInt32) : Prop :=
  delay.leastRtt ≤ rtt.toNat ∧ rtt.toNat ≤ delay.mostRtt

theorem curRtt_requeue (now : UInt32) (retrans : Retrans) (path : PathSenderV1) :
    (path.requeue now retrans).curRtt = path.curRtt := by
  induction retrans generalizing path with
  | nil => rfl
  | cons one rest ih => exact ih (path.onVideoPacket now one.1 one.2 true)

theorem curRtt_lossLoop (now rtt : UInt32) (retrans : UInt64 → Retrans) (n : ℕ) (i : UInt64)
    (path : PathSenderV1) :
    (path.lossLoop now rtt retrans n i).1.curRtt = path.curRtt ∧
      ∀ seq number time call, .lost seq (some (number, time)) call ∈
        (path.lossLoop now rtt retrans n i).2 → time = rtt := by
  induction n generalizing i path with
  | zero => exact ⟨rfl, fun _ _ _ _ member => absurd member List.not_mem_nil⟩
  | succ n ih =>
      have either (reported : Bool) :
          (if reported then path.requeue now (retrans i) else path).curRtt = path.curRtt := by
        cases reported with
        | true => exact curRtt_requeue now (retrans i) path
        | false => rfl
      have one : (path.declareLost now rtt (retrans i) i).1.curRtt = path.curRtt := either _
      obtain ⟨same, times⟩ := ih (i + 1) (path.declareLost now rtt (retrans i) i).1
      refine ⟨same.trans one, fun seq number time call member => ?_⟩
      rcases List.mem_cons.mp member with here | later
      · rw [Resolution.lost.injEq] at here
        obtain ⟨-, trace, -⟩ := here
        split_ifs at trace
        exact (Prod.mk.inj (Option.some.inj trace)).2
      · exact times seq number time call later

/-- The round trip time after an acknowledgement, and those of the losses it reveals. -/
theorem curRtt_onAck (now : UInt32) (retrans : UInt64 → Retrans) (acked : UInt64)
    (path : PathSenderV1) :
    (path.onAck now retrans acked).1.curRtt =
      ((path.seqDelayMap.find? acked).map fun (ms : Int32) => now - ms.toUInt32).getD
        path.curRtt ∧
      ∀ seq number time call, .lost seq (some (number, time)) call ∈
        (path.onAck now retrans acked).2 → time = (path.onAck now retrans acked).1.curRtt := by
  have timed : (path.updateRtt now acked).curRtt =
      ((path.seqDelayMap.find? acked).map fun (ms : Int32) => now - ms.toUInt32).getD
        path.curRtt := by
    have kept (path : PathSenderV1) : (path.updateIdDelay now acked).curRtt = path.curRtt := by
      rw [updateIdDelay]
      cases path.seqIdMap.find? acked with
      | none => rfl
      | some packetId =>
          cases found : path.idDelayMap.find? packetId with
          | none => simp only [found]
          | some since =>
              simp only [found]
              rfl
    exact kept _
  rw [← timed, onAck]
  generalize path.updateRtt now acked = started
  simp only [detectLoss]
  split_ifs
  · obtain ⟨same, times⟩ := curRtt_lossLoop now started.curRtt retrans
      (acked - (started.recvSeq + 1)).toNat (started.recvSeq + 1) started
    refine ⟨same, fun seq number time call member => ?_⟩
    rcases List.mem_append.mp member with lost | last
    · exact (times seq number time call lost).trans same.symm
    · cases List.mem_singleton.mp last
  · exact ⟨rfl, fun _ _ _ _ member => absurd member List.not_mem_nil⟩

/-- What `SendStreamPacket` leaves of a path, and where its packet comes from. -/
theorem sendStreamPacket_kept {quic : QuicData} {now : UInt32} {isRetrans : Bool}
    {path sent : PathSenderV1} {packetId : UInt32}
    (ran : path.sendStreamPacket quic now isRetrans = some (sent, packetId)) :
    sent.curRtt = path.curRtt ∧ sent.sendingQueue ⊆ path.sendingQueue ∧
      sent.resendingQueue ⊆ path.resendingQueue := by
  rw [sendStreamPacket] at ran
  split at ran
  · cases ran
  · next packet rest queue =>
      split at ran
      · cases ran
      · cases ran
        cases isRetrans with
        | true =>
            have same : path.resendingQueue = packet :: rest := queue
            exact ⟨rfl, List.Subset.refl _, same ▸ List.subset_cons_self _ _⟩
        | false =>
            have same : path.sendingQueue = packet :: rest := queue
            exact ⟨rfl, same ▸ List.subset_cons_self _ _, List.Subset.refl _⟩

/-- The round trip times that were measured are within the bounds. -/
structure RttsWithin (delay : Delay) (link : PacketLink) (log : List PacketLinkCall) : Prop where
  current : 0 < link.sender.recvSeq → delay.RttWithin link.sender.curRtt
  lost : ∀ seq number rtt call, .lost seq (some (number, rtt)) call ∈ resolutions log →
    delay.RttWithin rtt

namespace RttsWithin

variable {quic : QuicData} {header : QuicHeader} {delay : Delay} {pid : UInt8}
  {mpsender traceLossCb : Bool} {link next : PacketLink} {event : PacketLinkEvent}
  {log out : List PacketLinkCall}

/-- Nothing was measured. -/
theorem unmeasured (rtts : RttsWithin delay link log)
    (recvSeq : next.sender.recvSeq = link.sender.recvSeq)
    (curRtt : next.sender.curRtt = link.sender.curRtt) (silent : resolutions out = []) :
    RttsWithin delay next (log ++ out) where
  current positive := by
    rw [recvSeq] at positive
    rw [curRtt]
    exact rtts.current positive
  lost seq number rtt call member := by
    rw [resolutions_append, silent, List.append_nil] at member
    exact rtts.lost seq number rtt call member

/-- An acknowledgement beyond `recv_seq_` measures the time since its packet was sent, and an
older one nothing. -/
theorem onAck (rtts : RttsWithin delay link log)
    (inv : PacketLinkInv quic header delay (freshPath pid mpsender traceLossCb) link log)
    (short : delay.mostRtt < 2 ^ 29) (few : link.toReceiver.length < 2 ^ 48 - 1) {seq : UInt64}
    {flight : Flight} (answer : Answer delay header link.toReceiver seq flight)
    (flown : delay.Flown flight.sentAt link.now) (retrans : UInt64 → Retrans) :
    RttsWithin delay
      { link with sender := (link.sender.onAck (millis link.now) retrans seq).1 }
      (log ++ .onAck seq :: (link.sender.onAck (millis link.now) retrans seq).2.map .resolved) := by
  obtain ⟨numbered, same, length, numbers⟩ := inv.numbers few
  have done := acked_onAck (millis link.now) retrans seq link.sender
  obtain ⟨measured, traces⟩ := curRtt_onAck (millis link.now) retrans seq link.sender
  obtain ⟨resolved, -, -⟩ := outputs_onAck seq (link.sender.onAck (millis link.now) retrans seq).2
  have ahead : link.sender.recvSeq + 1 ≤ seq ↔ link.sender.recvSeq < seq := by
    rw [← same]
    exact numbers.ahead_iff
  by_cases beyond : link.sender.recvSeq < seq
  · have within : delay.RttWithin (link.sender.onAck (millis link.now) retrans seq).1.curRtt := by
      have kept : (link.sender.seqDelayMap.find? seq).isSome := by
        rw [← same]
        refine (numbers.delays seq).mpr ⟨same ▸ beyond, ?_⟩
        rw [UInt64.lt_iff_toNat_lt, numbers.next, length]
        exact Nat.lt_succ_of_le (PacketLinkInv.sent_of_answer answer)
      obtain ⟨ms, found⟩ := Option.isSome_iff_exists.mp kept
      obtain ⟨packet, place, at_⟩ := inv.sentAt seq ms found
      obtain ⟨asked, sent, there⟩ := answer.asked
      obtain rfl : packet = asked := Option.some.inj (place.symm.trans sent)
      rw [measured, found, Option.map_some, Option.getD_some, at_]
      exact elapsed short there flown
    refine ⟨fun _ => within, fun other number rtt call member => ?_⟩
    rw [resolutions_append, resolved] at member
    rcases List.mem_append.mp member with old | new
    · exact rtts.lost other number rtt call old
    · rw [traces other number rtt call new]
      exact within
  · have none : link.sender.seqDelayMap.find? seq = none := by
      have absent := (numbers.delays seq).not.mpr fun holds => beyond (same ▸ holds.1)
      rw [same] at absent
      simpa using absent
    obtain ⟨recvSeq, silent⟩ := done.stale (ahead.not.mpr beyond)
    rw [none] at measured
    exact rtts.unmeasured recvSeq measured (by rw [resolved]; exact silent)

/-- Every event keeps the round trip times within the bounds. -/
theorem step (rtts : RttsWithin delay link log)
    (inv : PacketLinkInv quic header delay (freshPath pid mpsender traceLossCb) link log)
    (lawful : header.Lawful) (short : delay.mostRtt < 2 ^ 29)
    (few : link.toReceiver.length < 2 ^ 48 - 1)
    (handled : (PacketLink.machine quic header delay).step link event = some (next, out)) :
    RttsWithin delay next (log ++ out) := by
  rcases PacketLink.step_cases handled with ⟨_, -, rfl, rfl⟩ |
    ⟨packetId, packet, isRetrans, -, rfl, rfl⟩ | ⟨_, _, -, beat, rfl⟩ |
    ⟨n, flight, retrans, -, found, flown, ⟨-, rfl, rfl⟩ | ⟨seq, read, rfl, rfl⟩⟩ |
    ⟨n, flight, datagram, firstTs, calls, -, -, -, -, -, rfl, rfl⟩
  · exact rtts.unmeasured rfl rfl rfl
  · exact rtts.unmeasured rfl rfl rfl
  · rcases PacketLink.processVideoPacket_cases beat with rfl | rfl |
      ⟨isRetrans, payload, path, packetId, -, taken, rfl⟩
    · exact rtts.unmeasured rfl rfl rfl
    · exact rtts.unmeasured rfl rfl rfl
    · refine rtts.unmeasured ?_ ?_ rfl
      · obtain ⟨kept, same, rfl⟩ := sendStreamPacket_spec taken
        exact same.recvSeq
      · exact (sendStreamPacket_kept taken).1
  · exact rtts.unmeasured rfl rfl rfl
  · obtain ⟨known, -, answer⟩ := inv.answered_of_flight found
    have isSent := PacketLinkInv.sent_of_answer answer
    rw [answer.bytes, onIncomingMessage_ack lawful (by omega)] at read
    obtain rfl := Option.some.inj read
    exact rtts.onAck inv short few answer flown retrans
  · exact rtts.unmeasured rfl rfl (outputs_received calls).1

end RttsWithin

variable {quic : QuicData} {header : QuicHeader} {delay : Delay} {pid : UInt8}
  {mpsender traceLossCb : Bool} {events : List PacketLinkEvent} {link next : PacketLink}
  {event : PacketLinkEvent} {log out : List PacketLinkCall}

/-- **Round trip times are within the bounds of the network**: the current one, once a number is
acknowledged, and those that go with the losses. -/
theorem rtt_within (lawful : header.Lawful) (short : delay.mostRtt < 2 ^ 29)
    (ran : (PacketLink.machine quic header delay).run (.start pid mpsender traceLossCb) events =
      some (link, log)) (few : link.toReceiver.length < 2 ^ 48 - 1) :
    (0 < link.sender.recvSeq → delay.leastRtt ≤ link.sender.curRtt.toNat ∧
        link.sender.curRtt.toNat ≤ delay.mostRtt) ∧
      ∀ seq number rtt call, .lost seq (some (number, rtt)) call ∈ resolutions log →
        delay.leastRtt ≤ rtt.toNat ∧ rtt.toNat ≤ delay.mostRtt := by
  have holds := Machine.run_log_invariant
    (fun (link : PacketLink) log => link.toReceiver.length < 2 ^ 48 - 1 →
      PacketLinkInv quic header delay (freshPath pid mpsender traceLossCb) link log ∧
        RttsWithin delay link log)
    (fun link past event next out holds handled few => by
      have less := (PacketLinkInv.toReceiver_extends handled).length_le
      obtain ⟨inv, rtts⟩ := holds (lt_of_le_of_lt less few)
      exact ⟨inv.step lawful few handled,
        rtts.step inv lawful short (lt_of_le_of_lt less few) handled⟩)
    [] (fun _ => ⟨.start quic header delay pid mpsender traceLossCb,
      ⟨fun positive => absurd positive (lt_irrefl _),
        fun _ _ _ _ member => absurd member List.not_mem_nil⟩⟩) ran few
  exact ⟨holds.2.current, holds.2.lost⟩

theorem rtt_within_skipped : ∃ link log,
    skipping.run (.start 1 false true) skipped = some (link, log) ∧
      (0 < link.sender.recvSeq → 20 ≤ link.sender.curRtt.toNat ∧
        link.sender.curRtt.toNat ≤ 61) ∧
      ∀ seq number rtt call, .lost seq (some (number, rtt)) call ∈ resolutions log →
        20 ≤ rtt.toNat ∧ rtt.toNat ≤ 61 := by
  have defined : (skipping.run (.start 1 false true) skipped).any fun result =>
      result.1.toReceiver.length < 2 ^ 48 - 1 := by
    decide +kernel
  obtain ⟨⟨link, log⟩, ran, few⟩ := (Option.any_eq_true ..).mp defined
  exact ⟨link, log, ran, rtt_within publicHeader_lawful (by decide) ran (of_decide_eq_true few)⟩

/-! ## One-way delays -/

/-- The least and the greatest one-way delay in milliseconds. -/
def Delay.leastOwd (delay : Delay) : ℕ := delay.least / millisecond

def Delay.mostOwd (delay : Delay) : ℕ := delay.most / millisecond + 1

/-- The time between sending and arrival, in milliseconds. -/
theorem owd_elapsed {delay : Delay} (short : delay.mostOwd < 2 ^ 28) {sent now : ℕ}
    (flown : delay.Flown sent now) :
    delay.leastOwd ≤ (millis now - millis sent).toNat ∧
      (millis now - millis sent).toNat ≤ delay.mostOwd := by
  obtain ⟨low, high⟩ := flown
  simp only [Delay.mostOwd, Delay.leastOwd, millis, millisecond, UInt32.toNat_sub,
    UInt32.toNat_ofNat'] at short ⊢
  omega

/-- The packets that wait in the queues of a path. -/
def waiting (path : PathSenderV1) : List VideoPacketWrapper :=
  path.resendingQueue ++ path.sendingQueue

/-- A packet with a segment of a frame, whose time counts from the reference time. -/
def Made (refTime : UInt32) (packet : VideoPacketWrapper) : Prop :=
  ∃ seg, CarriesSegment seg refTime packet

/-- The send time of a packet fits into sixteen bits. -/
def InTime (now refTime : UInt32) (packet : VideoPacketWrapper) : Prop :=
  (now - refTime - packet.timestamp).toNat < 2 ^ 16

/-- The packets are made from segments. -/
def MadeEvent (refTime : UInt32) : PacketLinkEvent → Prop
  | .onVideoPacket _ packet _ => Made refTime packet
  | .atSender _ retrans => ∀ seq, ∀ entry ∈ retrans seq, Made refTime entry.2
  | .elapse _ | .processVideoPacket _ _ | .atReceiver _ _ => True

/-- The datagram is a stream packet. -/
def Flight.IsStream (flight : Flight) : Prop :=
  flight.bytes.getD 0 0 &&& 0x0F = VideoProtoV1.v1Stream.toUInt8

/-- What `get_first_ts` returns when a stream packet arrives is the reference time. -/
def Referenced (refTime : UInt32) (firstTs : Int64) (flight : Flight) : Prop :=
  flight.IsStream → firstTs ≠ -1 ∧ firstTs.toUInt64.toUInt32 = refTime

/-- No packet waits for longer than its send time can tell, and stream packets are received
with the reference time. -/
def Punctual (refTime : UInt32) (link : PacketLink) : PacketLinkEvent → Prop
  | .processVideoPacket _ _ =>
      ∀ packet ∈ waiting link.sender, InTime (millis link.now) refTime packet
  | .atReceiver n firstTs => ∀ flight ∈ link.toReceiver[n]?, Referenced refTime firstTs flight
  | .elapse _ | .onVideoPacket _ _ _ | .atSender _ _ => True

instance (refTime : UInt32) (firstTs : Int64) (flight : Flight) :
    Decidable (Referenced refTime firstTs flight) :=
  inferInstanceAs (Decidable (flight.bytes.getD 0 0 &&& 0x0F = VideoProtoV1.v1Stream.toUInt8 →
    firstTs ≠ -1 ∧ firstTs.toUInt64.toUInt32 = refTime))

instance (refTime : UInt32) (link : PacketLink) (event : PacketLinkEvent) :
    Decidable (Punctual refTime link event) :=
  match event with
  | .processVideoPacket _ _ =>
      inferInstanceAs (Decidable (∀ packet ∈ waiting link.sender,
        (millis link.now - refTime - packet.timestamp).toNat < 2 ^ 16))
  | .atReceiver n firstTs =>
      inferInstanceAs (Decidable (∀ flight ∈ link.toReceiver[n]?,
        Referenced refTime firstTs flight))
  | .elapse _ | .onVideoPacket _ _ _ | .atSender _ _ => isTrue trivial

theorem isStream_streamDatagram {header : QuicHeader} (lawful : header.Lawful) {flight : Flight}
    {seq : UInt64} {payload : List UInt8}
    (stream : flight.bytes = header.streamDatagram seq payload) : flight.IsStream := by
  rw [Flight.IsStream, stream]
  exact lawful.type_publicFlags .v1Stream seq

/-- All packets that wait are made from segments. -/
def AllMade (refTime : UInt32) (path : PathSenderV1) : Prop :=
  ∀ packet ∈ waiting path, Made refTime packet

namespace AllMade

variable {refTime : UInt32} {path : PathSenderV1}

/-- The same packets wait, or fewer. -/
theorem of_subset {other : PathSenderV1} (made : AllMade refTime path)
    (resending : other.resendingQueue ⊆ path.resendingQueue)
    (sending : other.sendingQueue ⊆ path.sendingQueue) : AllMade refTime other := by
  intro packet member
  refine made packet (List.mem_append.mpr ?_)
  exact (List.mem_append.mp member).imp (fun old => resending old) fun old => sending old

theorem onVideoPacket (made : AllMade refTime path) (now packetId : UInt32)
    {packet : VideoPacketWrapper} (one : Made refTime packet) (isRetrans : Bool) :
    AllMade refTime (path.onVideoPacket now packetId packet isRetrans) := by
  have queued : Made refTime (packet.setEnqueueTime now) := by
    obtain ⟨seg, segment, timestamp, reference, payloadSize⟩ := one
    exact ⟨seg, segment, timestamp, reference, payloadSize⟩
  intro other member
  cases isRetrans with
  | true =>
      have same : waiting (path.onVideoPacket now packetId packet true) =
          path.resendingQueue ++ [packet.setEnqueueTime now] ++ path.sendingQueue := rfl
      rw [same, List.append_assoc, List.mem_append, List.mem_append, List.mem_singleton] at member
      rcases member with old | rfl | old
      · exact made other (List.mem_append_left _ old)
      · exact queued
      · exact made other (List.mem_append_right _ old)
  | false =>
      have same : waiting (path.onVideoPacket now packetId packet false) =
          waiting path ++ [packet.setEnqueueTime now] := (List.append_assoc ..).symm
      rw [same, List.mem_append, List.mem_singleton] at member
      rcases member with old | rfl
      · exact made other old
      · exact queued

theorem requeue (made : AllMade refTime path) (now : UInt32) {retrans : Retrans}
    (all : ∀ entry ∈ retrans, Made refTime entry.2) :
    AllMade refTime (path.requeue now retrans) := by
  induction retrans generalizing path with
  | nil => exact made
  | cons one rest ih =>
      exact ih (made.onVideoPacket now one.1 (all one List.mem_cons_self) true)
        fun entry member => all entry (List.mem_cons_of_mem _ member)

theorem lossLoop (made : AllMade refTime path) (now rtt : UInt32) {retrans : UInt64 → Retrans}
    (all : ∀ seq, ∀ entry ∈ retrans seq, Made refTime entry.2) (n : ℕ) (i : UInt64) :
    AllMade refTime (path.lossLoop now rtt retrans n i).1 := by
  induction n generalizing i path with
  | zero => exact made
  | succ n ih =>
      have either (reported : Bool) :
          AllMade refTime (if reported then path.requeue now (retrans i) else path) := by
        cases reported with
        | true => exact made.requeue now (all i)
        | false => exact made
      have one : AllMade refTime (path.declareLost now rtt (retrans i) i).1 := either _
      exact ih one (i + 1)

theorem onAck (made : AllMade refTime path) (now : UInt32) {retrans : UInt64 → Retrans}
    (all : ∀ seq, ∀ entry ∈ retrans seq, Made refTime entry.2) (seq : UInt64) :
    AllMade refTime (path.onAck now retrans seq).1 := by
  have timed : AllMade refTime (path.updateRtt now seq) := by
    have kept (path : PathSenderV1) : waiting (path.updateIdDelay now seq) = waiting path := by
      rw [updateIdDelay]
      cases path.seqIdMap.find? seq with
      | none => rfl
      | some packetId =>
          cases found : path.idDelayMap.find? packetId with
          | none => simp only [found]
          | some since =>
              simp only [found]
              rfl
    have same : waiting (path.updateRtt now seq) = waiting path := kept _
    intro packet member
    exact made packet (same ▸ member)
  rw [PathSenderV1.onAck]
  generalize path.updateRtt now seq = started at timed
  rw [detectLoss]
  split_ifs
  · exact timed.lossLoop now started.curRtt all _ _
  · exact timed

/-- A stream packet carries a segment with its send time. -/
theorem streamPayload (made : AllMade refTime path) {quic : QuicData} {now : UInt32}
    (inTime : ∀ packet ∈ waiting path, InTime now refTime packet) {isRetrans : Bool}
    {payload : List UInt8} (written : path.streamPayload quic now isRetrans = some payload) :
    ∃ segment : VideoSegment, payload = segment.write quic ∧
      segment.sendTs = (now - refTime - segment.timestamp).toUInt16 ∧
      (now - refTime - segment.timestamp).toNat < 2 ^ 16 := by
  have taken : ∃ packet ∈ waiting path,
      (packet.serialize quic maxBufSize now).1 = some payload := by
    rw [PathSenderV1.streamPayload] at written
    split at written
    · cases written
    · next packet rest queue =>
        refine ⟨packet, ?_, written⟩
        cases isRetrans with
        | true => exact List.mem_append_left _ ((show path.resendingQueue = _ from queue) ▸
            List.mem_cons_self)
        | false => exact List.mem_append_right _ ((show path.sendingQueue = _ from queue) ▸
            List.mem_cons_self)
  obtain ⟨packet, member, serialized⟩ := taken
  obtain ⟨seg, carries⟩ := made packet member
  have near := inTime packet member
  rw [InTime, carries.timestamp] at near
  have room : packet.payloadSize ≤ maxBufSize := by
    obtain ⟨sendTs, carried⟩ := carries.segment
    by_contra large
    simp only [VideoPacketWrapper.serialize, carried, if_pos (UInt32.not_le.mp large)] at serialized
    cases serialized
  rw [carries.serialize_eq room now] at serialized
  exact ⟨_, (Option.some.inj serialized).symm, rfl, near⟩

end AllMade

/-- A packet on its way that tells when it was sent. -/
def Dated (quic : QuicData) (header : QuicHeader) (refTime : UInt32) (seq : UInt64)
    (flight : Flight) : Prop :=
  flight.bytes = header.paddingDatagram quic (millis flight.sentAt) seq ∨
    ∃ segment : VideoSegment, flight.bytes = header.streamDatagram seq (segment.write quic) ∧
      segment.sendTs = (millis flight.sentAt - refTime - segment.timestamp).toUInt16 ∧
      (millis flight.sentAt - refTime - segment.timestamp).toNat < 2 ^ 16

/-- What holds of the times in a link. -/
structure OwdInv (quic : QuicData) (header : QuicHeader) (delay : Delay) (refTime : UInt32)
    (link : PacketLink) : Prop where
  seq : link.sender.seq = UInt64.ofNat (link.toReceiver.length + 1)
  made : AllMade refTime link.sender
  dated : ∀ (n : ℕ) (flight : Flight), link.toReceiver[n]? = some flight →
    Dated quic header refTime (UInt64.ofNat (n + 1)) flight
  owd : link.toSender = [] ∧ link.receiver.owd = 0 ∨
    (delay.leastOwd ≤ link.receiver.owd.toNat ∧ link.receiver.owd.toNat ≤ delay.mostOwd)

namespace OwdInv

variable {quic : QuicData} {header : QuicHeader} {delay : Delay} {refTime : UInt32}
  {link next : PacketLink} {event : PacketLinkEvent} {out : List PacketLinkCall}

theorem start (quic : QuicData) (header : QuicHeader) (delay : Delay) (refTime : UInt32)
    (pid : UInt8) (mpsender traceLossCb : Bool) :
    OwdInv quic header delay refTime (.start pid mpsender traceLossCb) where
  seq := rfl
  made _ member := absurd member List.not_mem_nil
  dated _ _ found := by cases found
  owd := .inl ⟨rfl, rfl⟩

/-- A packet is sent that tells when. -/
theorem sends (times : OwdInv quic header delay refTime link) {path : PathSenderV1}
    {bytes : List UInt8} (seq : path.seq = link.sender.seq + 1) (made : AllMade refTime path)
    (dated : Dated quic header refTime link.sender.seq ⟨link.now, bytes⟩) :
    OwdInv quic header delay refTime (link.sends path bytes) where
  seq := by
    change path.seq = UInt64.ofNat ((link.toReceiver ++ [_]).length + 1)
    rw [seq, times.seq, List.length_append, List.length_singleton]
    exact (UInt64.ofNat_add (link.toReceiver.length + 1) 1).symm
  made := made
  dated n flight found := by
    rcases getElem?_concat found with old | ⟨rfl, rfl⟩
    · exact times.dated n flight old
    · rw [← times.seq]
      exact dated
  owd := times.owd

/-- The receiver takes a sample within the bounds. -/
theorem receives (times : OwdInv quic header delay refTime link) (short : delay.mostOwd < 2 ^ 28)
    {seq : UInt64} {calls : List IncomingCall} {sentAt : ℕ}
    (flown : delay.Flown sentAt link.now) {more : List IncomingCall}
    (same : calls = .sendAck seq :: .updateOneWayDelay (millis link.now - millis sentAt) :: more)
    (silent : ∀ delay, more.foldl PacketLink.updateDelay delay = delay) :
    OwdInv quic header delay refTime (link.answers quic header calls) where
  seq := times.seq
  made := times.made
  dated := times.dated
  owd := by
    refine .inr ?_
    have within : link.receiver.Within delay.leastOwd delay.mostOwd :=
      times.owd.imp And.right id
    have folded : calls.foldl PacketLink.updateDelay link.receiver =
        OneWayDelay.update stdAbs (millis link.now - millis sentAt) link.receiver := by
      rw [same]
      exact silent _
    change delay.leastOwd ≤ (calls.foldl PacketLink.updateDelay link.receiver).owd.toNat ∧
      (calls.foldl PacketLink.updateDelay link.receiver).owd.toNat ≤ delay.mostOwd
    rw [folded]
    exact OneWayDelay.update_within short within ⟨_, owd_elapsed short flown⟩

/-- Every punctual event keeps the delay within the bounds. -/
theorem step (times : OwdInv quic header delay refTime link) (lawful : header.Lawful)
    (bigEndian : quic.BigEndian) (short : delay.mostOwd < 2 ^ 28)
    (few : next.toReceiver.length < 2 ^ 48 - 1) (made : MadeEvent refTime event)
    (punctual : Punctual refTime link event)
    (handled : (PacketLink.machine quic header delay).step link event = some (next, out)) :
    OwdInv quic header delay refTime next := by
  rcases PacketLink.step_cases handled with ⟨_, rfl, rfl, -⟩ |
    ⟨packetId, packet, isRetrans, rfl, rfl, -⟩ | ⟨_, _, rfl, beat, -⟩ |
    ⟨_, _, retrans, rfl, -, -, ⟨-, rfl, -⟩ | ⟨seq, -, rfl, -⟩⟩ |
    ⟨n, flight, datagram, firstTs, calls, rfl, found, buf, flown, received, rfl, -⟩
  · exact ⟨times.seq, times.made, times.dated, times.owd⟩
  · exact ⟨times.seq, times.made.onVideoPacket _ _ made _, times.dated, times.owd⟩
  · rcases PacketLink.processVideoPacket_cases beat with rfl | rfl |
      ⟨isRetrans, payload, path, packetId, written, taken, rfl⟩
    · exact times
    · exact times.sends rfl times.made (.inl rfl)
    · obtain ⟨-, sending, resending⟩ := sendStreamPacket_kept taken
      obtain ⟨segment, rfl, sendTs, near⟩ := times.made.streamPayload punctual written
      refine times.sends ?_ (times.made.of_subset resending sending)
        (.inr ⟨segment, rfl, sendTs, near⟩)
      obtain ⟨before, same, rfl⟩ := sendStreamPacket_spec taken
      exact congrArg (· + 1) same.seq
  · exact times
  · have done := acked_onAck (millis link.now) retrans seq link.sender
    exact ⟨done.seq.trans times.seq, times.made.onAck _ made seq, times.dated, times.owd⟩
  · have inside := (List.getElem?_eq_some_iff.mp found).1
    have small : (UInt64.ofNat (n + 1)).toNat < 2 ^ 48 := by
      have same : (link.answers quic header calls).toReceiver.length = link.toReceiver.length := rfl
      rw [UInt64.toNat_ofNat', Nat.mod_eq_of_lt (by omega)]
      omega
    rcases times.dated n flight found with padding | ⟨segment, stream, sendTs, near⟩
    · exact times.receives short flown
        (received_padding lawful bigEndian small (buf.trans padding) received) fun _ => rfl
    · obtain ⟨known, reference⟩ := punctual flight found (isStream_streamDatagram lawful stream)
      obtain ⟨packet, calls⟩ := received_stream lawful small known reference sendTs near
        (buf.trans stream) received
      exact times.receives short flown calls fun _ => rfl

end OwdInv

/-- **The one-way delay is within the bounds of the network** from the first arrival on, when no
packet waits for longer than its send time can tell and stream packets are received with the
reference time that they were made with. -/
theorem owd_within (lawful : header.Lawful) (bigEndian : quic.BigEndian)
    (short : delay.mostOwd < 2 ^ 28) {refTime : UInt32}
    (made : ∀ event ∈ events, MadeEvent refTime event)
    (ran : (PacketLink.machine quic header delay).run (.start pid mpsender traceLossCb) events =
      some (link, log)) (few : link.toReceiver.length < 2 ^ 48 - 1)
    (punctual : (PacketLink.machine quic header delay).Along (Punctual refTime)
      (.start pid mpsender traceLossCb) events) (arrived : link.toSender ≠ []) :
    delay.leastOwd ≤ link.receiver.owd.toNat ∧ link.receiver.owd.toNat ≤ delay.mostOwd := by
  have times := Machine.run_along_invariant
    (fun link => link.toReceiver.length < 2 ^ 48 - 1 → OwdInv quic header delay refTime link)
    (fun link event next out holds fair handled few =>
      have less := (PacketLinkInv.toReceiver_extends handled).length_le
      (holds (lt_of_le_of_lt less few)).step lawful bigEndian short few fair.1 fair.2 handled)
    ((Machine.along_of_events _ made).and punctual)
    (fun _ => .start quic header delay refTime pid mpsender traceLossCb) ran few
  exact times.owd.resolve_left fun never => arrived never.1

/-- A packet of padding arrives before the reference time is known, and a packet of a frame is
sent after it waited and arrives. -/
def waited : List PacketLinkEvent :=
  [.onVideoPacket 1 (({ packetId := 1, refTime := 100 } : VideoPacketWrapper).onNewSegment
      threeBytes 140) false,
    .elapse 200000000, .processVideoPacket true false, .processVideoPacket true true,
    .elapse 20000000, .atReceiver 1 (-1), .atReceiver 0 100]

theorem owd_within_waited : ∃ link log,
    skipping.run (.start 1 false true) waited = some (link, log) ∧ link.toSender ≠ [] ∧
      10 ≤ link.receiver.owd.toNat ∧ link.receiver.owd.toNat ≤ 31 := by
  have made : ∀ event ∈ waited, MadeEvent 100 event := by
    intro event member
    simp only [waited, List.mem_cons, List.not_mem_nil, or_false] at member
    rcases member with rfl | rfl | rfl | rfl | rfl | rfl | rfl
    · exact ⟨threeBytes, carriesSegment_onNewSegment ..⟩
    all_goals trivial
  have defined : (skipping.run (.start 1 false true) waited).any fun result =>
      result.1.toReceiver.length < 2 ^ 48 - 1 ∧ result.1.toSender.isEmpty = false := by
    decide +kernel
  obtain ⟨⟨link, log⟩, ran, good⟩ := (Option.any_eq_true ..).mp defined
  obtain ⟨few, arrived⟩ := of_decide_eq_true good
  have some : link.toSender ≠ [] := List.isEmpty_eq_false_iff.mp arrived
  exact ⟨link, log, ran, some, owd_within publicHeader_lawful networkOrder_bigEndian (by decide)
    made ran few (by decide +kernel) some⟩

end MpVideo.EndToEnd
