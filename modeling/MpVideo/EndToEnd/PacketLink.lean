import MpVideo.EndToEnd.Link
import MpVideo.Lib.Records
import MpVideo.V1.Datagrams
import MpVideo.V1.LossDetection
import MpVideo.V1.OneWayDelay

/-!
# One path of the second generation

A path sender of the second generation, the network and its receiver. Stream packets and
padding carry a number each, and every one that arrives is acknowledged at once. As in
`Link.lean` the network keeps every datagram, so that an arrival may repeat, overtake or skip
any of them.

The model of loss detection takes for granted that only numbers are acknowledged that were sent.
Here this is proved of the bytes: the sender in a link runs as such a path (`refines_path`).
-/

set_option autoImplicit false

namespace MpVideo.EndToEnd

open Sender (millis)
open V1 PathSenderV1

/-- The two ends of a path and what is between them. -/
structure PacketLink where
  now : ℕ := 0
  sender : PathSenderV1
  receiver : OneWayDelay := {}
  /-- Every datagram that the sender sent so far, in order. -/
  toReceiver : List Flight := []
  /-- Every datagram that the receiver sent so far, in order. -/
  toSender : List Flight := []

/-- What happens to a link. -/
inductive PacketLinkEvent where
  | elapse (duration : ℕ)
  | onVideoPacket (packetId : UInt32) (packet : VideoPacketWrapper) (isRetrans : Bool)
  /-- The heart beat. The pacer lets a packet go or not, and the controller asks for a probe or
  not. -/
  | processVideoPacket (maySend shouldProbe : Bool)
  /-- The datagram that the receiver sent as number `n` arrives, and packets are queued again
  for the losses that it reveals. -/
  | atSender (n : ℕ) (retrans : UInt64 → Retrans)
  /-- The datagram that the sender sent as number `n` arrives. -/
  | atReceiver (n : ℕ) (firstTs : Int64)

/-- What a link puts out. -/
inductive PacketLinkCall where
  /-- `OnAck` of the sender. -/
  | onAck (seq : UInt64)
  | resolved (resolution : Resolution)
  /-- A call that the receiver makes. -/
  | received (call : IncomingCall)

namespace PacketLink

/-- A datagram of the sender is on its way. -/
def sends (path : PathSenderV1) (bytes : List UInt8) (link : PacketLink) : PacketLink :=
  { link with
    sender := path
    toReceiver := link.toReceiver ++ [⟨link.now, bytes⟩] }

/-- What a call does to the delay that the receiver estimates. -/
def updateDelay (delay : OneWayDelay) : IncomingCall → OneWayDelay
  | .updateOneWayDelay owd => PathReceiverV1.updateOneWayDelay owd delay
  | _ => delay

variable (quic : QuicData) (header : QuicHeader)

/-- `SendStreamPacket`. -/
def sendStreamPacket (isRetrans : Bool) (link : PacketLink) : Option PacketLink :=
  match link.sender.streamPayload quic (millis link.now) isRetrans,
    link.sender.sendStreamPacket quic (millis link.now) isRetrans with
  | some payload, some (path, _) =>
      some (link.sends path (header.streamDatagram link.sender.seq payload))
  | _, _ => none

/-- `SendPaddingPacket`. -/
def sendPaddingPacket (link : PacketLink) : PacketLink :=
  link.sends (link.sender.sendPaddingPacket (millis link.now))
    (header.paddingDatagram quic (millis link.now) link.sender.seq)

/-- `ProcessVideoPacket`. -/
def processVideoPacket (maySend shouldProbe : Bool) (link : PacketLink) : Option PacketLink :=
  if maySend then
    if ¬ link.sender.resendingQueue.isEmpty then link.sendStreamPacket quic header true
    else if ¬ link.sender.sendingQueue.isEmpty then link.sendStreamPacket quic header false
    else if shouldProbe then some (link.sendPaddingPacket quic header)
    else some link
  else some link

/-- The receiver made calls: its answers are on their way. -/
def answers (calls : List IncomingCall) (link : PacketLink) : PacketLink :=
  { link with
    receiver := calls.foldl updateDelay link.receiver
    toSender := link.toSender ++
      (calls.filterMap (IncomingCall.datagram quic header)).map fun bytes => ⟨link.now, bytes⟩ }

/-- What the link does on an event; `none` is undefined behaviour, or an event that cannot
happen. -/
def handle (delay : Delay) (link : PacketLink) :
    PacketLinkEvent → Option (PacketLink × List PacketLinkCall)
  | .elapse duration => some ({ link with now := link.now + duration }, [])
  | .onVideoPacket packetId packet isRetrans =>
      some ({ link with
        sender := link.sender.onVideoPacket (millis link.now) packetId packet isRetrans }, [])
  | .processVideoPacket maySend shouldProbe =>
      (link.processVideoPacket quic header maySend shouldProbe).map (·, [])
  | .atSender n retrans =>
      match link.toSender[n]? with
      | none => none
      | some flight =>
          if delay.Flown flight.sentAt link.now then
            match PathSenderV1.onIncomingMessage quic header.toQuicNumber flight.bytes with
            | none => some (link, [])
            | some seq =>
                let (path, resolved) := link.sender.onAck (millis link.now) retrans seq
                some ({ link with sender := path }, .onAck seq :: resolved.map .resolved)
          else none
  | .atReceiver n firstTs =>
      match (link.toReceiver[n]?).bind fun flight =>
        (Datagram.ofBytes flight.bytes).map (flight, ·) with
      | none => none
      | some (flight, datagram) =>
          if delay.Flown flight.sentAt link.now then
            (PathReceiverV1.onIncomingMessage quic header.toQuicNumber (millis link.now) firstTs
              datagram).map fun calls => (link.answers quic header calls, calls.map .received)
          else none

/-- A link as a machine. -/
def machine (delay : Delay) : Machine PacketLink PacketLinkEvent PacketLinkCall :=
  ⟨handle quic header delay⟩

/-- A link before anything is sent. -/
def start (pid : UInt8) (mpsender traceLossCb : Bool) : PacketLink where
  sender := { pid, mpsender, traceLossCb }

end PacketLink

/-! ## What was put out -/

/-- What the sender resolved. -/
def resolutions (log : List PacketLinkCall) : List Resolution :=
  log.filterMap fun
    | .resolved resolution => some resolution
    | _ => none

/-- The numbers whose acknowledgement arrived at the sender, in order. -/
def acknowledged (log : List PacketLinkCall) : List UInt64 :=
  log.filterMap fun
    | .onAck seq => some seq
    | _ => none

/-- The numbers of the packets that arrived at the receiver, in order. -/
def answered (log : List PacketLinkCall) : List UInt64 :=
  log.filterMap fun
    | .received call => call.acked
    | _ => none

/-! ## What a step does -/

namespace PacketLink

variable {quic : QuicData} {header : QuicHeader} {delay : Delay} {link next : PacketLink}
  {event : PacketLinkEvent} {out : List PacketLinkCall}

/-- The heart beat sends nothing, a packet from a queue, or padding. -/
theorem processVideoPacket_cases {maySend shouldProbe : Bool}
    (beat : link.processVideoPacket quic header maySend shouldProbe = some next) :
    next = link ∨ next = link.sendPaddingPacket quic header ∨
      ∃ isRetrans payload path packetId,
        link.sender.streamPayload quic (millis link.now) isRetrans = some payload ∧
        link.sender.sendStreamPacket quic (millis link.now) isRetrans = some (path, packetId) ∧
        next = link.sends path (header.streamDatagram link.sender.seq payload) := by
  have stream {isRetrans : Bool}
      (sent : link.sendStreamPacket quic header isRetrans = some next) :
      ∃ isRetrans payload path packetId,
        link.sender.streamPayload quic (millis link.now) isRetrans = some payload ∧
        link.sender.sendStreamPacket quic (millis link.now) isRetrans = some (path, packetId) ∧
        next = link.sends path (header.streamDatagram link.sender.seq payload) := by
    rw [PacketLink.sendStreamPacket] at sent
    split at sent
    · next payload path packetId written taken =>
        exact ⟨isRetrans, payload, path, packetId, written, taken, (Option.some.inj sent).symm⟩
    · cases sent
  rw [processVideoPacket] at beat
  split_ifs at beat
  · exact .inr (.inl (Option.some.inj beat).symm)
  · exact .inl (Option.some.inj beat).symm
  · exact .inr (.inr (stream beat))
  · exact .inr (.inr (stream beat))
  · exact .inl (Option.some.inj beat).symm

/-- What a step does: time passes, a packet enters a queue, the heart beat sends something, or
a datagram arrives. -/
theorem step_cases (handled : (machine quic header delay).step link event = some (next, out)) :
    (∃ duration, event = .elapse duration ∧
      next = { link with now := link.now + duration } ∧ out = []) ∨
      (∃ packetId packet isRetrans, event = .onVideoPacket packetId packet isRetrans ∧
        next = { link with
          sender := link.sender.onVideoPacket (millis link.now) packetId packet isRetrans } ∧
        out = []) ∨
      (∃ maySend shouldProbe, event = .processVideoPacket maySend shouldProbe ∧
        link.processVideoPacket quic header maySend shouldProbe = some next ∧ out = []) ∨
      (∃ (n : ℕ) (flight : Flight) (retrans : UInt64 → Retrans), event = .atSender n retrans ∧
        link.toSender[n]? = some flight ∧ delay.Flown flight.sentAt link.now ∧
        ((PathSenderV1.onIncomingMessage quic header.toQuicNumber flight.bytes = none ∧
            next = link ∧ out = []) ∨
          ∃ seq, PathSenderV1.onIncomingMessage quic header.toQuicNumber flight.bytes = some seq ∧
            next = { link with
              sender := (link.sender.onAck (millis link.now) retrans seq).1 } ∧
            out = .onAck seq ::
              (link.sender.onAck (millis link.now) retrans seq).2.map .resolved)) ∨
      (∃ (n : ℕ) (flight : Flight) (datagram : Datagram) (firstTs : Int64)
        (calls : List IncomingCall), event = .atReceiver n firstTs ∧
        link.toReceiver[n]? = some flight ∧ datagram.buf = flight.bytes ∧
        delay.Flown flight.sentAt link.now ∧
        PathReceiverV1.onIncomingMessage quic header.toQuicNumber (millis link.now) firstTs
          datagram = some calls ∧
        next = link.answers quic header calls ∧ out = calls.map .received) := by
  change link.handle quic header delay event = _ at handled
  cases event with
  | elapse duration =>
      obtain ⟨rfl, rfl⟩ := Prod.mk.inj (Option.some.inj handled)
      exact .inl ⟨duration, rfl, rfl, rfl⟩
  | onVideoPacket packetId packet isRetrans =>
      obtain ⟨rfl, rfl⟩ := Prod.mk.inj (Option.some.inj handled)
      exact .inr (.inl ⟨packetId, packet, isRetrans, rfl, rfl, rfl⟩)
  | processVideoPacket maySend shouldProbe =>
      obtain ⟨result, beat, eq⟩ := Option.map_eq_some_iff.mp handled
      obtain ⟨rfl, rfl⟩ := Prod.mk.inj eq
      exact .inr (.inr (.inl ⟨maySend, shouldProbe, rfl, beat, rfl⟩))
  | atSender n retrans =>
      simp only [handle] at handled
      cases found : link.toSender[n]? with
      | none => simp only [found] at handled; cases handled
      | some flight =>
          simp only [found] at handled
          split_ifs at handled with flown
          refine .inr (.inr (.inr (.inl ⟨n, flight, retrans, rfl, found, flown, ?_⟩)))
          cases read : PathSenderV1.onIncomingMessage quic header.toQuicNumber flight.bytes with
          | none =>
              simp only [read] at handled
              obtain ⟨rfl, rfl⟩ := Prod.mk.inj (Option.some.inj handled)
              exact .inl ⟨rfl, rfl, rfl⟩
          | some seq =>
              simp only [read] at handled
              obtain ⟨rfl, rfl⟩ := Prod.mk.inj (Option.some.inj handled)
              exact .inr ⟨seq, rfl, rfl, rfl⟩
  | atReceiver n firstTs =>
      simp only [handle] at handled
      cases taken : (link.toReceiver[n]?).bind fun flight =>
        (Datagram.ofBytes flight.bytes).map (flight, ·) with
      | none => simp only [taken] at handled; cases handled
      | some arrived =>
          simp only [taken] at handled
          split_ifs at handled with flown
          obtain ⟨flight, found, ofBytes⟩ := Option.bind_eq_some_iff.mp taken
          obtain ⟨datagram, isDatagram, rfl⟩ := Option.map_eq_some_iff.mp ofBytes
          obtain ⟨calls, received, eq⟩ := Option.map_eq_some_iff.mp handled
          obtain ⟨rfl, rfl⟩ := Prod.mk.inj eq
          rw [Datagram.ofBytes] at isDatagram
          split_ifs at isDatagram
          obtain rfl := Option.some.inj isDatagram
          exact .inr (.inr (.inr (.inr
            ⟨n, flight, _, firstTs, calls, rfl, found, rfl, flown, received, rfl, rfl⟩)))

end PacketLink

end MpVideo.EndToEnd
