import MpVideo.Lib.Machine
import MpVideo.Receiver.Answers
import MpVideo.Sender.Connection

/-!
# One path with its clock

A path sender, the network and the path receiver, with the clock of the simulator. The clock
does not pass an event that the sender has scheduled. The network keeps every datagram that
was sent, so that an arrival may repeat, overtake or skip any of them; a datagram is never
changed, and it takes a time between two bounds.

Each message carries a time: requests and pings the time when they were sent, and the answers
to them the time of what they answer (`Stamped`). This holds of every datagram on its way
(`LinkInv`), and an acknowledgement of a connection only comes from a receiver with the id of
the path, whatever is lost, repeated and overtaken.
-/

set_option autoImplicit false

namespace MpVideo.EndToEnd

open Wire Sender Receiver

/-- A datagram on its way, with the time when it was sent. -/
structure Flight where
  sentAt : ℕ
  bytes : List UInt8

/-- The times that a datagram takes, in nanoseconds. -/
structure Delay where
  least : ℕ
  most : ℕ

/-- A datagram can take so long. -/
def Delay.Flown (delay : Delay) (sent arrived : ℕ) : Prop :=
  sent + delay.least ≤ arrived ∧ arrived ≤ sent + delay.most

instance (delay : Delay) (sent arrived : ℕ) : Decidable (delay.Flown sent arrived) :=
  inferInstanceAs (Decidable (_ ∧ _))

/-- The two ends of a path and what is between them. -/
structure Link where
  now : ℕ := 0
  sender : PathControl
  receiver : PathReceiver
  /-- Every datagram that the sender sent so far, in order. -/
  toReceiver : List Flight := []
  /-- Every datagram that the receiver sent so far, in order. -/
  toSender : List Flight := []

/-- What happens at a path receiver apart from arrivals. -/
inductive ReceiverEvent where
  | pingTimerExpired
  | consume (packetId : UInt32)
  | disconnect
  | stop

/-- What happens to a link. -/
inductive LinkEvent where
  | elapse (duration : ℕ)
  | sender (event : ControlEvent)
  | receiver (event : ReceiverEvent)
  /-- The datagram that the receiver sent as number `n` arrives. -/
  | atSender (n : ℕ)
  /-- The datagram that the sender sent as number `n` arrives. -/
  | atReceiver (n : ℕ) (senderFirstTs : Option UInt32)

namespace Link

/-- The datagram of a call of the receiver. -/
def datagram : PathCall → Option (List UInt8)
  | .sendToNetwork data => some data
  | _ => none

/-- The sender did something, and its datagrams are on their way. -/
def sends (link : Link) (result : PathControl × List SenderCall) : Link × List SenderCall :=
  ({ link with
    sender := result.1
    toReceiver := link.toReceiver ++
      (result.2.filterMap SenderCall.datagram).map fun bytes => ⟨link.now, bytes⟩ }, result.2)

/-- The receiver did something, and its datagrams are on their way. -/
def answers (link : Link) (result : PathReceiver × List PathCall) : Link × List SenderCall :=
  ({ link with
    receiver := result.1
    toSender := link.toSender ++
      (result.2.filterMap datagram).map fun bytes => ⟨link.now, bytes⟩ }, [])

/-- What the receiver does. -/
def handleReceiver (now : UInt32) (path : PathReceiver) :
    ReceiverEvent → PathReceiver × List PathCall
  | .pingTimerExpired => path.pingTimerExpired now
  | .consume packetId => (path.consume packetId, [])
  | .disconnect => path.sendDisconnect now
  | .stop => (path.stopPath, [])

/-- What the link does on an event; `none` is undefined behaviour, or an event that cannot
happen. The outputs are the calls of the sender. -/
def handle (delay : Delay) (link : Link) : LinkEvent → Option (Link × List SenderCall)
  | .elapse duration =>
      if ∀ timer ∈ link.sender.timers, link.now + duration ≤ timer.due then
        some ({ link with now := link.now + duration }, [])
      else none
  | .sender event => (link.sender.handle link.now event).map link.sends
  | .receiver event => some (link.answers (handleReceiver (millis link.now) link.receiver event))
  | .atSender n =>
      match link.toSender[n]? with
      | none => none
      | some flight =>
          if delay.Flown flight.sentAt link.now then
            (link.sender.recvPacket link.now flight.bytes).map link.sends
          else none
  | .atReceiver n senderFirstTs =>
      match link.toReceiver[n]? with
      | none => none
      | some flight =>
          if delay.Flown flight.sentAt link.now then
            (link.receiver.recvPacket ⟨millis link.now, senderFirstTs⟩ true flight.bytes).map
              link.answers
          else none

/-- A link as a machine. -/
def machine (delay : Delay) : Machine Link LinkEvent SenderCall := ⟨handle delay⟩

/-- A link before the connection, for a path with an id in one of the pacing modes. -/
def start (pid : UInt8) (senderUid receiverUid : UInt32) (paceMode : PaceMode) : Link where
  sender := { pid, uid := senderUid, paceMode }
  receiver := { uid := receiverUid }

/-- What a step does: time passes, one of the ends does something, or a datagram arrives at one
of them. -/
theorem step_cases {delay : Delay} {link next : Link} {event : LinkEvent}
    {out : List SenderCall} (handled : (machine delay).step link event = some (next, out)) :
    (∃ duration, event = .elapse duration ∧
        (∀ timer ∈ link.sender.timers, link.now + duration ≤ timer.due) ∧
        next = { link with now := link.now + duration } ∧ out = []) ∨
      (∃ control result, event = .sender control ∧
        link.sender.handle link.now control = some result ∧ (next, out) = link.sends result) ∨
      (∃ other, event = .receiver other ∧
        (next, out) = link.answers (handleReceiver (millis link.now) link.receiver other)) ∨
      (∃ n flight result, event = .atSender n ∧ link.toSender[n]? = some flight ∧
        delay.Flown flight.sentAt link.now ∧
        link.sender.recvPacket link.now flight.bytes = some result ∧
        (next, out) = link.sends result) ∨
      (∃ n senderFirstTs flight result, event = .atReceiver n senderFirstTs ∧
        link.toReceiver[n]? = some flight ∧ delay.Flown flight.sentAt link.now ∧
        link.receiver.recvPacket ⟨millis link.now, senderFirstTs⟩ true flight.bytes =
          some result ∧
        (next, out) = link.answers result) := by
  change link.handle delay event = _ at handled
  cases event with
  | elapse duration =>
      rw [handle] at handled
      split_ifs at handled with early
      obtain ⟨rfl, rfl⟩ := Prod.mk.inj (Option.some.inj handled)
      exact .inl ⟨duration, rfl, early, rfl, rfl⟩
  | sender control =>
      obtain ⟨result, did, eq⟩ := Option.map_eq_some_iff.mp handled
      exact .inr (.inl ⟨control, result, rfl, did, eq.symm⟩)
  | receiver other => exact .inr (.inr (.inl ⟨other, rfl, (Option.some.inj handled).symm⟩))
  | atSender n =>
      simp only [handle] at handled
      cases found : link.toSender[n]? with
      | none => simp only [found] at handled; cases handled
      | some flight =>
          simp only [found] at handled
          split_ifs at handled with flown
          obtain ⟨result, arrived, eq⟩ := Option.map_eq_some_iff.mp handled
          exact .inr (.inr (.inr (.inl ⟨n, flight, result, rfl, found, flown, arrived, eq.symm⟩)))
  | atReceiver n senderFirstTs =>
      simp only [handle] at handled
      cases found : link.toReceiver[n]? with
      | none => simp only [found] at handled; cases handled
      | some flight =>
          simp only [found] at handled
          split_ifs at handled with flown
          obtain ⟨result, arrived, eq⟩ := Option.map_eq_some_iff.mp handled
          exact .inr (.inr (.inr (.inr
            ⟨n, senderFirstTs, flight, result, rfl, found, flown, arrived, eq.symm⟩)))

end Link

/-! ## Stamps -/

/-- The times in a message that was sent at a time. -/
def Stamped (delay : Delay) (sentAt : ℕ) : SimBody → Prop
  | .connect body => body.cid = millis sentAt
  | .connectAck body => ∃ asked, delay.Flown asked sentAt ∧ body.cid = millis asked
  | .ping body => body.ts.toUInt64.toUInt32 = millis sentAt
  | .pong body => ∃ asked, delay.Flown asked sentAt ∧ body.ts.toUInt64.toUInt32 = millis asked
  | _ => True

/-- A datagram of a path on its way to the receiver. -/
def Flight.FromSender (delay : Delay) (pid : UInt8) (flight : Flight) : Prop :=
  ∃ body, Message pid body flight.bytes ∧ Stamped delay flight.sentAt body

/-- A datagram on its way to the sender. Connections are acknowledged by a receiver with the
id of the path. -/
def Flight.FromReceiver (delay : Delay) (pid receiverPid : UInt8) (flight : Flight) : Prop :=
  ∃ ver body, Message ver body flight.bytes ∧ Stamped delay flight.sentAt body ∧
    (body.mid = .simConnectAck → receiverPid = pid)

/-- What holds of a link with a path id at any time. -/
structure LinkInv (delay : Delay) (pid : UInt8) (link : Link) : Prop where
  pid_eq : link.sender.pid = pid
  queue : link.sender.Holds PathControl.LegalSegment
  named : link.receiver.pid = 0 ∨ link.receiver.pid = pid
  toReceiver : ∀ flight ∈ link.toReceiver, flight.FromSender delay pid
  toSender : ∀ flight ∈ link.toSender, flight.FromReceiver delay pid link.receiver.pid

namespace LinkInv

variable {delay : Delay} {pid : UInt8} {link next : Link} {out : List SenderCall}

theorem start (delay : Delay) (pid : UInt8) (senderUid receiverUid : UInt32)
    (paceMode : PaceMode) : LinkInv delay pid (Link.start pid senderUid receiverUid paceMode) where
  pid_eq := rfl
  queue _ queued := absurd queued List.not_mem_nil
  named := .inl rfl
  toReceiver _ member := absurd member List.not_mem_nil
  toSender _ member := absurd member List.not_mem_nil

/-- The sender sends messages that carry the time. -/
theorem sends (inv : LinkInv delay pid link) {path : PathControl} {calls : List SenderCall}
    (pidEq : path.pid = pid) (queue : path.Holds PathControl.LegalSegment)
    (messages : ∀ bytes, SenderCall.sendToNetwork bytes ∈ calls →
      ∃ body, Message pid body bytes ∧ Stamped delay link.now body) :
    LinkInv delay pid (link.sends (path, calls)).1 where
  pid_eq := pidEq
  queue := queue
  named := inv.named
  toReceiver flight member := by
    rcases List.mem_append.mp member with old | new
    · exact inv.toReceiver flight old
    · obtain ⟨bytes, isSent, rfl⟩ := List.mem_map.mp new
      obtain ⟨call, called, datagram⟩ := List.mem_filterMap.mp isSent
      cases call with
      | sendToNetwork data =>
          obtain rfl := Option.some.inj datagram
          exact messages _ called
      | notifyPathUsable | onNetworkChanged | onRttUpdate => cases datagram
  toSender := inv.toSender

/-- The receiver sends messages that carry the time, and no acknowledgement of a connection
unless it has the id of the path. -/
theorem answers (inv : LinkInv delay pid link) {path : PathReceiver} {calls : List PathCall}
    (named : path.pid = link.receiver.pid ∨ path.pid = pid)
    (messages : ∀ bytes, PathCall.sendToNetwork bytes ∈ calls →
      ∃ ver body, Message ver body bytes ∧ Stamped delay link.now body ∧
        (body.mid = .simConnectAck → path.pid = pid)) :
    LinkInv delay pid (link.answers (path, calls)).1 where
  pid_eq := inv.pid_eq
  queue := inv.queue
  named := named.elim (fun same => same ▸ inv.named) .inr
  toReceiver := inv.toReceiver
  toSender flight member := by
    rcases List.mem_append.mp member with old | new
    · obtain ⟨ver, body, message, stamped, agreed⟩ := inv.toSender flight old
      exact ⟨ver, body, message, stamped,
        fun ack => named.elim (fun same => same.trans (agreed ack)) id⟩
    · obtain ⟨bytes, isSent, rfl⟩ := List.mem_map.mp new
      obtain ⟨call, called, datagram⟩ := List.mem_filterMap.mp isSent
      cases call with
      | sendToNetwork data =>
          obtain rfl := Option.some.inj datagram
          exact messages _ called
      | deliverToCache | delay => cases datagram

theorem ping_stamp (now : UInt32) : now.toUInt64.toInt64.toUInt64.toUInt32 = now := by
  simp

/-- Whatever the sender does of its own accord. -/
theorem handleSender (inv : LinkInv delay pid link) {event : ControlEvent} {path : PathControl}
    {calls : List SenderCall}
    (handled : link.sender.handle link.now event = some (path, calls)) :
    LinkInv delay pid (link.sends (path, calls)).1 := by
  have connect (from_ : PathControl) (pidEq : from_.pid = pid)
      (queue : from_.Holds PathControl.LegalSegment) :
      LinkInv delay pid (link.sends (from_.sendConnect link.now)).1 := by
    have same := PathControl.sameQueue_sendConnect link.now from_
    refine inv.sends (same.pid.trans pidEq) (same.holds queue) fun bytes member => ?_
    have message := PathControl.mem_sendConnect member
    rw [pidEq] at message
    exact ⟨_, message, rfl⟩
  have ping (from_ : PathControl) (pidEq : from_.pid = pid)
      (queue : from_.Holds PathControl.LegalSegment) :
      LinkInv delay pid (link.sends (from_.checkPing link.now)).1 := by
    have same := PathControl.sameQueue_checkPing link.now from_
    refine inv.sends (same.pid.trans pidEq) (same.holds queue) fun bytes member => ?_
    have message := PathControl.mem_checkPing member
    rw [pidEq] at message
    exact ⟨_, message, ping_stamp _⟩
  rcases PathControl.handle_cases inv.queue handled with
    quiet | ⟨-, eq⟩ | ⟨timer, -, -, -, ⟨-, eq⟩ | ⟨-, eq⟩⟩ | ⟨-, -, -, rfl, rfl⟩
  · refine inv.sends (quiet.pid.trans inv.pid_eq) quiet.holds fun bytes member => ?_
    rcases quiet.calls _ member with ⟨body, data, plain, message, eq⟩ | ⟨_, _, _, eq⟩
    · obtain rfl := SenderCall.sendToNetwork.inj eq
      refine ⟨body, inv.pid_eq ▸ message, ?_⟩
      cases body with
      | connect | connectAck | ping | pong => exact plain.elim
      | disconnect | disconnectAck | seg | segAck | feedback | fir | pad => trivial
    · exact nomatch eq
  · exact eq ▸ connect _ inv.pid_eq inv.queue
  · exact eq ▸ connect (link.sender.cancel (some timer.id)) inv.pid_eq inv.queue
  · exact eq ▸ ping (link.sender.cancel (some timer.id)) inv.pid_eq inv.queue
  · exact inv.sends ((PathSender.stopPath_pid _).trans inv.pid_eq) inv.queue.stopPath
      fun _ member => absurd member List.not_mem_nil

/-- A datagram of the receiver arrives. -/
theorem atSender (inv : LinkInv delay pid link) {flight : Flight} {path : PathControl}
    {calls : List SenderCall} (isSent : flight ∈ link.toSender)
    (flown : delay.Flown flight.sentAt link.now)
    (arrived : link.sender.recvPacket link.now flight.bytes = some (path, calls)) :
    LinkInv delay pid (link.sends (path, calls)).1 := by
  obtain ⟨ver, body, message, stamped, -⟩ := inv.toSender flight isSent
  obtain ⟨strm, ⟨rfl, rfl⟩ | ⟨-, -, ⟨ack, rfl, eq⟩ | ⟨ack, rfl, rfl, rfl⟩ | ⟨ping, rfl, eq⟩ |
    ⟨pong, rfl, -, updated⟩⟩⟩ := PathControl.recvPacket_cases message arrived
  · exact inv.sends inv.pid_eq inv.queue fun _ member => absurd member List.not_mem_nil
  · have same := PathControl.sameQueue_onConnectAck link.now ack { link.sender with strm }
    rw [eq]
    refine inv.sends (same.pid.trans inv.pid_eq) (same.holds inv.queue) fun bytes member => ?_
    have message := PathControl.mem_onConnectAck member
    rw [show ({ link.sender with strm } : PathControl).pid = pid from inv.pid_eq] at message
    exact ⟨_, message, ping_stamp _⟩
  · obtain ⟨baseSeq, eq⟩ := PathControl.recvSegAck_eq ack { link.sender with strm }
    rw [eq]
    exact inv.sends inv.pid_eq inv.queue fun _ member => absurd member List.not_mem_nil
  · rw [eq]
    refine inv.sends inv.pid_eq inv.queue fun bytes member => ?_
    obtain ⟨data, called, answer⟩ :=
      PathControl.mem_sendMsg (show SimBody.Legal (.pong ping) from trivial) member
    obtain rfl := SenderCall.sendToNetwork.inj called
    rw [show ({ link.sender with strm } : PathControl).pid = pid from inv.pid_eq] at answer
    exact ⟨_, answer, flight.sentAt, flown, stamped⟩
  · have same := PathControl.sameQueue_updateRtt updated
    exact inv.sends (same.pid.trans inv.pid_eq) (same.holds inv.queue)
      fun _ member => absurd member (PathControl.not_mem_updateRtt updated)

/-- What a receiver does that does not concern its connection. -/
theorem quietAnswers (inv : LinkInv delay pid link) {path : PathReceiver} {calls : List PathCall}
    (quiet : PathReceiver.Answers (millis link.now) link.receiver (path, calls)) :
    LinkInv delay pid (link.answers (path, calls)).1 := by
  refine inv.answers (.inl quiet.pid) fun bytes member => ?_
  obtain ⟨body, message, answer⟩ := quiet.datagrams bytes member
  refine ⟨_, body, message, ?_⟩
  cases body with
  | ping ping =>
      have ts : ping.ts = (millis link.now).toUInt64.toInt64 := answer
      refine ⟨?_, fun ack => nomatch ack⟩
      change ping.ts.toUInt64.toUInt32 = _
      rw [ts, ping_stamp]
  | segAck | disconnect => exact ⟨trivial, fun ack => nomatch ack⟩
  | connect | connectAck | disconnectAck | pong | seg | feedback | fir | pad => exact answer.elim

/-- A datagram of the sender arrives. -/
theorem atReceiver (inv : LinkInv delay pid link) {flight : Flight} {path : PathReceiver}
    {calls : List PathCall} {senderFirstTs : Option UInt32} (isSent : flight ∈ link.toReceiver)
    (flown : delay.Flown flight.sentAt link.now)
    (arrived : link.receiver.recvPacket ⟨millis link.now, senderFirstTs⟩ true flight.bytes =
      some (path, calls)) :
    LinkInv delay pid (link.answers (path, calls)).1 := by
  obtain ⟨body, message, stamped⟩ := inv.toReceiver flight isSent
  rcases PathReceiver.recvPacket_cases message arrived with
    ⟨quiet, -⟩ | ⟨strm, ⟨connect, rfl, eq⟩ | ⟨ping, rfl, eq⟩ | ⟨pong, rfl, rfl, updated⟩⟩
  · exact inv.quietAnswers quiet
  · rw [eq]
    refine inv.answers (.inr rfl) fun bytes member => ?_
    have answer := PathReceiver.mem_sendMsg
      (show SimBody.Legal (.connectAck ⟨connect.cid, 0⟩) from trivial) member
    exact ⟨_, _, answer, ⟨flight.sentAt, flown, stamped⟩, fun _ => rfl⟩
  · rw [eq]
    refine inv.answers (.inl rfl) fun bytes member => ?_
    have answer := PathReceiver.mem_sendMsg (show SimBody.Legal (.pong ping) from trivial) member
    exact ⟨_, _, answer, ⟨flight.sentAt, flown, stamped⟩, fun ack => nomatch ack⟩
  · have same := PathReceiver.updateRtt_pid updated
    exact inv.answers (.inl same) fun _ member => absurd member List.not_mem_nil

/-- Whatever the receiver does of its own accord. -/
theorem handleReceiver (inv : LinkInv delay pid link) (event : ReceiverEvent) :
    LinkInv delay pid
      (link.answers (Link.handleReceiver (millis link.now) link.receiver event)).1 := by
  cases event with
  | pingTimerExpired =>
      exact inv.quietAnswers (PathReceiver.answers_pingTimerExpired link.receiver _)
  | consume packetId =>
      exact inv.answers (.inl rfl) fun _ member => absurd member List.not_mem_nil
  | disconnect =>
      exact inv.quietAnswers (PathReceiver.answers_sendMsg
        (show SimBody.Legal (.disconnect _) from trivial) trivial)
  | stop => exact inv.answers (.inl rfl) fun _ member => absurd member List.not_mem_nil

/-- Every event keeps the invariant. -/
theorem step (inv : LinkInv delay pid link) {event : LinkEvent}
    (handled : (Link.machine delay).step link event = some (next, out)) :
    LinkInv delay pid next := by
  rcases Link.step_cases handled with ⟨duration, -, -, rfl, -⟩ | ⟨control, result, -, did, eq⟩ |
    ⟨other, -, eq⟩ | ⟨n, flight, result, -, found, flown, arrived, eq⟩ |
    ⟨n, senderFirstTs, flight, result, -, found, flown, arrived, eq⟩
  · exact ⟨inv.pid_eq, inv.queue, inv.named, inv.toReceiver, inv.toSender⟩
  · obtain ⟨rfl, -⟩ := Prod.mk.inj eq
    exact inv.handleSender did
  · obtain ⟨rfl, -⟩ := Prod.mk.inj eq
    exact inv.handleReceiver other
  · obtain ⟨rfl, -⟩ := Prod.mk.inj eq
    exact inv.atSender (List.mem_of_getElem? found) flown arrived
  · obtain ⟨rfl, -⟩ := Prod.mk.inj eq
    exact inv.atReceiver (List.mem_of_getElem? found) flown arrived

end LinkInv

end MpVideo.EndToEnd
