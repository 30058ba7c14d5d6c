import MpVideo.EndToEnd.Pings

/-!
# The requests of a connection

As long as no acknowledgement arrives, a path asks again and again, each time half a second
later than the time before. It never gives up; but it counts its requests in eight bits, so
that the pauses shrink to nothing after each 256 requests (`requests_backOff`).
-/

set_option autoImplicit false

namespace MpVideo.EndToEnd

open Wire Sender Receiver PathControl

/-- The datagram is a request. -/
def Flight.isRequest (flight : Flight) : Bool :=
  flight.bytes[1]? = some MsgId.simConnect.toUInt8

/-- The times at which the requests were sent. -/
def Link.requests (link : Link) : List ℕ :=
  (link.toReceiver.filter Flight.isRequest).map Flight.sentAt

/-- The time of a request when each pause is half a second longer than the one before, counted
in eight bits. -/
def requestTime (begun : ℕ) : ℕ → ℕ
  | 0 => begun
  | k + 1 => requestTime begun k + (k + 1) % 256 * 500 * millisecond

/-- The second byte of a message is its id. -/
theorem message_mid {pid : UInt8} {body : SimBody} {bytes : List UInt8}
    (message : Message pid body bytes) : bytes[1]? = some body.mid.toUInt8 := by
  obtain ⟨-, header, -, mid, rfl⟩ := message
  rw [← mid]
  rfl

theorem isRequest_message {pid : UInt8} {body : SimBody} {bytes : List UInt8}
    (message : Message pid body bytes) (sentAt : ℕ) :
    Flight.isRequest ⟨sentAt, bytes⟩ = decide (body.mid = .simConnect) := by
  have injective (mid : MsgId) (same : mid.toUInt8 = MsgId.simConnect.toUInt8) :
      mid = .simConnect := by
    have decoded := congrArg MsgId.ofUInt8? same
    rw [MsgId.ofUInt8?_toUInt8, MsgId.ofUInt8?_toUInt8] at decoded
    exact Option.some.inj decoded
  rw [Flight.isRequest, message_mid message]
  refine decide_eq_decide.mpr ⟨fun same => injective _ (Option.some.inj same), fun same => ?_⟩
  rw [same]

/-- What is sent and is no request does not count. -/
theorem requests_sends {link : Link} {path : PathControl} {calls : List SenderCall}
    (others : ∀ bytes, SenderCall.sendToNetwork bytes ∈ calls →
      ∃ pid body, Message pid body bytes ∧ body.mid ≠ .simConnect) :
    (link.sends (path, calls)).1.requests = link.requests := by
  have none : ((calls.filterMap SenderCall.datagram).map fun bytes =>
      (⟨link.now, bytes⟩ : Flight)).filter Flight.isRequest = [] := by
    refine List.filter_eq_nil_iff.mpr fun flight member => ?_
    obtain ⟨bytes, isSent, rfl⟩ := List.mem_map.mp member
    obtain ⟨call, called, datagram⟩ := List.mem_filterMap.mp isSent
    cases call with
    | sendToNetwork data =>
        obtain rfl := Option.some.inj datagram
        obtain ⟨pid, body, message, other⟩ := others _ called
        rw [isRequest_message message, decide_eq_false other]
        exact Bool.false_ne_true
    | notifyPathUsable | onNetworkChanged | onRttUpdate => cases datagram
  simp only [Link.requests, Link.sends, List.filter_append, none, List.append_nil]

/-- Another request is sent. -/
theorem requests_connect {link : Link} {path : PathControl} {bytes : List UInt8} {pid : UInt8}
    {connect : SimConnect} (message : Message pid (.connect connect) bytes) :
    (link.sends (path, [.sendToNetwork bytes])).1.requests = link.requests ++ [link.now] := by
  have isRequest : Flight.isRequest ⟨link.now, bytes⟩ = true := by
    rw [isRequest_message message]
    rfl
  have sent : (([SenderCall.sendToNetwork bytes].filterMap SenderCall.datagram).map fun bytes =>
      (⟨link.now, bytes⟩ : Flight)).filter Flight.isRequest = [⟨link.now, bytes⟩] :=
    List.filter_cons_of_pos isRequest
  simp only [Link.requests, Link.sends, List.filter_append, sent, List.map_append]
  rfl

/-! ## A path that asks -/

/-- A path without an acknowledgement, which has sent so many requests. -/
structure Waits (k : ℕ) (path : PathControl) : Prop where
  state : path.state = .ini ∨ path.state = .conning
  controller : path.controller = false
  socket : path.socket = true
  conC : path.conC = UInt8.ofNat k

/-- The next request is the only event that is scheduled. -/
structure Asks (begun k : ℕ) (path : PathControl) : Prop extends Waits (k + 1) path where
  timers : ∃ id, path.timers = [⟨id, requestTime begun (k + 1), .sendConnect⟩]

/-- So many requests were sent, and the path waits or is connected. -/
structure Asking (begun k : ℕ) (link : Link) : Prop where
  requests : link.requests = (List.range (k + 1)).map (requestTime begun)
  since : requestTime begun k ≤ link.now
  waits : link.sender.state = .conned ∨
    Asks begun k link.sender ∧ link.now ≤ requestTime begun (k + 1)

variable {delay : Delay} {pid : UInt8} {begun k : ℕ} {link next : Link} {path : PathControl}
  {calls out : List SenderCall}

/-- Nothing happened that a waiting path notices. -/
structure Unnoticed (path next : PathControl) : Prop where
  state : next.state = path.state
  controller : next.controller = path.controller
  socket : next.socket = path.socket
  conC : next.conC = path.conC
  timers : next.timers = path.timers

theorem Asks.unnoticed (asks : Asks begun k path) {next : PathControl}
    (same : Unnoticed path next) : Asks begun k next where
  state := by
    rw [same.state]
    exact asks.state
  controller := same.controller.trans asks.controller
  socket := same.socket.trans asks.socket
  conC := same.conC.trans asks.conC
  timers := by
    rw [same.timers]
    exact asks.timers

/-- The sender does something that is no request. -/
theorem Asking.sends (asking : Asking begun k link)
    (others : ∀ bytes, SenderCall.sendToNetwork bytes ∈ calls →
      ∃ pid body, Message pid body bytes ∧ body.mid ≠ .simConnect)
    (kept : path.state = .conned ∨ Unnoticed link.sender path) :
    Asking begun k (link.sends (path, calls)).1 where
  requests := (requests_sends others).trans asking.requests
  since := asking.since
  waits := by
    rcases kept with conned | same
    · exact .inl conned
    · rcases asking.waits with conned | ⟨asks, before⟩
      · exact .inl (same.state.trans conned)
      · exact .inr ⟨asks.unnoticed same, before⟩

theorem Asking.receives (asking : Asking begun k link) (result : PathReceiver × List PathCall) :
    Asking begun k (link.answers result).1 :=
  ⟨asking.requests, asking.since, asking.waits⟩

/-- The pause after a request, in milliseconds. -/
theorem backoff_toNat (k : ℕ) :
    ((UInt8.ofNat k + 1).toUInt32 * connTimeout).toNat = (k + 1) % 256 * 500 := by
  have counted : (k % 256 + 1) % 256 = (k + 1) % 256 := by omega
  have below : (k + 1) % 256 < 256 := Nat.mod_lt _ (by decide)
  simp only [connTimeout, UInt32.toNat_mul, UInt8.toNat_toUInt32, UInt8.toNat_add,
    UInt8.toNat_ofNat', UInt32.reduceToNat, UInt8.reduceToNat, Nat.reducePow, counted]
  exact Nat.mod_eq_of_lt (by omega)

/-- The next request is scheduled. -/
theorem Waits.scheduleRequest (waits : Waits k path) (none : path.timers = []) {now : ℕ}
    (at_ : now = requestTime begun k) : Asks begun k (path.scheduleRequest now) where
  state := .inr rfl
  controller := waits.controller
  socket := waits.socket
  conC := by
    change path.conC + 1 = _
    rw [waits.conC]
    exact (UInt8.ofNat_add _ _).symm
  timers := by
    refine ⟨path.nextTimer, ?_⟩
    change path.timers ++ [⟨path.nextTimer,
      now + ((path.conC + 1).toUInt32 * connTimeout).toNat * millisecond, .sendConnect⟩] = _
    rw [none, waits.conC, backoff_toNat, at_]
    rfl

/-- The path asks. -/
theorem Waits.sendConnect (waits : Waits k path) (none : path.timers = []) {now : ℕ}
    (at_ : now = requestTime begun k) : Asks begun k (path.sendConnect now).1 := by
  have sent (body : SimBody) : Waits k (path.sendMsg body).1 :=
    ⟨waits.state, waits.controller, waits.socket, waits.conC⟩
  have unscheduled (body : SimBody) : (path.sendMsg body).1.timers = [] := none
  have asks := waits.state
  rcases sendConnect_cases now path with ⟨-, eq⟩ | ⟨conned, -⟩ | ⟨discon, -⟩
  · rw [eq]
    dsimp only
    exact (sent _).scheduleRequest (unscheduled _) at_
  · simp [conned] at asks
  · simp [discon] at asks

/-- With a socket, a message goes to the network. -/
theorem sendMsg_calls (socket : path.socket = true) {body : SimBody} (legal : body.Legal) :
    ∃ bytes, Message path.pid body bytes ∧ (path.sendMsg body).2 = [.sendToNetwork bytes] := by
  refine ⟨_, ⟨legal, ⟨path.pid, body.mid.toUInt8, path.uid⟩, rfl, rfl, rfl⟩, ?_⟩
  simp only [sendMsg, sendToNetwork, simEncodeMsg_data, if_pos socket]

/-- The requests of a path that asks for its connection. -/
theorem requests_sendConnect (asks : path.state = .ini ∨ path.state = .conning)
    (socket : path.socket = true) (link : Link) :
    (link.sends (path.sendConnect link.now)).1.requests = link.requests ++ [link.now] := by
  rcases sendConnect_cases link.now path with ⟨-, eq⟩ | ⟨conned, -⟩ | ⟨discon, -⟩
  · obtain ⟨bytes, message, calls⟩ := sendMsg_calls socket
      (show SimBody.Legal (.connect ⟨millis link.now, .empty, 0⟩) from trivial)
    rw [eq, calls]
    exact requests_connect message
  · simp [conned] at asks
  · simp [discon] at asks

/-- A request is sent at its time, and the next one scheduled. -/
theorem Waits.asking (waits : Waits k path) (none : path.timers = [])
    (requests : link.requests = (List.range k).map (requestTime begun))
    (now : link.now = requestTime begun k) :
    Asking begun k (link.sends (path.sendConnect link.now)).1 where
  requests := by
    rw [requests_sendConnect waits.state waits.socket link, requests, List.range_succ,
      List.map_append, now]
    rfl
  since := now ▸ le_rfl
  waits := by
    refine .inr ⟨waits.sendConnect none now, ?_⟩
    change link.now ≤ _
    rw [now]
    exact Nat.le_add_right _ _

/-- The scheduled request is sent. -/
theorem Asking.request (asking : Asking begun k link) {timer : Timer}
    (member : timer ∈ link.sender.timers) (due : timer.due = link.now)
    (asks : Asks begun k link.sender) :
    Asking begun (k + 1)
      (link.sends ((link.sender.cancel (some timer.id)).sendConnect link.now)).1 := by
  obtain ⟨id, only⟩ := asks.timers
  obtain rfl : timer = ⟨id, requestTime begun (k + 1), .sendConnect⟩ := by
    rw [only] at member
    exact List.mem_singleton.mp member
  have none : (link.sender.cancel (some id)).timers = [] := by
    simp [cancel, only]
  have waits : Waits (k + 1) (link.sender.cancel (some id)) :=
    ⟨asks.state, asks.controller, asks.socket, asks.conC⟩
  exact waits.asking none asking.requests due.symm

namespace Unnoticed

theorem trans {middle next : PathControl} (first : Unnoticed path middle)
    (second : Unnoticed middle next) : Unnoticed path next where
  state := second.state.trans first.state
  controller := second.controller.trans first.controller
  socket := second.socket.trans first.socket
  conC := second.conC.trans first.conC
  timers := second.timers.trans first.timers

theorem sendMsg (body : SimBody) (path : PathControl) : Unnoticed path (path.sendMsg body).1 :=
  ⟨rfl, rfl, rfl, rfl, rfl⟩

theorem recvSegAck (ack : SimSegmentAck) (path : PathControl) :
    Unnoticed path (path.recvSegAck ack) := by
  rw [PathControl.recvSegAck]
  split_ifs <;> exact ⟨rfl, rfl, rfl, rfl, rfl⟩

theorem updateRtt {next : PathControl} {time stored : UInt32}
    (updated : path.updateRtt time stored = some (next, calls)) : Unnoticed path next := by
  have measured (keepRtt : UInt32) :
      Unnoticed path ((path.updateMinRtt keepRtt).smoothRtt keepRtt stored) := by
    rw [updateMinRtt]
    split_ifs <;> exact ⟨rfl, rfl, rfl, rfl, rfl⟩
  simp only [PathControl.updateRtt] at updated
  generalize (if time > 5 then time else 5) = keepRtt at updated
  obtain ⟨state, controller, socket, conC, timers⟩ := measured keepRtt
  split_ifs at updated <;> obtain ⟨rfl, -⟩ := Prod.mk.inj (Option.some.inj updated) <;>
    exact ⟨state, controller, socket, conC, timers⟩

theorem of_quiet {next : PathControl} (quiet : Quiet path (next, calls)) :
    Unnoticed path next := by
  obtain ⟨queue, rate, sRate, eq⟩ := quiet.kept
  dsimp only at eq
  subst eq
  exact ⟨rfl, rfl, rfl, rfl, rfl⟩

end Unnoticed

namespace Asking

/-- Whatever the sender does of its own accord. -/
theorem handle (asking : Asking begun k link) (queue : link.sender.Holds LegalSegment)
    {event : ControlEvent} (once : event ≠ .connect)
    (handled : link.sender.handle link.now event = some (path, calls)) :
    ∃ k, Asking begun k (link.sends (path, calls)).1 := by
  rcases handle_cases queue handled with
    quiet | ⟨connect, -⟩ | ⟨timer, member, -, due, ⟨request, eq⟩ | ⟨check, eq⟩⟩ |
    ⟨-, -, controlled, rfl, rfl⟩
  · refine ⟨k, asking.sends (fun bytes called => ?_) (.inr (.of_quiet quiet))⟩
    rcases quiet.calls _ called with ⟨body, data, plain, message, eq⟩ | ⟨_, _, _, eq⟩
    · obtain rfl := SenderCall.sendToNetwork.inj eq
      refine ⟨_, body, message, fun connect => ?_⟩
      cases body <;> first | exact plain.elim | cases connect
    · cases eq
  · exact absurd connect once
  · rcases asking.waits with conned | ⟨asks, -⟩
    · have still : (link.sender.cancel (some timer.id)).state = .conned := conned
      rcases sendConnect_cases link.now (link.sender.cancel (some timer.id)) with
        ⟨open_, -⟩ | ⟨-, cancelled⟩ | ⟨discon, -⟩
      · simp [still] at open_
      · rw [eq, cancelled]
        exact ⟨k, asking.sends (fun _ called => absurd called List.not_mem_nil) (.inl still)⟩
      · cases still.symm.trans discon
    · exact eq ▸ ⟨k + 1, asking.request member due asks⟩
  · rcases asking.waits with conned | ⟨asks, -⟩
    · have state := (Unreported.checkPing link.now (link.sender.cancel (some timer.id))).state
      refine ⟨k, eq ▸ asking.sends (fun bytes called => ?_) (.inl (state.trans conned))⟩
      exact ⟨_, _, mem_checkPing called, fun connect => by cases connect⟩
    · obtain ⟨id, only⟩ := asks.timers
      rw [only, List.mem_singleton] at member
      rw [member] at check
      cases check
  · rcases asking.waits with conned | ⟨asks, -⟩
    · exact ⟨k, asking.sends (fun _ called => absurd called List.not_mem_nil) (.inl conned)⟩
    · cases asks.controller.symm.trans controlled

/-- A datagram arrives at the sender. -/
theorem recvPacket (asking : Asking begun k link) {ver : UInt8} {body : SimBody}
    {bytes : List UInt8} (message : Message ver body bytes)
    (arrived : link.sender.recvPacket link.now bytes = some (path, calls)) :
    Asking begun k (link.sends (path, calls)).1 := by
  obtain ⟨strm, outcome⟩ := recvPacket_cases message arrived
  have before : Unnoticed link.sender { link.sender with strm } := ⟨rfl, rfl, rfl, rfl, rfl⟩
  generalize ({ link.sender with strm } : PathControl) = started at outcome before
  have silent : ∀ bytes, SenderCall.sendToNetwork bytes ∈ ([] : List SenderCall) →
      ∃ pid body, Message pid body bytes ∧ body.mid ≠ .simConnect :=
    fun _ called => absurd called List.not_mem_nil
  rcases outcome with ⟨rfl, rfl⟩ | ⟨-, -, ⟨ack, rfl, eq⟩ | ⟨ack, rfl, rfl, rfl⟩ |
    ⟨ping, rfl, eq⟩ | ⟨pong, rfl, -, updated⟩⟩
  · exact asking.sends silent (.inr before)
  · have conned := (reported_onConnectAck link.now ack started).1
    rw [← eq] at conned
    refine asking.sends (fun bytes called => ?_) (.inl conned)
    have isSent : SenderCall.sendToNetwork bytes ∈ (started.onConnectAck link.now ack).2 :=
      eq ▸ called
    exact ⟨_, _, mem_onConnectAck isSent, fun connect => nomatch connect⟩
  · exact asking.sends silent (.inr (before.trans (.recvSegAck ack started)))
  · have same := before.trans (Unnoticed.sendMsg (.pong ping) started)
    rw [← eq] at same
    refine asking.sends (fun bytes called => ?_) (.inr same)
    have isSent : SenderCall.sendToNetwork bytes ∈ (started.sendMsg (.pong ping)).2 :=
      eq ▸ called
    obtain ⟨data, call, message⟩ :=
      mem_sendMsg (show SimBody.Legal (.pong ping) from trivial) isSent
    obtain rfl := SenderCall.sendToNetwork.inj call
    exact ⟨_, _, message, fun connect => nomatch connect⟩
  · exact asking.sends (fun _ called => absurd called (not_mem_updateRtt updated))
      (.inr (before.trans (.updateRtt updated)))

/-- Every event but another connection goes on like this. -/
theorem step (inv : LinkInv delay pid link) (asking : Asking begun k link) {event : LinkEvent}
    (once : event ≠ .sender .connect)
    (handled : (Link.machine delay).step link event = some (next, out)) :
    ∃ k, Asking begun k next := by
  rcases Link.step_cases handled with ⟨duration, -, early, rfl, -⟩ |
    ⟨control, ⟨path, calls⟩, rfl, did, eq⟩ | ⟨_, -, eq⟩ |
    ⟨_, flight, ⟨path, calls⟩, -, found, -, arrived, eq⟩ | ⟨_, _, _, _, -, -, -, -, eq⟩
  · refine ⟨k, asking.requests, asking.since.trans (Nat.le_add_right _ _), ?_⟩
    refine asking.waits.imp_right fun ⟨asks, _⟩ => ⟨asks, ?_⟩
    obtain ⟨id, only⟩ := asks.timers
    exact early _ (only ▸ List.mem_singleton_self _)
  · obtain ⟨rfl, -⟩ := Prod.mk.inj eq
    exact asking.handle inv.queue (fun connect => once (connect ▸ rfl)) did
  · obtain ⟨rfl, -⟩ := Prod.mk.inj eq
    exact ⟨k, asking.receives _⟩
  · obtain ⟨rfl, -⟩ := Prod.mk.inj eq
    obtain ⟨ver, body, message, -, -⟩ := inv.toSender flight (List.mem_of_getElem? found)
    exact ⟨k, asking.recvPacket message arrived⟩
  · obtain ⟨rfl, -⟩ := Prod.mk.inj eq
    exact ⟨k, asking.receives _⟩

/-- The first request. -/
theorem of_connect (pid : UInt8) (senderUid receiverUid : UInt32) (paceMode : PaceMode)
    (begun : ℕ)
    (handled : (Link.machine delay).step
      { Link.start pid senderUid receiverUid paceMode with now := begun } (.sender .connect) =
        some (next, out)) : Asking begun 0 next := by
  obtain ⟨rfl, -⟩ := Prod.mk.inj (Option.some.inj handled)
  have waits : Waits 0 (Link.start pid senderUid receiverUid paceMode).sender :=
    ⟨.inl rfl, rfl, rfl, rfl⟩
  exact waits.asking rfl rfl rfl

end Asking

/-- **The requests of a path that asks for its connection once.** In every run they are sent
half a second, a second and so on after each other, with the pauses counted in eight bits; and
until the path is connected the next one is never overdue. -/
theorem requests_backOff (delay : Delay) (pid : UInt8) (senderUid receiverUid : UInt32)
    (paceMode : PaceMode) (begun : ℕ) (events : List LinkEvent) (link : Link)
    (log : List SenderCall)
    (ran : (Link.machine delay).run
      { Link.start pid senderUid receiverUid paceMode with now := begun }
        (.sender .connect :: events) = some (link, log))
    (once : ∀ event ∈ events, event ≠ .sender .connect) :
    ∃ k, link.requests = (List.range (k + 1)).map (requestTime begun) ∧
      requestTime begun k ≤ link.now ∧
      (link.sender.state ≠ .conned → link.now ≤ requestTime begun (k + 1)) := by
  obtain ⟨first, out, more, connects, onwards, -⟩ := Machine.run_cons.mp ran
  have initial : LinkInv delay pid
      { Link.start pid senderUid receiverUid paceMode with now := begun } := by
    have inv := LinkInv.start delay pid senderUid receiverUid paceMode
    exact ⟨inv.pid_eq, inv.queue, inv.named, inv.toReceiver, inv.toSender⟩
  obtain ⟨-, k, asking⟩ := Machine.run_along_invariant
    (fun link => LinkInv delay pid link ∧ ∃ k, Asking begun k link)
    (fun _ _ _ _ ⟨inv, _, asking⟩ other handled =>
      ⟨inv.step handled, asking.step inv other handled⟩)
    (Machine.along_of_events first once)
    ⟨initial.step connects, 0, .of_connect pid senderUid receiverUid paceMode begun connects⟩
    onwards
  exact ⟨k, asking.requests, asking.since, fun apart =>
    (asking.waits.resolve_left apart).2⟩

/-- The timer expires twice, and three nanoseconds pass. -/
def expiredTwice : List LinkEvent :=
  [.elapse 500000000, .sender (.timerExpired 0), .elapse 1000000000, .sender (.timerExpired 1),
    .elapse 3]

/-- Three requests, all of which the network loses. -/
theorem requests_backOff_lost : ∃ (link : Link) (log : List SenderCall) (k : ℕ),
    (Link.machine ⟨20000000, 30000000⟩).run
        { Link.start 1 7 8 .withCongestion with now := 5 } (.sender .connect :: expiredTwice) =
          some (link, log) ∧
      link.requests = (List.range (k + 1)).map (requestTime 5) ∧
      requestTime 5 k ≤ link.now ∧
      (link.sender.state ≠ .conned → link.now ≤ requestTime 5 (k + 1)) := by
  have defined : ((Link.machine ⟨20000000, 30000000⟩).run
      { Link.start 1 7 8 .withCongestion with now := 5 }
        (.sender .connect :: expiredTwice)).isSome := by
    decide +kernel
  obtain ⟨⟨link, log⟩, ran⟩ := Option.isSome_iff_exists.mp defined
  obtain ⟨k, asked⟩ := requests_backOff ⟨20000000, 30000000⟩ 1 7 8 .withCongestion 5 expiredTwice
    link log ran (by simp [expiredTwice])
  exact ⟨link, log, k, ran, asked⟩

end MpVideo.EndToEnd
