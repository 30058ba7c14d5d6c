import MpVideo.EndToEnd.Handshake

/-!
# Acknowledgements over a network

A path sender numbers its segments, the receiver keeps the base below which nothing is awaited,
and each acknowledgement carries this base and a number that arrived. `RecvSegAck` ignores an
acknowledgement with a number that the sender does not know.

In a link it never does (`acks_accepted`). Numbers that are on their way are numbers of the
sender, so that the tables of the receiver stay below its next number; the base of the receiver
only grows, so that the base of the sender stays behind it, whatever the network loses, repeats
and reorders.
-/

set_option autoImplicit false

namespace MpVideo.EndToEnd

open Wire Sender Receiver

/-! ## The numbers of the sender -/

/-- The segment of a message has a number below a bound. -/
def Numbered (bound : UInt32) : SimBody → Prop
  | .seg seg => seg.packetId < bound
  | _ => True

/-- The queue holds segments whose layout can be read back, with numbers below the next one. -/
def Ordered (path : PathControl) : Prop :=
  path.Holds fun seg => PathControl.LegalSegment seg ∧ seg.packetId < path.packetSeed

/-- The sender did something, and what it sent has its numbers. -/
structure Issues (path : PathControl) (result : PathControl × List SenderCall) : Prop where
  ordered : Ordered result.1
  grows : path.packetSeed ≤ result.1.packetSeed
  baseSeq : result.1.baseSeq = path.baseSeq
  sent : ∀ bytes, SenderCall.sendToNetwork bytes ∈ result.2 →
    ∃ ver body, Message ver body bytes ∧ Numbered result.1.packetSeed body

theorem Numbered.mono {bound more : UInt32} (grows : bound ≤ more) {body : SimBody}
    (numbered : Numbered bound body) : Numbered more body := by
  cases body with
  | seg seg => exact lt_of_lt_of_le (show seg.packetId < bound from numbered) grows
  | connect | connectAck | disconnect | disconnectAck | ping | pong | segAck | feedback | fir
  | pad => trivial

namespace Issues

variable {path next : PathControl} {now : ℕ} {calls : List SenderCall}

theorem refl (ordered : Ordered path) : Issues path (path, []) :=
  ⟨ordered, le_refl _, rfl, fun _ member => absurd member List.not_mem_nil⟩

theorem trans {middle last : PathControl} {more : List SenderCall}
    (first : Issues path (middle, calls)) (second : Issues middle (last, more)) :
    Issues path (last, calls ++ more) where
  ordered := second.ordered
  grows := le_trans first.grows second.grows
  baseSeq := second.baseSeq.trans first.baseSeq
  sent bytes member := by
    rcases List.mem_append.mp member with early | late
    · obtain ⟨ver, body, message, numbered⟩ := first.sent bytes early
      exact ⟨ver, body, message, numbered.mono second.grows⟩
    · exact second.sent bytes late

/-- What concerns the connection sends no segments. -/
theorem of_sameQueue (ordered : Ordered path) (same : PathControl.SameQueue path next)
    (sent : ∀ bytes, SenderCall.sendToNetwork bytes ∈ calls →
      ∃ ver body, Message ver body bytes ∧ ∀ bound, Numbered bound body) :
    Issues path (next, calls) where
  ordered entry member := by
    rw [same.buf] at member
    rw [same.packetSeed]
    exact ordered entry member
  grows := le_of_eq same.packetSeed.symm
  baseSeq := same.baseSeq
  sent bytes member := by
    obtain ⟨ver, body, message, numbered⟩ := sent bytes member
    exact ⟨ver, body, message, numbered _⟩

theorem sendMsg (ordered : Ordered path) {body : SimBody} (legal : body.Legal)
    (numbered : ∀ bound, Numbered bound body) : Issues path (path.sendMsg body) := by
  refine of_sameQueue ordered (PathControl.sameQueue_sendMsg body path) fun bytes member => ?_
  obtain ⟨data, called, message⟩ := PathControl.mem_sendMsg legal member
  obtain rfl := SenderCall.sendToNetwork.inj called
  exact ⟨_, body, message, numbered⟩

theorem sendConnect (ordered : Ordered path) (now : ℕ) : Issues path (path.sendConnect now) :=
  of_sameQueue ordered (PathControl.sameQueue_sendConnect now path) fun _ member =>
    ⟨_, _, PathControl.mem_sendConnect member, fun _ => trivial⟩

theorem checkPing (ordered : Ordered path) (now : ℕ) : Issues path (path.checkPing now) :=
  of_sameQueue ordered (PathControl.sameQueue_checkPing now path) fun _ member =>
    ⟨_, _, PathControl.mem_checkPing member, fun _ => trivial⟩

/-- A segment gets the next number. -/
theorem put (ordered : Ordered path) (few : path.packetSeed < 0xffffffff) {seg : SimSegment}
    (legal : PathControl.LegalSegment seg) :
    Issues path (path.queued ((path.toPathSender.put seg).1, [])) := by
  cases running : path.stop with
  | true =>
      rw [PathSender.put, if_pos running]
      exact refl ordered
  | false =>
      obtain ⟨pacing, pacingRunning, eq⟩ := PathSender.put_eq running seg
      have grows : path.packetSeed < path.packetSeed + 1 := by
        rw [UInt32.lt_iff_toNat_lt] at few ⊢
        simp only [UInt32.toNat_add, UInt32.reduceToNat] at few ⊢
        omega
      rw [eq]
      refine ⟨fun entry member => ?_, le_of_lt grows, rfl,
        fun _ member => absurd member List.not_mem_nil⟩
      rcases SortedMap.mem_insert_of member with rfl | old
      · exact ⟨legal, grows⟩
      · obtain ⟨fine, below⟩ := ordered entry old
        exact ⟨fine, lt_trans below grows⟩

/-- A segment of the queue is sent with its number. -/
theorem sendSegment (ordered : Ordered path) {entry : UInt16 × SimSegment}
    (queued : entry ∈ path.buf.entries) (stored : UInt32) (firstTs : Int64) :
    Issues path (path.queued
      ((path.toPathSender.take entry.1 entry.2).sendSegment stored firstTs entry.2)) := by
  obtain ⟨legal, below⟩ := ordered entry queued
  obtain ⟨sendTs, strm, eq⟩ := PathSender.sendSegment_eq stored firstTs entry.2
    (path.toPathSender.take entry.1 entry.2)
  rw [eq]
  refine ⟨ordered.take entry.1 entry.2, le_refl _, rfl, fun bytes member => ?_⟩
  simp only [PathControl.queued, List.flatMap_cons, List.flatMap_nil, List.append_nil,
    PathControl.sendToNetwork] at member
  split_ifs at member
  · obtain rfl := SenderCall.sendToNetwork.inj (List.mem_singleton.mp member)
    exact ⟨_, .seg { entry.2 with sendTs }, ⟨legal, _, rfl, rfl, rfl⟩, below⟩
  · exact absurd member List.not_mem_nil

theorem timeToSendPacket (ordered : Ordered path) (seq : UInt16) (retransmission : Bool)
    (stored : UInt32) (firstTs : Int64) :
    Issues path (path.queued
      (path.toPathSender.timeToSendPacket seq retransmission stored firstTs)) := by
  rw [PathSender.timeToSendPacket, PathSender.getSegment]
  split_ifs
  · exact refl ordered
  · exact refl ordered
  · cases found : path.buf.find? seq with
    | none => exact refl ordered
    | some seg =>
        have queued : (seq, seg) ∈ path.buf.entries := SortedMap.find?_eq_some_iff.mp found
        exact sendSegment ordered queued stored firstTs

theorem pacingSendSegment (ordered : Ordered path) (stored : UInt32) (firstTs : Int64) :
    Issues path (path.queued (path.toPathSender.pacingSendSegment stored firstTs)) := by
  rw [PathSender.pacingSendSegment, PathSender.getFirstSegment]
  split_ifs
  · cases queued : path.buf.entries with
    | nil => exact ⟨ordered, le_refl _, rfl, fun _ member => absurd member List.not_mem_nil⟩
    | cons entry rest =>
        have first : entry ∈ path.buf.entries := queued ▸ List.mem_cons_self
        exact sendSegment ordered first stored firstTs
  · exact refl ordered

theorem sendPadding (ordered : Ordered path) (stack : ℕ → UInt8) (payloadLen : ℕ) (ts : UInt32) :
    Issues path ((path.sendPadding stack payloadLen ts).1,
      (path.sendPadding stack payloadLen ts).2.1) := by
  have numbered : Issues path ({ path with transSeq := path.transSeq + 1 }, []) :=
    ⟨ordered, le_refl _, rfl, fun _ member => absurd member List.not_mem_nil⟩
  exact numbered.trans (sendMsg numbered.ordered
    (show SimBody.Legal (.pad (path.padding stack payloadLen ts)) from trivial) fun _ => trivial)

theorem paddingLoop (ordered : Ordered path) (stack : ℕ → UInt8) (ts : UInt32)
    (fuel remain : ℕ) : Issues path (path.paddingLoop stack ts fuel remain) := by
  induction fuel generalizing path remain with
  | zero => exact refl ordered
  | succ fuel ih =>
      rw [PathControl.paddingLoop]
      split_ifs
      · exact refl ordered
      · have sent := sendPadding ordered stack maxPadSize ts
        exact sent.trans (ih sent.ordered _)
      · exact sendPadding ordered stack remain ts
      · exact refl ordered

/-- What the sender does of its own accord. -/
theorem handle (ordered : Ordered path) {event : ControlEvent}
    (few : ∀ seg, event = .put seg → path.packetSeed < 0xffffffff)
    (handled : path.handle now event = some (next, calls)) : Issues path (next, calls) := by
  cases event with
  | connect => exact Option.some.inj handled ▸ sendConnect ordered now
  | timerExpired id =>
      rw [PathControl.handle, PathControl.timerExpired] at handled
      cases found : path.timers.find? (·.id = id) with
      | none =>
          rw [found] at handled
          cases handled
      | some timer =>
          simp only [found] at handled
          split_ifs at handled
          have cancelled : Ordered (path.cancel (some id)) := ordered
          cases action : timer.action with
          | sendConnect =>
              simp only [action] at handled
              obtain ⟨after, grows, baseSeq, sent⟩ := sendConnect cancelled now
              rw [Option.some.inj handled] at after grows baseSeq sent
              exact ⟨after, grows, baseSeq, sent⟩
          | checkPing =>
              simp only [action] at handled
              obtain ⟨after, grows, baseSeq, sent⟩ := checkPing cancelled now
              rw [Option.some.inj handled] at after grows baseSeq sent
              exact ⟨after, grows, baseSeq, sent⟩
  | put seg =>
      rw [PathControl.handle] at handled
      split_ifs at handled with good
      exact Option.some.inj handled ▸ put ordered (few seg rfl) good.2
  | timeToSendPacket seq retransmission firstTs =>
      rw [PathControl.handle] at handled
      split_ifs at handled
      exact Option.some.inj handled ▸ timeToSendPacket ordered ..
  | pacingSendSegment firstTs => exact Option.some.inj handled ▸ pacingSendSegment ordered ..
  | timeToSendPadding stack bytes =>
      rw [PathControl.handle] at handled
      split_ifs at handled
      have eq := Option.some.inj handled
      rw [PathControl.timeToSendPadding] at eq
      split_ifs at eq
      · exact eq ▸ refl ordered
      · exact eq ▸ refl ordered
      · exact eq ▸ paddingLoop ordered ..
  | onNetworkChanged bitrate fractionLoss rtt =>
      obtain ⟨rfl, rfl⟩ := Prod.mk.inj (Option.some.inj handled)
      exact ⟨ordered, le_refl _, rfl, fun _ member => by cases List.mem_singleton.mp member⟩
  | disconnect =>
      exact Option.some.inj handled ▸
        sendMsg ordered (show SimBody.Legal (.disconnect _) from trivial) fun _ => trivial
  | stop =>
      obtain ⟨stopped, defined, result⟩ := Option.map_eq_some_iff.mp handled
      obtain ⟨rfl, rfl⟩ := Prod.mk.inj result
      rw [PathControl.stopControl] at defined
      split_ifs at defined with already
      · exact Option.some.inj defined ▸ refl ordered
      · obtain rfl := Option.some.inj defined
        have still : path.toPathSender.stopPath.packetSeed = path.packetSeed := by
          rw [PathSender.stopPath, if_neg already]
        refine ⟨fun entry member => ?_, le_of_eq still.symm, rfl,
          fun _ member => absurd member List.not_mem_nil⟩
        have empty : path.toPathSender.stopPath.buf = .empty := by
          rw [PathSender.stopPath, if_neg already]
        change entry ∈ path.toPathSender.stopPath.buf.entries at member
        rw [empty] at member
        exact absurd member List.not_mem_nil

end Issues

/-! ## The numbers of the receiver -/

/-- The greatest number is one that arrived. -/
theorem arrive_maxSeq_le (packetId : UInt32) (index : UInt16) (tables : SeqTables) :
    (tables.arrive packetId index).maxSeq ≤ max tables.maxSeq packetId := by
  have same : (tables.record packetId index).maxSeq =
      max (tables.initSeqs packetId index).maxSeq packetId := SeqTables.updataRecvTable_maxSeq _ _
  have started : (tables.initSeqs packetId index).maxSeq ≤ max tables.maxSeq packetId := by
    rw [SeqTables.initSeqs]
    split_ifs with first
    · refine le_trans ?_ (le_max_right _ _)
      have less := UInt32.lt_iff_toNat_lt.mp first.2
      rw [UInt32.le_iff_toNat_le, UInt32.toNat_sub, UInt32.toNat_sub]
      simp only [UInt32.reduceToNat]
      omega
    · exact le_max_left _ _
  rw [SeqTables.arrive]
  split_ifs
  · exact le_max_left _ _
  · exact same ▸ max_le started (le_max_right _ _)

/-! ## The invariant -/

/-- An acknowledgement with a base and a number that are not beyond those of the receiver. -/
def Acknowledges (tables : SeqTables) : SimBody → Prop
  | .segAck ack =>
      ack.basePacketId ≤ tables.baseSeq ∧ ack.ackedPacketId ≤ tables.maxSeq
  | _ => True

/-- What holds of the numbers in a link at any time. -/
structure AckInv (link : Link) : Prop where
  ordered : Ordered link.sender
  sent : ∀ flight ∈ link.toReceiver, ∃ ver body, Message ver body flight.bytes ∧
    Numbered link.sender.packetSeed body
  consistent : link.receiver.tables.Consistent
  received : link.receiver.tables.maxSeq < link.sender.packetSeed
  answered : ∀ flight ∈ link.toSender, ∃ ver body, Message ver body flight.bytes ∧
    Acknowledges link.receiver.tables body
  base : link.sender.baseSeq ≤ link.receiver.tables.baseSeq

/-- The numbers do not run out, and only what was received is consumed. -/
def Orderly (link : Link) : LinkEvent → Prop
  | .sender (.put _) => link.sender.packetSeed < 0xffffffff
  | .receiver (.consume packetId) => packetId ≤ link.receiver.tables.maxSeq
  | _ => True

instance (link : Link) (event : LinkEvent) : Decidable (Orderly link event) :=
  match event with
  | .sender (.put _) => inferInstanceAs (Decidable (link.sender.packetSeed < 0xffffffff))
  | .receiver (.consume packetId) =>
      inferInstanceAs (Decidable (packetId ≤ link.receiver.tables.maxSeq))
  | .elapse _ | .atSender _ | .atReceiver _ _ | .sender .connect | .sender (.timerExpired _)
  | .sender (.timeToSendPacket _ _ _) | .sender (.pacingSendSegment _)
  | .sender (.timeToSendPadding _ _) | .sender (.onNetworkChanged _ _ _) | .sender .disconnect
  | .sender .stop | .receiver .pingTimerExpired | .receiver .disconnect | .receiver .stop =>
      isTrue trivial

namespace AckInv

variable {delay : Delay} {link next : Link} {event : LinkEvent} {out : List SenderCall}

theorem start (pid : UInt8) (senderUid receiverUid : UInt32) (paceMode : PaceMode) :
    AckInv (Link.start pid senderUid receiverUid paceMode) where
  ordered _ member := absurd member List.not_mem_nil
  sent _ member := absurd member List.not_mem_nil
  consistent := SeqTables.consistent_fresh
  received := by change (0 : UInt32) < 1; decide
  answered _ member := absurd member List.not_mem_nil
  base := le_refl _

theorem strm (inv : AckInv link) (strm : BinStream) :
    AckInv { link with sender := { link.sender with strm } } :=
  ⟨inv.ordered, inv.sent, inv.consistent, inv.received, inv.answered, inv.base⟩

/-- The sender did something. -/
theorem sends (inv : AckInv link) {path : PathControl} {calls : List SenderCall}
    (issues : Issues link.sender (path, calls)) : AckInv (link.sends (path, calls)).1 where
  ordered := issues.ordered
  sent flight member := by
    rcases List.mem_append.mp member with old | new
    · obtain ⟨ver, body, message, numbered⟩ := inv.sent flight old
      exact ⟨ver, body, message, numbered.mono issues.grows⟩
    · obtain ⟨bytes, isSent, rfl⟩ := List.mem_map.mp new
      obtain ⟨call, called, datagram⟩ := List.mem_filterMap.mp isSent
      cases call with
      | sendToNetwork data =>
          obtain rfl := Option.some.inj datagram
          exact issues.sent _ called
      | notifyPathUsable | onNetworkChanged | onRttUpdate => cases datagram
  consistent := inv.consistent
  received := lt_of_lt_of_le inv.received issues.grows
  answered := inv.answered
  base := by
    have same : path.baseSeq = link.sender.baseSeq := issues.baseSeq
    change path.baseSeq ≤ _
    rw [same]
    exact inv.base

/-- The tables of the receiver advance, up to numbers of the sender. -/
theorem answers (inv : AckInv link) {path : PathReceiver} {calls : List PathCall}
    (consistent : path.tables.Consistent)
    (baseGrows : link.receiver.tables.baseSeq ≤ path.tables.baseSeq)
    (maxGrows : link.receiver.tables.maxSeq ≤ path.tables.maxSeq)
    (received : path.tables.maxSeq < link.sender.packetSeed)
    (messages : ∀ bytes, PathCall.sendToNetwork bytes ∈ calls →
      ∃ ver body, Message ver body bytes ∧ Acknowledges path.tables body) :
    AckInv (link.answers (path, calls)).1 where
  ordered := inv.ordered
  sent := inv.sent
  consistent := consistent
  received := received
  answered flight member := by
    rcases List.mem_append.mp member with old | new
    · obtain ⟨ver, body, message, known⟩ := inv.answered flight old
      refine ⟨ver, body, message, ?_⟩
      cases body with
      | segAck ack => exact ⟨le_trans known.1 baseGrows, le_trans known.2 maxGrows⟩
      | connect | connectAck | disconnect | disconnectAck | ping | pong | seg | feedback | fir
      | pad => trivial
    · obtain ⟨bytes, isSent, rfl⟩ := List.mem_map.mp new
      obtain ⟨call, called, datagram⟩ := List.mem_filterMap.mp isSent
      cases call with
      | sendToNetwork data =>
          obtain rfl := Option.some.inj datagram
          exact messages _ called
      | deliverToCache | delay => cases datagram
  base := le_trans inv.base baseGrows

/-- What leaves the tables alone. -/
theorem answersSame (inv : AckInv link) {path : PathReceiver} {calls : List PathCall}
    (same : path.tables = link.receiver.tables)
    (messages : ∀ bytes, PathCall.sendToNetwork bytes ∈ calls →
      ∃ ver body, Message ver body bytes ∧ Acknowledges path.tables body) :
    AckInv (link.answers (path, calls)).1 :=
  inv.answers (same ▸ inv.consistent) (le_of_eq (congrArg SeqTables.baseSeq same.symm))
    (le_of_eq (congrArg SeqTables.maxSeq same.symm)) (same ▸ inv.received) messages

/-- What a receiver sends of its own accord acknowledges what it has. -/
theorem acknowledges {now : UInt32} {tables : SeqTables} {body : SimBody}
    (answer : PathReceiver.Answer now tables body) : Acknowledges tables body := by
  cases body with
  | segAck ack =>
      obtain ⟨base, acked⟩ := answer
      exact ⟨le_of_eq base, acked⟩
  | connect | connectAck | disconnect | disconnectAck | ping | pong | seg | feedback | fir
  | pad => trivial

/-- The effect of an acknowledgement: the base is the greater one. -/
theorem recvSegAck_eq (inv : AckInv link) {ack : SimSegmentAck}
    (known : Acknowledges link.receiver.tables (.segAck ack)) :
    link.sender.recvSegAck ack =
      { link.sender with baseSeq := max link.sender.baseSeq ack.basePacketId } := by
  obtain ⟨base, acked⟩ := known
  have ackedKnown : ¬ ack.ackedPacketId > link.sender.packetSeed :=
    not_lt.mpr (le_trans acked (le_of_lt inv.received))
  have baseKnown : ¬ ack.basePacketId > link.sender.packetSeed :=
    not_lt.mpr (le_trans base (le_trans inv.consistent.base_le_max (le_of_lt inv.received)))
  rw [PathControl.recvSegAck, if_neg (not_or.mpr ⟨ackedKnown, baseKnown⟩)]
  split_ifs with later
  · rw [max_eq_right later]
  · rw [max_eq_left (le_of_lt (not_le.mp later))]

/-- A datagram of the receiver arrives. -/
theorem atSender (inv : AckInv link) {flight : Flight} {path : PathControl}
    {calls : List SenderCall} (isSent : flight ∈ link.toSender)
    (arrived : link.sender.recvPacket link.now flight.bytes = some (path, calls)) :
    AckInv (link.sends (path, calls)).1 := by
  obtain ⟨ver, body, message, known⟩ := inv.answered flight isSent
  obtain ⟨strm, outcome⟩ := PathControl.recvPacket_cases message arrived
  have started := inv.strm strm
  rcases outcome with ⟨rfl, rfl⟩ | ⟨-, -, ⟨ack, rfl, eq⟩ | ⟨ack, rfl, rfl, rfl⟩ |
    ⟨ping, rfl, eq⟩ | ⟨pong, rfl, -, updated⟩⟩
  · exact started.sends (.refl started.ordered)
  · refine eq ▸ started.sends (.of_sameQueue started.ordered
      (PathControl.sameQueue_onConnectAck ..) fun bytes member => ?_)
    exact ⟨_, _, PathControl.mem_onConnectAck member, fun _ => trivial⟩
  · have eq := started.recvSegAck_eq known
    dsimp only at eq
    rw [eq]
    refine ⟨started.ordered, ?_, started.consistent, started.received, started.answered,
      max_le started.base known.1⟩
    exact fun flight member => started.sent flight (by simpa [Link.sends] using member)
  · exact eq ▸ started.sends
      (.sendMsg started.ordered (show SimBody.Legal (.pong ping) from trivial) fun _ => trivial)
  · exact started.sends (.of_sameQueue started.ordered (PathControl.sameQueue_updateRtt updated)
      fun _ member => absurd member (PathControl.not_mem_updateRtt updated))

/-- A datagram of the sender arrives. -/
theorem atReceiver (inv : AckInv link) {flight : Flight} {path : PathReceiver}
    {calls : List PathCall} {env : Env} (isSent : flight ∈ link.toReceiver)
    (arrived : link.receiver.recvPacket env true flight.bytes = some (path, calls)) :
    AckInv (link.answers (path, calls)).1 := by
  obtain ⟨ver, body, message, numbered⟩ := inv.sent flight isSent
  rcases PathReceiver.recvPacket_cases message arrived with
    ⟨quiet, tables⟩ | ⟨strm, ⟨connect, rfl, eq⟩ | ⟨ping, rfl, eq⟩ | ⟨pong, rfl, rfl, updated⟩⟩
  · have messages (bytes : List UInt8) (member : PathCall.sendToNetwork bytes ∈ calls) :
        ∃ ver body, Message ver body bytes ∧ Acknowledges path.tables body := by
      obtain ⟨body, message, answer⟩ := quiet.datagrams bytes member
      exact ⟨_, body, message, acknowledges answer⟩
    rcases tables with same | ⟨seg, rfl, eq⟩
    · exact inv.answersSame same messages
    · have below : seg.packetId < link.sender.packetSeed := numbered
      have small : seg.packetId < 0xffffffff :=
        lt_of_lt_of_le below (UInt32.le_iff_toNat_le.mpr
          (Nat.le_of_lt_succ link.sender.packetSeed.toNat_lt))
      obtain ⟨consistent, baseGrows, maxGrows, -⟩ := inv.consistent.arrive small seg.index
      have received : (link.receiver.tables.arrive seg.packetId seg.index).maxSeq <
          link.sender.packetSeed :=
        lt_of_le_of_lt (arrive_maxSeq_le ..) (max_lt inv.received below)
      rw [← eq] at consistent baseGrows maxGrows received
      exact inv.answers consistent baseGrows maxGrows received messages
  · refine eq ▸ inv.answersSame rfl fun bytes member => ?_
    have answer := PathReceiver.mem_sendMsg
      (show SimBody.Legal (.connectAck ⟨connect.cid, 0⟩) from trivial) member
    exact ⟨_, _, answer, trivial⟩
  · refine eq ▸ inv.answersSame rfl fun bytes member => ?_
    have answer := PathReceiver.mem_sendMsg (show SimBody.Legal (.pong ping) from trivial) member
    exact ⟨_, _, answer, trivial⟩
  · have same := PathReceiver.updateRtt_tables updated
    exact inv.answersSame same fun _ member => absurd member List.not_mem_nil

/-- What the receiver does of its own accord. -/
theorem handleReceiver (inv : AckInv link) {now : UInt32} {other : ReceiverEvent}
    (orderly : Orderly link (.receiver other)) :
    AckInv (link.answers (Link.handleReceiver now link.receiver other)).1 := by
  cases other with
  | pingTimerExpired =>
      have pings := PathReceiver.pings_checkPing { link.receiver with pingTimer := false } now
      exact inv.answersSame pings.tables fun bytes member =>
        ⟨_, _, pings.datagrams bytes member, trivial⟩
  | consume packetId =>
      obtain ⟨consistent, baseGrows, maxGrows⟩ := inv.consistent.consume orderly
      have same : (link.receiver.tables.consume packetId).maxSeq = link.receiver.tables.maxSeq := by
        rw [SeqTables.consume, SeqTables.recvTableRemoveUntil]
        split_ifs <;> rfl
      exact inv.answers consistent baseGrows maxGrows (same ▸ inv.received)
        fun _ member => absurd member List.not_mem_nil
  | disconnect =>
      refine inv.answersSame rfl fun bytes member => ?_
      have message := PathReceiver.mem_sendMsg
        (show SimBody.Legal (.disconnect ⟨now⟩) from trivial) member
      exact ⟨_, _, message, trivial⟩
  | stop => exact inv.answersSame rfl fun _ member => absurd member List.not_mem_nil

/-- Every orderly event keeps the invariant. -/
theorem step (inv : AckInv link) (orderly : Orderly link event)
    (handled : (Link.machine delay).step link event = some (next, out)) : AckInv next := by
  rcases Link.step_cases handled with ⟨duration, -, -, rfl, -⟩ | ⟨control, result, rfl, did, eq⟩ |
    ⟨other, rfl, eq⟩ | ⟨n, flight, result, -, found, -, arrived, eq⟩ |
    ⟨n, senderFirstTs, flight, result, -, found, -, arrived, eq⟩
  · exact ⟨inv.ordered, inv.sent, inv.consistent, inv.received, inv.answered, inv.base⟩
  · obtain ⟨rfl, -⟩ := Prod.mk.inj eq
    exact inv.sends (.handle inv.ordered (fun seg put => by rw [put] at orderly; exact orderly) did)
  · obtain ⟨rfl, -⟩ := Prod.mk.inj eq
    exact inv.handleReceiver orderly
  · obtain ⟨rfl, -⟩ := Prod.mk.inj eq
    exact inv.atSender (List.mem_of_getElem? found) arrived
  · obtain ⟨rfl, -⟩ := Prod.mk.inj eq
    exact inv.atReceiver (List.mem_of_getElem? found) arrived

end AckInv

/-- **The sender knows no more than the receiver, and accepts every acknowledgement.** In every
orderly run, the base of the sender is not beyond that of the receiver, which is not beyond the
numbers that were sent. Whichever acknowledgement that the receiver ever sent arrives next, the
sender takes its base unless it has a later one. -/
theorem acks_accepted {delay : Delay} {pid : UInt8} {senderUid receiverUid : UInt32}
    {paceMode : PaceMode} {events : List LinkEvent} {link : Link} {log : List SenderCall}
    (orderly : (Link.machine delay).Along Orderly (Link.start pid senderUid receiverUid paceMode)
      events)
    (ran : (Link.machine delay).run (Link.start pid senderUid receiverUid paceMode) events =
      some (link, log)) :
    (link.sender.baseSeq ≤ link.receiver.tables.baseSeq ∧
        link.receiver.tables.baseSeq ≤ link.receiver.tables.maxSeq ∧
        link.receiver.tables.maxSeq < link.sender.packetSeed) ∧
      ∀ flight ∈ link.toSender, ∀ ver ack, Message ver (.segAck ack) flight.bytes →
        link.sender.recvSegAck ack =
          { link.sender with baseSeq := max link.sender.baseSeq ack.basePacketId } := by
  have inv := Machine.run_along_invariant AckInv
    (fun _ _ _ _ inv orderly handled => inv.step orderly handled) orderly
    (.start pid senderUid receiverUid paceMode) ran
  refine ⟨⟨inv.base, inv.consistent.base_le_max, inv.received⟩, ?_⟩
  intro flight isSent ver ack message
  obtain ⟨other, body, same, known⟩ := inv.answered flight isSent
  have received : (SimBody.segAck ack).received = body.received := message.received_eq same
  cases body with
  | segAck body =>
      obtain rfl := SimBody.segAck.inj received
      exact inv.recvSegAck_eq known
  | connect | connectAck | disconnect | disconnectAck | ping | pong | seg | feedback | fir
  | pad => cases received

/-- A segment arrives, and its acknowledgement. -/
def acked : List LinkEvent :=
  repeated ++ [.sender (.put ⟨0, 1, 0, 0, 1, 0, 0, 0, 0, 0, .empty⟩),
    .sender (.timeToSendPacket 1 false 0), .elapse 30000000, .atReceiver 3 none,
    .elapse 20000000, .atSender 2]

theorem acks_accepted_acked : ∃ link log,
    (Link.machine ⟨20000000, 30000000⟩).run (Link.start 1 7 8 .withCongestion) acked =
      some (link, log) ∧ link.sender.baseSeq = 1 ∧
      (link.sender.baseSeq ≤ link.receiver.tables.baseSeq ∧
        link.receiver.tables.baseSeq ≤ link.receiver.tables.maxSeq ∧
        link.receiver.tables.maxSeq < link.sender.packetSeed) ∧
      ∀ flight ∈ link.toSender, ∀ ver ack, Message ver (.segAck ack) flight.bytes →
        link.sender.recvSegAck ack =
          { link.sender with baseSeq := max link.sender.baseSeq ack.basePacketId } := by
  have defined : ((Link.machine ⟨20000000, 30000000⟩).run (Link.start 1 7 8 .withCongestion)
      acked).any fun result => result.1.sender.baseSeq = 1 := by
    decide +kernel
  obtain ⟨⟨link, log⟩, ran, base⟩ := (Option.any_eq_true ..).mp defined
  exact ⟨link, log, ran, of_decide_eq_true base, acks_accepted (by decide +kernel) ran⟩

end MpVideo.EndToEnd
