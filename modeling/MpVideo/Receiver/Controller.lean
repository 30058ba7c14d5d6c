import MpVideo.Receiver.Arrivals
import MpVideo.Receiver.StreamCapacity

/-!
# The congestion controller of a path receiver

The controller is created when the first segment arrives. Two places read through it:
`OnReceiveSegment`, behind the block that creates it, and the branch of `ProcessingMsg`
for padding, which has no such block.

So the controller is there wherever it is read if and only if no padding message with
the id of the path arrives before a segment did (`controller_present_iff`).
-/

set_option autoImplicit false

namespace MpVideo.Receiver

open Wire

namespace PathReceiver

/-! ## Where the controller is read -/

/-- The body that `ProcessingMsg` decodes behind a header. -/
def handledBody (header : SimHeader) (strm : BinStream) : Option SimBody :=
  match MsgId.ofUInt8? header.mid with
  | none => none
  | some mid => if handled mid then (simDecodeMsg strm header).1 else none

/-- The message that `ProcessingMsg` comes to switch on, when the stream holds one. -/
def message (path : PathReceiver) : Option (SimHeader × SimBody) :=
  if path.stop then none
  else
    match simDecodeHeader path.strm with
    | some (some header, strm) => (handledBody header strm).map (header, ·)
    | _ => none

/-- The message of a packet that arrives, when the packet fits the stream. -/
def arriving (packet : List UInt8) (path : PathReceiver) : Option (SimHeader × SimBody) :=
  (path.copyPacket packet).bind message

theorem arriving_eq {packet : List UInt8} {path : PathReceiver}
    (fits : packet.length ≤ path.strm.size) :
    path.arriving packet = (path.withPacket packet).message := by
  rw [arriving, copyPacket_eq_some_iff.mpr ⟨fits, rfl⟩, Option.bind_some]

/-- Whether `controller_` is there, each time `OnReceiveSegment` reads through it. -/
def segmentReads (now : UInt32) (path : PathReceiver) : List Bool :=
  if path.stop then [] else [(path.onFirstPacket now).1.controller]

/-- Whether `controller_` is there, each time the switch of `ProcessingMsg` or what it
calls reads through it. -/
def bodyReads (env : Env) (header : SimHeader) (path : PathReceiver) : SimBody → List Bool
  | .seg _ => if path.pid ≠ header.ver then [] else path.segmentReads env.now
  | .pad _ => if path.pid ≠ header.ver then [] else [path.controller]
  | _ => []

/-- The same for an event. -/
def controllerReads (path : PathReceiver) : PathEvent → List Bool
  | .recvPacket env true packet =>
      match path.arriving packet with
      | some (header, body) => (path.withPacket packet).bodyReads env header body
      | none => []
  | .onReceiveSegment env _ => path.segmentReads env.now
  | _ => []

/-- The event brings a segment to a running receiver, with the id of the path. -/
def BringsSegment (path : PathReceiver) : PathEvent → Prop
  | .recvPacket _ true packet => ∃ header seg,
      path.arriving packet = some (header, .seg seg) ∧ path.pid = header.ver
  | .onReceiveSegment _ _ => path.stop = false
  | _ => False

/-- The event brings padding to a running receiver, with the id of the path. -/
def BringsPadding (path : PathReceiver) : PathEvent → Prop
  | .recvPacket _ true packet => ∃ header pad,
      path.arriving packet = some (header, .pad pad) ∧ path.pid = header.ver
  | _ => False

/-! ## Where it is created -/

/-- The step creates the controller if it brings a segment, and not otherwise. -/
structure Creates (segment : Prop) (path next : PathReceiver) : Prop where
  firstPacket : next.firstPacket = false ↔ path.firstPacket = false ∨ segment
  controller : path.controller = !path.firstPacket → next.controller = !next.firstPacket

/-- Nothing is created where the two members stay. -/
theorem creates_none {path next : PathReceiver} (firstPacket : next.firstPacket = path.firstPacket)
    (controller : next.controller = path.controller) {segment : Prop} (other : ¬ segment) :
    Creates segment path next where
  firstPacket := by rw [firstPacket, or_iff_left other]
  controller kept := by rw [controller, firstPacket, kept]

/-- Only the two members of the receiver matter. -/
theorem Creates.of_same {segment : Prop} {path path' next : PathReceiver}
    (creates : Creates segment path next) (firstPacket : path'.firstPacket = path.firstPacket)
    (controller : path'.controller = path.controller) : Creates segment path' next where
  firstPacket := firstPacket ▸ creates.firstPacket
  controller kept := creates.controller (by rw [← controller, ← firstPacket, kept])

theorem Creates.congr {segment other : Prop} {path next : PathReceiver}
    (creates : Creates segment path next) (same : segment ↔ other) : Creates other path next :=
  propext same ▸ creates

theorem checkPing_members (now : UInt32) (path : PathReceiver) :
    (path.checkPing now).1.firstPacket = path.firstPacket ∧
      (path.checkPing now).1.controller = path.controller := by
  rw [checkPing]
  split_ifs <;> exact ⟨rfl, rfl⟩

theorem onFirstPacket_creates (now : UInt32) (path : PathReceiver) :
    (path.onFirstPacket now).1.firstPacket = false ∧
      (path.controller = !path.firstPacket → (path.onFirstPacket now).1.controller = true) := by
  rw [onFirstPacket]
  split_ifs with first
  · exact ⟨rfl, fun _ => (checkPing_members now { path with controller := true }).2⟩
  · rw [Bool.not_eq_true] at first
    exact ⟨first, fun created => by rw [created, first]; rfl⟩

theorem videoRealAck_members (now : UInt32) (hb : Bool) (seq : UInt32) (path : PathReceiver) :
    (path.videoRealAck now hb seq).1.firstPacket = path.firstPacket ∧
      (path.videoRealAck now hb seq).1.controller = path.controller := by
  rw [videoRealAck]
  split_ifs
  · simp only [sendSegmentAck, sendMsg, and_self]
  · exact ⟨rfl, rfl⟩

/-- **A segment creates the controller.** -/
theorem onReceiveSegment_creates (env : Env) (seg : SimSegment) (path : PathReceiver) :
    Creates (path.stop = false) path (path.onReceiveSegment env seg).1 := by
  rw [onReceiveSegment]
  cases stopped : path.stop with
  | true => exact creates_none rfl rfl fun running => by cases running
  | false =>
      obtain ⟨first, created⟩ := onFirstPacket_creates env.now path
      simp only [Bool.false_eq_true, if_false]
      split_ifs
      · refine ⟨iff_of_true first (.inr trivial), ?_⟩
        intro kept
        rw [first, created kept]
        rfl
      · obtain ⟨sameFirst, same⟩ := videoRealAck_members env.now false seg.packetId
          { (path.onFirstPacket env.now).1 with
            tables := (path.onFirstPacket env.now).1.tables.record seg.packetId seg.index }
        have accepted : ((path.onFirstPacket env.now).1.acceptSegment env seg).1.firstPacket =
            false := sameFirst.trans first
        refine ⟨iff_of_true accepted (.inr trivial), ?_⟩
        intro kept
        rw [accepted]
        exact same.trans (created kept)

theorem updateRtt_members {time now : UInt32} {path next : PathReceiver}
    (updated : path.updateRtt time now = some next) :
    next.firstPacket = path.firstPacket ∧ next.controller = path.controller := by
  simp only [updateRtt] at updated
  split_ifs at updated <;>
  · obtain rfl := Option.some.inj updated
    exact ⟨rfl, rfl⟩

/-- The body of a message creates the controller if it is a segment with the id of the path. -/
theorem processBody_creates {env : Env} {header : SimHeader} {path next : PathReceiver}
    {body : SimBody} {calls : List PathCall}
    (processed : path.processBody env header body = some (next, calls))
    (running : path.stop = false) :
    Creates ((∃ seg, body = .seg seg) ∧ path.pid = header.ver) path next := by
  cases body with
  | seg seg =>
      rw [processBody] at processed
      split_ifs at processed with other
      · obtain ⟨rfl, -⟩ := Prod.mk.inj (Option.some.inj processed)
        exact creates_none rfl rfl fun same => other same.2
      · have result : (path.onReceiveSegment env seg).1 = next :=
          congrArg Prod.fst (Option.some.inj processed)
        rw [← result]
        exact (onReceiveSegment_creates env seg path).congr
          (iff_of_true running ⟨⟨seg, rfl⟩, not_not.mp other⟩)
  | pad pad =>
      rw [processBody] at processed
      split_ifs at processed <;>
      · obtain ⟨rfl, -⟩ := Prod.mk.inj (Option.some.inj processed)
        exact creates_none rfl rfl fun both => both.1.elim fun _ same => by cases same
  | pong pong =>
      simp only [processBody] at processed
      split_ifs at processed
      · obtain ⟨updated, rtt, same⟩ := Option.map_eq_some_iff.mp processed
        obtain ⟨rfl, -⟩ := Prod.mk.inj same
        obtain ⟨first, kept⟩ := updateRtt_members rtt
        exact creates_none first kept fun both => both.1.elim fun _ same => by cases same
      · obtain ⟨rfl, -⟩ := Prod.mk.inj (Option.some.inj processed)
        exact creates_none rfl rfl fun both => both.1.elim fun _ same => by cases same
  | connect body | connectAck body | disconnect body | disconnectAck body | ping body
  | segAck body | feedback body | fir body =>
      obtain ⟨rfl, -⟩ := Prod.mk.inj (Option.some.inj processed)
      apply creates_none
      · rfl
      · rfl
      · rintro ⟨⟨seg, same⟩, -⟩
        cases same

theorem processDecoded_cases {env : Env} {header : SimHeader} {path next : PathReceiver}
    {calls : List PathCall} (processed : path.processDecoded env header = some (next, calls)) :
    (handledBody header path.strm = none ∧ next.firstPacket = path.firstPacket ∧
        next.controller = path.controller ∧ calls = []) ∨
      ∃ body strm, handledBody header path.strm = some body ∧
        processBody env header { path with strm } body = some (next, calls) := by
  rw [processDecoded] at processed
  rw [handledBody]
  cases known : MsgId.ofUInt8? header.mid with
  | none =>
      rw [known] at processed
      obtain ⟨rfl, rfl⟩ := Prod.mk.inj (Option.some.inj processed)
      exact .inl ⟨rfl, rfl, rfl, rfl⟩
  | some mid =>
      rw [known] at processed
      dsimp only at processed ⊢
      generalize simDecodeMsg path.strm header = decoded at processed ⊢
      split_ifs at processed ⊢ with isHandled
      · obtain ⟨body, strm⟩ := decoded
        cases body with
        | none =>
            obtain ⟨rfl, rfl⟩ := Prod.mk.inj (Option.some.inj processed)
            exact .inl ⟨rfl, rfl, rfl, rfl⟩
        | some body => exact .inr ⟨body, strm, rfl, processed⟩
      · obtain ⟨rfl, rfl⟩ := Prod.mk.inj (Option.some.inj processed)
        exact .inl ⟨rfl, rfl, rfl, rfl⟩

/-- What `ProcessingMsg` does: it handles the message of the stream, if there is one. -/
theorem processingMsg_cases {env : Env} {path next : PathReceiver} {calls : List PathCall}
    (processed : path.processingMsg env = some (next, calls)) :
    (path.message = none ∧ next.firstPacket = path.firstPacket ∧
        next.controller = path.controller ∧ calls = []) ∨
      ∃ header body strm, path.message = some (header, body) ∧ path.stop = false ∧
        processBody env header { path with strm } body = some (next, calls) := by
  rw [processingMsg] at processed
  rw [message]
  split_ifs at processed ⊢ with stopped
  · obtain ⟨rfl, rfl⟩ := Prod.mk.inj (Option.some.inj processed)
    exact .inl ⟨rfl, rfl, rfl, rfl⟩
  · rw [Bool.not_eq_true] at stopped
    cases decoded : simDecodeHeader path.strm with
    | none =>
        rw [decoded] at processed
        cases processed
    | some read =>
        obtain ⟨header, strm⟩ := read
        rw [decoded] at processed
        cases header with
        | none =>
            obtain ⟨rfl, rfl⟩ := Prod.mk.inj (Option.some.inj processed)
            exact .inl ⟨rfl, rfl, rfl, rfl⟩
        | some header =>
            rcases processDecoded_cases processed with
              ⟨none, first, same, silent⟩ | ⟨body, strm', found, processed⟩
            · exact .inl ⟨congrArg (Option.map (header, ·)) none, first, same, silent⟩
            · exact .inr ⟨header, body, strm', congrArg (Option.map (header, ·)) found, stopped,
                processed⟩

/-- A datagram brings a segment if its message is one, with the id of the path. -/
theorem bringsSegment_iff {env : Env} {path : PathReceiver} {packet : List UInt8}
    {header : SimHeader} {body : SimBody}
    (found : path.arriving packet = some (header, body)) :
    path.BringsSegment (.recvPacket env true packet) ↔
      (∃ seg, body = .seg seg) ∧ path.pid = header.ver := by
  constructor
  · rintro ⟨header', seg, found', pid⟩
    rw [found] at found'
    obtain ⟨rfl, rfl⟩ := Prod.mk.inj (Option.some.inj found')
    exact ⟨⟨seg, rfl⟩, pid⟩
  · rintro ⟨⟨seg, rfl⟩, pid⟩
    exact ⟨header, seg, found, pid⟩

/-- The same for padding. -/
theorem bringsPadding_iff {env : Env} {path : PathReceiver} {packet : List UInt8}
    {header : SimHeader} {body : SimBody}
    (found : path.arriving packet = some (header, body)) :
    path.BringsPadding (.recvPacket env true packet) ↔
      (∃ pad, body = .pad pad) ∧ path.pid = header.ver := by
  constructor
  · rintro ⟨header', pad, found', pid⟩
    rw [found] at found'
    obtain ⟨rfl, rfl⟩ := Prod.mk.inj (Option.some.inj found')
    exact ⟨⟨pad, rfl⟩, pid⟩
  · rintro ⟨⟨pad, rfl⟩, pid⟩
    exact ⟨header, pad, found, pid⟩

/-- A datagram creates the controller if it brings a segment. -/
theorem recvPacket_creates {env : Env} {razor : Bool} {packet : List UInt8}
    {path next : PathReceiver} {calls : List PathCall}
    (received : path.recvPacket env razor packet = some (next, calls)) :
    Creates (path.BringsSegment (.recvPacket env razor packet)) path next := by
  cases razor with
  | false =>
      rw [recvPacket, if_neg Bool.false_ne_true] at received
      obtain ⟨rfl, -⟩ := Prod.mk.inj (Option.some.inj received)
      exact creates_none rfl rfl fun brings => brings
  | true =>
      obtain ⟨fits, processed⟩ := recvPacket_eq_some_iff.mp received
      have message := arriving_eq fits
      rcases processingMsg_cases processed with
        ⟨none, first, same, -⟩ | ⟨header, body, strm, found, running, processed⟩
      · apply creates_none
        · exact first
        · exact same
        · rintro ⟨header, seg, found, -⟩
          cases none.symm.trans (message.symm.trans found)
      · have creates : Creates ((∃ seg, body = .seg seg) ∧ path.pid = header.ver) path next :=
          (processBody_creates processed running).of_same rfl rfl
        exact creates.congr (bringsSegment_iff (message.trans found)).symm

/-- **An event creates the controller if and only if it brings a segment.** -/
theorem handle_creates {path next : PathReceiver} {event : PathEvent} {calls : List PathCall}
    (handled : path.handle event = some (next, calls)) :
    Creates (path.BringsSegment event) path next := by
  cases event with
  | recvPacket env razor packet => exact recvPacket_creates handled
  | onReceiveSegment env seg =>
      have result : (path.onReceiveSegment env seg).1 = next :=
        congrArg Prod.fst (Option.some.inj handled)
      exact result ▸ onReceiveSegment_creates env seg path
  | updateRtt time now =>
      obtain ⟨updated, rtt, same⟩ := Option.map_eq_some_iff.mp handled
      obtain ⟨rfl, -⟩ := Prod.mk.inj same
      obtain ⟨first, kept⟩ := updateRtt_members rtt
      exact creates_none first kept fun brings => brings
  | pingTimerExpired now =>
      have result : (path.pingTimerExpired now).1 = next :=
        congrArg Prod.fst (Option.some.inj handled)
      obtain ⟨first, kept⟩ := checkPing_members now { path with pingTimer := false }
      exact creates_none (result ▸ first) (result ▸ kept) fun brings => brings
  | videoRealAck now hb seq =>
      have result : (path.videoRealAck now hb seq).1 = next :=
        congrArg Prod.fst (Option.some.inj handled)
      obtain ⟨first, kept⟩ := videoRealAck_members now hb seq path
      exact creates_none (result ▸ first) (result ▸ kept) fun brings => brings
  | sendConnectAck _ | sendDisconnect _ | sendPingMsg _ | sendSegmentAck _ | consume _ | stop =>
      obtain ⟨rfl, -⟩ := Prod.mk.inj (Option.some.inj handled)
      apply creates_none
      · rfl
      · rfl
      · exact fun brings => brings

/-! ## Histories -/

/-- Before its first segment a path receiver has no controller. -/
def constructed (uid : UInt32) (socket delayCb : Bool) : PathReceiver := { uid, socket, delayCb }

/-- A segment creates the controller before it reads it. -/
theorem segmentReads_present (now : UInt32) {path : PathReceiver}
    (created : path.controller = !path.firstPacket) :
    ∀ present ∈ path.segmentReads now, present = true := by
  intro present member
  rw [segmentReads] at member
  split_ifs at member with stopped
  · cases member
  · rw [List.mem_singleton.mp member]
    exact (onFirstPacket_creates now path).2 created

/-- Padding with the id of the path does not. -/
theorem bodyReads_present_iff (env : Env) (header : SimHeader) (body : SimBody)
    {path : PathReceiver} (created : path.controller = !path.firstPacket) :
    (∀ present ∈ path.bodyReads env header body, present = true) ↔
      ((∃ pad, body = .pad pad) ∧ path.pid = header.ver → path.firstPacket = false) := by
  cases body with
  | pad pad =>
      rw [bodyReads]
      split_ifs with other
      · exact iff_of_true (fun _ member => absurd member List.not_mem_nil)
          fun brings => absurd brings.2 other
      · rw [List.forall_mem_singleton, created, Bool.not_eq_true',
          imp_iff_right ⟨⟨pad, rfl⟩, not_not.mp other⟩]
  | seg seg =>
      refine iff_of_true ?_ fun brings => brings.1.elim fun _ same => by cases same
      rw [bodyReads]
      split_ifs
      · exact fun _ member => absurd member List.not_mem_nil
      · exact segmentReads_present env.now created
  | connect body | connectAck body | disconnect body | disconnectAck body | ping body
  | pong body | segAck body | feedback body | fir body =>
      refine iff_of_true (fun _ member => absurd member List.not_mem_nil) ?_
      rintro ⟨⟨pad, same⟩, -⟩
      cases same

/-- A segment and padding with the id of the path are all that reads the controller,
and the segment creates it first. -/
theorem controllerReads_present_iff {path : PathReceiver}
    (created : path.controller = !path.firstPacket) (event : PathEvent) :
    (∀ present ∈ path.controllerReads event, present = true) ↔
      (path.BringsPadding event → path.firstPacket = false) := by
  cases event with
  | recvPacket env razor packet =>
      cases razor with
      | false => exact iff_of_true (fun _ member => absurd member List.not_mem_nil) False.elim
      | true =>
          rw [controllerReads]
          cases found : path.arriving packet with
          | none =>
              refine iff_of_true (fun _ member => absurd member List.not_mem_nil) ?_
              rintro ⟨header, pad, brings, -⟩
              rw [found] at brings
              cases brings
          | some read =>
              obtain ⟨header, body⟩ := read
              rw [bringsPadding_iff found]
              exact bodyReads_present_iff env header body created
  | onReceiveSegment env seg => exact iff_of_true (segmentReads_present env.now created) False.elim
  | updateRtt _ _ | pingTimerExpired _ | videoRealAck _ _ _ | sendConnectAck _ | sendDisconnect _
  | sendPingMsg _ | sendSegmentAck _ | consume _ | stop =>
      exact iff_of_true (fun _ member => absurd member List.not_mem_nil) False.elim

/-- **The controller is there wherever it is read if and only if padding comes after a
segment**: in every history of a path receiver, whenever padding with the id of the path
arrives, a segment with the id of the path arrived before. -/
theorem controller_present_iff (uid : UInt32) (socket delayCb : Bool)
    (history : List PathEvent) :
    (∀ n path event, machine.Before (constructed uid socket delayCb) history n path event →
        ∀ present ∈ path.controllerReads event, present = true) ↔
      ∀ n path event, machine.Before (constructed uid socket delayCb) history n path event →
        path.BringsPadding event → ∃ m < n, ∃ earlier cause,
          machine.Before (constructed uid socket delayCb) history m earlier cause ∧
            earlier.BringsSegment cause := by
  refine forall_congr' fun n => forall_congr' fun path => forall_congr' fun event =>
    forall_congr' fun before => ?_
  have created : path.controller = !path.firstPacket :=
    Machine.before_invariant (fun path => path.controller = !path.firstPacket)
      (fun _ _ _ _ kept handled => (handle_creates handled).controller kept) rfl before
  rw [controllerReads_present_iff created]
  apply imp_congr_right
  intro _
  exact Machine.flag_iff_raised (fun path : PathReceiver => path.firstPacket = false)
    BringsSegment (fun _ _ _ _ handled => (handle_creates handled).firstPacket)
    Bool.noConfusion before

/-- The message of a datagram that fits, as it is decoded. -/
theorem arriving_message {path : PathReceiver} (running : path.stop = false)
    {header : SimHeader} {body : SimBody} (mid : header.mid = body.mid.toUInt8)
    (legal : body.Legal) (isHandled : handled body.mid = true)
    (fits : (messageBytes header body).length ≤ path.strm.size) :
    path.arriving (messageBytes header body) = some (header, body.received) := by
  have bytes : (path.withPacket (messageBytes header body)).strm.data =
      messageBytes header body := rfl
  have still : ¬ (path.withPacket (messageBytes header body)).stop = true :=
    Bool.not_eq_true _ ▸ running
  rw [arriving_eq fits, message, if_neg still]
  simp only [simDecodeHeader_message bytes rfl, handledBody, mid, MsgId.ofUInt8?_toUInt8,
    isHandled, if_true, simDecodeMsg_message bytes rfl mid legal]
  rfl

/-- A connection names the path and creates nothing. -/
theorem handle_connect (path : PathReceiver) (running : path.stop = false)
    (size : path.strm.size = defaultPacketSize) (header : SimHeader)
    (mid : header.mid = MsgId.simConnect.toUInt8) (body : SimConnect) (env : Env) :
    ∃ next calls,
      machine.step path (.recvPacket env true (messageBytes header (.connect body))) =
        some (next, calls) ∧
        next.pid = header.ver ∧ next.stop = false ∧ next.controller = path.controller ∧
        next.strm.size = defaultPacketSize := by
  have legal : (SimBody.connect body).Legal := trivial
  have fits : (messageBytes header (.connect body)).length ≤ path.strm.size :=
    size ▸ (smallSegment_iff header (.connect body)).mp trivial
  obtain ⟨strm, received⟩ : ∃ strm, path.handle
      (.recvPacket env true (messageBytes header (.connect body))) =
        some (sendConnectAck body.cid { path with strm, pid := header.ver }) :=
    ⟨path.decodedStrm header (.connect body), recvPacket_message running mid legal rfl env fits⟩
  have kept : (sendConnectAck body.cid { path with strm, pid := header.ver }).1.strm.size =
      defaultPacketSize := handle_size size received
  exact ⟨_, _, received, rfl, running, rfl, kept⟩

/-- Padding with the id of the path reads the controller. -/
theorem controllerReads_pad (path : PathReceiver) (running : path.stop = false)
    (header : SimHeader) (mid : header.mid = MsgId.simPad.toUInt8) (body : SimPad)
    (ver : path.pid = header.ver) (size : path.strm.size = defaultPacketSize) (env : Env) :
    path.controllerReads (.recvPacket env true (messageBytes header (.pad body))) =
      [path.controller] := by
  have legal : (SimBody.pad body).Legal := trivial
  have fits : (messageBytes header (.pad body)).length ≤ path.strm.size :=
    size ▸ (smallSegment_iff header (.pad body)).mp trivial
  simp only [controllerReads, arriving_message running mid legal rfl fits]
  exact if_neg fun differs => differs ver

/-- The connection of path 1 and padding on it; the segments between them are lost. -/
def paddingFirst : List PathEvent :=
  [.recvPacket ⟨0, none⟩ true (messageBytes ⟨1, 0x11, 7⟩ (.connect ⟨5, .empty, 0⟩)),
    .recvPacket ⟨10, none⟩ true (messageBytes ⟨1, 0x1b, 7⟩ (.pad ⟨10, 1, .empty⟩))]

/-- The padding is read through a controller that is not there. -/
theorem paddingFirst_absent :
    ¬ ∀ n path event, machine.Before (constructed 7 true false) paddingFirst n path event →
        ∀ present ∈ path.controllerReads event, present = true := by
  intro always
  obtain ⟨next, calls, connected, pid, stop, controller, size⟩ := handle_connect
    (constructed 7 true false) rfl rfl ⟨1, 0x11, 7⟩ rfl ⟨5, .empty, 0⟩ ⟨0, none⟩
  have before : machine.Before (constructed 7 true false) paddingFirst 1 next
      (.recvPacket ⟨10, none⟩ true (messageBytes ⟨1, 0x1b, 7⟩ (.pad ⟨10, 1, .empty⟩))) :=
    Machine.before_succ.mpr ⟨next, calls, connected, Machine.before_zero.mpr ⟨rfl, rfl⟩⟩
  have present := always 1 next _ before next.controller
  rw [controllerReads_pad next stop ⟨1, 0x1b, 7⟩ rfl ⟨10, 1, .empty⟩ pid size ⟨10, none⟩]
    at present
  exact absurd (present List.mem_cons_self) (by rw [controller]; decide)

end PathReceiver

end MpVideo.Receiver
