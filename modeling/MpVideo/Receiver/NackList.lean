import MpVideo.Receiver.Controller

/-!
# The NACK list

An acknowledgement of `VideoRealAck` names the greatest missing numbers, at most
`NACK_NUM` of them, by their distance from `base_seq_`. The distance is a 32-bit number
and its place in the message has 16 bits. A peer adds the distances to the base again.

So a peer recovers the greatest missing numbers if and only if each of them is at least
the base and less than `65536` beyond it (`nackList_greatest_iff`). Where the loss table is
the set of gaps no missing number is below the base, and the greatest one decides
(`Consistent.reportable_iff`).
-/

set_option autoImplicit false

namespace MpVideo.Receiver

open Wire PathReceiver

/-! ## What a peer recovers -/

/-- The numbers that a peer recovers from an acknowledgement. -/
def recovered (ack : SimSegmentAck) : List UInt32 :=
  ack.nack.map fun nack => ack.basePacketId + nack.toUInt32

/-- Whoever receives the datagram decodes this message. -/
def Carries (data : List UInt8) (header : SimHeader) (body : SimBody) : Prop :=
  ∀ receiver : BinStream, receiver.data = data → ∃ inBody atTrailer,
    simDecodeHeader (binStreamRewind false receiver) = some (some header, inBody) ∧
      simDecodeMsg inBody header = (some body, atTrailer)

theorem carries_messageBytes {header : SimHeader} {body : SimBody}
    (mid : header.mid = body.mid.toUInt8) (legal : body.Legal) :
    Carries (messageBytes header body) header body.received := by
  intro receiver same
  have copied : receiver.data = (simEncodeMsg receiver header body).data := by
    rw [same, simEncodeMsg_data]
  obtain ⟨inBody, atTrailer, headerRead, bodyRead, -⟩ :=
    simDecode_encode receiver receiver header body copied mid legal
  exact ⟨inBody, atTrailer, headerRead, bodyRead⟩

/-- A datagram carries one message. -/
theorem Carries.unique {data : List UInt8} {header header' : SimHeader} {body body' : SimBody}
    (first : Carries data header body) (second : Carries data header' body') : body = body' := by
  obtain ⟨inBody, atTrailer, headerRead, bodyRead⟩ := first { binStreamInit with data } rfl
  obtain ⟨inBody', atTrailer', headerRead', bodyRead'⟩ := second { binStreamInit with data } rfl
  obtain ⟨sameHeader, rfl⟩ := Prod.mk.inj (Option.some.inj (headerRead.symm.trans headerRead'))
  obtain rfl := Option.some.inj sameHeader
  exact Option.some.inj (Prod.mk.inj (bodyRead.symm.trans bodyRead')).1

namespace SeqTables

/-- The datagram is an acknowledgement from which a peer recovers the greatest missing
numbers in increasing order, all of them or as many as one message names. -/
def Faithful (tables : SeqTables) (data : List UInt8) : Prop :=
  ∃ header ack, Carries data header (.segAck ack) ∧
    ack.nack.length = min nackNum tables.loss.elems.length ∧
    tables.loss.Greatest (recovered ack)

/-- The last entries of the loss table that one message has room for. -/
def lastLost (tables : SeqTables) : List UInt32 :=
  tables.loss.elems.drop (tables.loss.elems.length - nackNum)

/-- Each of these is at least the base and less than `65536` beyond it. -/
def Reportable (tables : SeqTables) : Prop :=
  ∀ key ∈ tables.lastLost,
    tables.baseSeq ≤ key ∧ key.toNat < tables.baseSeq.toNat + 65536

/-! ## The list and the loss table -/

theorem length_lastLost (tables : SeqTables) :
    tables.lastLost.length = min nackNum tables.loss.elems.length := by
  rw [lastLost, List.length_drop]
  omega

/-- The list is cut nowhere, since so many entries were skipped before. -/
theorem nackList_eq (tables : SeqTables) :
    nackList tables = (tables.lastLost.filter fun key => ¬ key < tables.baseSeq).map fun key =>
      (key - tables.baseSeq).toUInt16 := by
  have short : (tables.lastLost.filter fun key => ¬ key < tables.baseSeq).length ≤ nackNum :=
    le_trans (List.length_filter_le _ _) (length_lastLost tables ▸ min_le_left _ _)
  exact List.take_of_length_le (by rwa [List.length_map])

/-- A number not below the base is recovered if its distance has 16 bits, and not
otherwise. -/
theorem recovers_iff {base key : UInt32} (above : base ≤ key) :
    base + (key - base).toUInt16.toUInt32 = key ↔ key.toNat < base.toNat + 65536 := by
  have order := UInt32.le_iff_toNat_le.mp above
  have small := key.toNat_lt
  rw [← UInt32.toNat_inj, UInt32.toNat_add, UInt16.toNat_toUInt32, UInt32.toNat_toUInt16,
    UInt32.toNat_sub_of_le _ _ above]
  omega

/-- **The list that `VideoRealAck` builds names the greatest missing numbers if and only
if these are reportable.** -/
theorem nackList_greatest_iff (seq : UInt32) (tables : SeqTables) :
    ((segmentAck seq tables).nack.length = min nackNum tables.loss.elems.length ∧
        tables.loss.Greatest (recovered (segmentAck seq tables))) ↔ tables.Reportable := by
  have complete : (segmentAck seq tables).nack.length = min nackNum tables.loss.elems.length ↔
      ∀ key ∈ tables.lastLost, ¬ key < tables.baseSeq := by
    change (nackList tables).length = _ ↔ _
    rw [nackList_eq, List.length_map, ← length_lastLost, List.length_filter_eq_length_iff]
    simp only [decide_eq_true_eq]
  rw [complete]
  -- with nothing filtered, the list must be the end of the loss table
  have greatest (all : ∀ key ∈ tables.lastLost, ¬ key < tables.baseSeq) :
      tables.loss.Greatest (recovered (segmentAck seq tables)) ↔
        ∀ key ∈ tables.lastLost,
          tables.baseSeq + (key - tables.baseSeq).toUInt16.toUInt32 = key := by
    have kept : (tables.lastLost.filter fun key => ¬ key < tables.baseSeq) = tables.lastLost :=
      List.filter_eq_self.mpr fun key member => decide_eq_true (all key member)
    have names : recovered (segmentAck seq tables) = tables.lastLost.map fun key =>
        tables.baseSeq + (key - tables.baseSeq).toUInt16.toUInt32 := by
      change (nackList tables).map _ = _
      rw [nackList_eq, kept, List.map_map]
      rfl
    have length : tables.loss.elems.length - tables.lastLost.length =
        tables.loss.elems.length - nackNum := by
      rw [length_lastLost]
      omega
    rw [SortedSet.greatest_iff_suffix, List.suffix_iff_eq_drop, names, List.length_map, length,
      ← lastLost]
    conv_lhs => rhs; rw [← List.map_id tables.lastLost]
    exact List.map_inj_left
  constructor
  · rintro ⟨all, same⟩ key member
    have above : tables.baseSeq ≤ key := not_lt.mp (all key member)
    exact ⟨above, (recovers_iff above).mp ((greatest all).mp same key member)⟩
  · intro reportable
    have all : ∀ key ∈ tables.lastLost, ¬ key < tables.baseSeq :=
      fun key member => not_lt.mpr (reportable key member).1
    refine ⟨all, (greatest all).mpr fun key member => ?_⟩
    exact (recovers_iff (reportable key member).1).mpr (reportable key member).2

/-- In consistent tables no missing number is below the base, and the distance of the
greatest one bounds the others. -/
theorem Consistent.reportable_iff {tables : SeqTables} (consistent : Consistent tables) :
    tables.Reportable ↔ ∀ key ∈ tables.loss, key.toNat < tables.baseSeq.toNat + 65536 := by
  have suffix : tables.lastLost <:+ tables.loss.elems := List.drop_suffix _ _
  constructor
  · intro reportable key member
    by_cases reported : key ∈ tables.lastLost
    · exact (reportable key reported).2
    · -- a number that is not reported is less than one that is
      have some : tables.lastLost ≠ [] := by
        intro none
        have length := tables.length_lastLost
        have positive := List.length_pos_of_mem (SortedSet.mem_def.mp member)
        rw [none, List.length_nil] at length
        change 0 = min 80 _ at length
        omega
      obtain ⟨last, found⟩ := List.exists_mem_of_ne_nil _ some
      have less : key < last :=
        (SortedSet.greatest_iff_suffix.mpr suffix).upper key member reported last found
      exact lt_trans (UInt32.lt_iff_toNat_lt.mp less) (reportable last found).2
  · intro near key member
    have lost : key ∈ tables.loss := suffix.subset member
    exact ⟨le_of_lt ((consistent.mem_loss key).mp lost).1, near key lost⟩

end SeqTables

namespace PathReceiver

/-! ## The calls of `VideoRealAck` -/

/-- A call of `VideoRealAck`: the receiver when it is entered, and the arguments. -/
structure AckCall where
  path : PathReceiver
  now : UInt32
  hb : Bool
  seq : UInt32

/-- What the call sends. -/
def AckCall.emits (call : AckCall) : List PathCall :=
  (call.path.videoRealAck call.now call.hb call.seq).2

/-- The last acknowledgement is long enough ago, and there is a socket. -/
def AckCall.Due (call : AckCall) : Prop :=
  call.path.socket = true ∧
    ((¬ call.hb ∧ call.path.ackTs + pathAckRealTime < call.now) ∨
      call.path.ackTs + pathAckHbTime < call.now)

/-- The call that `OnReceiveSegment` makes. -/
def segmentAckCall (env : Env) (seg : SimSegment) (path : PathReceiver) : Option AckCall :=
  if path.stop then none
  else
    let path := (path.onFirstPacket env.now).1
    if path.tables.dropped seg.packetId then none
    else
      some {
        path := { path with tables := path.tables.record seg.packetId seg.index }
        now := env.now, hb := false, seq := seg.packetId }

/-- The call that an event leads to. -/
def ackCall (path : PathReceiver) : PathEvent → Option AckCall
  | .recvPacket env true packet =>
      match path.arriving packet with
      | some (header, .seg seg) =>
          if path.pid ≠ header.ver then none else (path.withPacket packet).segmentAckCall env seg
      | _ => none
  | .onReceiveSegment env seg => path.segmentAckCall env seg
  | .videoRealAck now hb seq => some ⟨path, now, hb, seq⟩
  | _ => none

/-- The acknowledgement of a call. -/
def AckCall.datagram (call : AckCall) : List UInt8 :=
  messageBytes (call.path.header .simSegAck) (.segAck (segmentAck call.seq call.path.tables))

theorem AckCall.mem_emits {call : AckCall} {data : List UInt8} :
    .sendToNetwork data ∈ call.emits ↔ call.Due ∧ data = call.datagram := by
  have sent : (simEncodeMsg call.path.strm (call.path.header .simSegAck)
      (.segAck (segmentAck call.seq call.path.tables))).data = call.datagram :=
    simEncodeMsg_data _ _ _
  simp only [emits, videoRealAck, Due]
  split_ifs with due
  · simp only [sendSegmentAck, sendMsg, SimBody.mid, sendToNetwork, sent]
    split_ifs with socket
    · simp only [List.mem_singleton, PathCall.sendToNetwork.injEq, socket, due, and_self, true_and]
    · simp only [List.not_mem_nil, socket, Bool.false_eq_true, false_and]
  · simp only [List.not_mem_nil, due, and_false, false_and]

/-- **What a call sends is faithful if and only if the tables are reportable.** -/
theorem AckCall.faithful_iff {call : AckCall} :
    call.path.tables.Faithful call.datagram ↔ call.path.tables.Reportable := by
  have carries : Carries call.datagram (call.path.header .simSegAck)
      (.segAck (segmentAck call.seq call.path.tables)) :=
    carries_messageBytes rfl trivial
  rw [← SeqTables.nackList_greatest_iff call.seq]
  constructor
  · rintro ⟨header, ack, carried, complete, greatest⟩
    obtain rfl := SimBody.segAck.inj (carried.unique carries)
    exact ⟨complete, greatest⟩
  · rintro ⟨complete, greatest⟩
    exact ⟨_, _, carries, complete, greatest⟩

/-! ## No other acknowledgement is sent -/

/-- The acknowledgements among the calls, told by the message id in the second byte. -/
def acks (calls : List PathCall) : List (List UInt8) :=
  calls.filterMap fun
    | .sendToNetwork data =>
        if data[1]? = some MsgId.simSegAck.toUInt8 then some data else none
    | _ => none

@[simp] theorem acks_append (first second : List PathCall) :
    acks (first ++ second) = acks first ++ acks second :=
  List.filterMap_append

theorem acks_sendMsg {body : SimBody} (other : ∀ ack, body ≠ .segAck ack) (path : PathReceiver) :
    acks (path.sendMsg body).2 = [] := by
  have second : (simEncodeMsg path.strm (path.header body.mid) body).data[1]? =
      some body.mid.toUInt8 := by
    rw [simEncodeMsg_data]
    rfl
  have differs : body.mid ≠ .simSegAck := by
    cases body with
    | segAck ack => exact absurd rfl (other ack)
    | _ => simp only [SimBody.mid, ne_eq, reduceCtorEq, not_false_eq_true]
  have byte : body.mid.toUInt8 ≠ MsgId.simSegAck.toUInt8 := by
    intro same
    have known := congrArg MsgId.ofUInt8? same
    rw [MsgId.ofUInt8?_toUInt8, MsgId.ofUInt8?_toUInt8] at known
    exact differs (Option.some.inj known)
  simp only [sendMsg, sendToNetwork]
  split_ifs
  · simp only [acks, List.filterMap_cons, second, Option.some.injEq, byte, if_false,
      List.filterMap_nil]
  · rfl

theorem acks_checkPing (now : UInt32) (path : PathReceiver) :
    acks (path.checkPing now).2 = [] := by
  rw [checkPing]
  split_ifs
  · rfl
  · exact acks_sendMsg (by simp) path
  · rfl

/-- What the first packet does leaves alone what an acknowledgement is made of. -/
theorem onFirstPacket_ackMembers (now : UInt32) (path : PathReceiver) :
    (path.onFirstPacket now).1.uid = path.uid ∧ (path.onFirstPacket now).1.socket = path.socket ∧
      (path.onFirstPacket now).1.ackTs = path.ackTs ∧ acks (path.onFirstPacket now).2 = [] := by
  rw [onFirstPacket]
  split_ifs with first
  · refine ⟨?_, ?_, ?_, acks_checkPing now _⟩
    all_goals
      simp only [checkPing]
      split_ifs <;> rfl
  · exact ⟨rfl, rfl, rfl, rfl⟩

/-- What a call sends is decided by the members that it reads. -/
theorem AckCall.emits_congr {first second : AckCall}
    (tables : first.path.tables = second.path.tables)
    (pid : first.path.pid = second.path.pid) (uid : first.path.uid = second.path.uid)
    (socket : first.path.socket = second.path.socket) (ackTs : first.path.ackTs = second.path.ackTs)
    (now : first.now = second.now) (hb : first.hb = second.hb) (seq : first.seq = second.seq) :
    first.emits = second.emits := by
  have data (call : AckCall) : call.emits =
      if (¬ call.hb ∧ call.path.ackTs + pathAckRealTime < call.now) ∨
          call.path.ackTs + pathAckHbTime < call.now then
        call.path.sendToNetwork call.datagram
      else [] := by
    simp only [emits, videoRealAck]
    split_ifs with due
    · exact congrArg call.path.sendToNetwork (simEncodeMsg_data _ _ _)
    · rfl
  rw [data, data]
  simp only [datagram, sendToNetwork, header, tables, pid, uid, socket, ackTs, now, hb, seq]

/-- The stream of a receiver does not matter for the call that a segment leads to. -/
theorem segmentAckCall_strm (env : Env) (seg : SimSegment) (path : PathReceiver)
    (strm : BinStream) :
    ({ path with strm }.segmentAckCall env seg).elim [] AckCall.emits =
      (path.segmentAckCall env seg).elim [] AckCall.emits := by
  have left := quiet_onFirstPacket env.now { path with strm }
  have right := quiet_onFirstPacket env.now path
  obtain ⟨uid, socket, ackTs, -⟩ := onFirstPacket_ackMembers env.now { path with strm }
  obtain ⟨uid', socket', ackTs', -⟩ := onFirstPacket_ackMembers env.now path
  have tables := left.tables.trans right.tables.symm
  simp only [segmentAckCall, tables]
  split_ifs with stopped drop
  · rfl
  · rfl
  · exact AckCall.emits_congr rfl (left.pid.trans right.pid.symm) (uid.trans uid'.symm)
      (socket.trans socket'.symm) (ackTs.trans ackTs'.symm) rfl rfl rfl

theorem acks_onReceiveSegment (env : Env) (seg : SimSegment) (path : PathReceiver) :
    acks (path.onReceiveSegment env seg).2 =
      acks ((path.segmentAckCall env seg).elim [] AckCall.emits) := by
  obtain ⟨-, -, -, first⟩ := onFirstPacket_ackMembers env.now path
  simp only [onReceiveSegment, segmentAckCall]
  split_ifs with stopped drop
  · rfl
  · exact first
  · have traced (path : PathReceiver) : acks (path.delayCalls env seg) = [] := by
      rw [delayCalls]
      split_ifs <;> rfl
    simp only [acceptSegment, acks_append, first, traced, List.nil_append, Option.elim_some]
    exact List.append_nil _

theorem acks_processBody {env : Env} {header : SimHeader} {path next : PathReceiver}
    {body : SimBody} {calls : List PathCall}
    (processed : path.processBody env header body = some (next, calls)) :
    acks calls = match body with
      | .seg seg =>
          if path.pid ≠ header.ver then []
          else acks ((path.segmentAckCall env seg).elim [] AckCall.emits)
      | _ => [] := by
  cases body with
  | seg seg =>
      simp only [processBody] at processed ⊢
      split_ifs at processed ⊢
      · obtain ⟨-, rfl⟩ := Prod.mk.inj (Option.some.inj processed)
        rfl
      · have result : (path.onReceiveSegment env seg).2 = calls :=
          congrArg Prod.snd (Option.some.inj processed)
        exact result ▸ acks_onReceiveSegment env seg path
  | connect body =>
      obtain ⟨-, rfl⟩ := Prod.mk.inj (Option.some.inj processed)
      exact acks_sendMsg (by simp) _
  | ping body =>
      obtain ⟨-, rfl⟩ := Prod.mk.inj (Option.some.inj processed)
      exact acks_sendMsg (by simp) _
  | pad body =>
      rw [processBody] at processed
      split_ifs at processed
      · obtain ⟨-, rfl⟩ := Prod.mk.inj (Option.some.inj processed)
        rfl
      · obtain ⟨-, rfl⟩ := Prod.mk.inj (Option.some.inj processed)
        rfl
  | pong body =>
      simp only [processBody] at processed
      split_ifs at processed
      · obtain ⟨_, -, same⟩ := Option.map_eq_some_iff.mp processed
        obtain ⟨-, rfl⟩ := Prod.mk.inj same
        rfl
      · obtain ⟨-, rfl⟩ := Prod.mk.inj (Option.some.inj processed)
        rfl
  | connectAck body | disconnect body | disconnectAck body | segAck body | feedback body
  | fir body =>
      obtain ⟨-, rfl⟩ := Prod.mk.inj (Option.some.inj processed)
      rfl

theorem acks_recvPacket {env : Env} {razor : Bool} {packet : List UInt8}
    {path next : PathReceiver} {calls : List PathCall}
    (received : path.recvPacket env razor packet = some (next, calls)) :
    acks calls =
      acks ((path.ackCall (.recvPacket env razor packet)).elim [] AckCall.emits) := by
  cases razor with
  | false =>
      rw [recvPacket, if_neg Bool.false_ne_true] at received
      obtain ⟨-, rfl⟩ := Prod.mk.inj (Option.some.inj received)
      rfl
  | true =>
      obtain ⟨fits, processed⟩ := recvPacket_eq_some_iff.mp received
      have message := arriving_eq fits
      rcases processingMsg_cases processed with
        ⟨none, -, -, rfl⟩ | ⟨header, body, strm, found, -, processed⟩
      · simp only [ackCall, message.trans none]
        rfl
      · rw [acks_processBody processed]
        cases body with
        | seg seg =>
            simp only [ackCall, message.trans found, segmentAckCall_strm]
            change (if path.pid ≠ header.ver then _ else _) = _
            split_ifs with other
            · rfl
            · rfl
        | _ =>
            simp only [ackCall, message.trans found]
            rfl

/-- **The acknowledgements of an event are those that its call of `VideoRealAck` sends**,
unless the event is the sending of an acknowledgement itself. -/
theorem acks_handle {path next : PathReceiver} {event : PathEvent} {calls : List PathCall}
    (handled : path.handle event = some (next, calls))
    (indirect : ∀ ack, event ≠ .sendSegmentAck ack) :
    acks calls = acks ((path.ackCall event).elim [] AckCall.emits) := by
  cases event with
  | recvPacket env razor packet => exact acks_recvPacket handled
  | onReceiveSegment env seg =>
      have result : (path.onReceiveSegment env seg).2 = calls :=
        congrArg Prod.snd (Option.some.inj handled)
      exact result ▸ acks_onReceiveSegment env seg path
  | videoRealAck now hb seq =>
      have result : (path.videoRealAck now hb seq).2 = calls :=
        congrArg Prod.snd (Option.some.inj handled)
      exact result ▸ rfl
  | sendSegmentAck ack => exact absurd rfl (indirect ack)
  | pingTimerExpired now =>
      have result : (path.pingTimerExpired now).2 = calls :=
        congrArg Prod.snd (Option.some.inj handled)
      exact result ▸ acks_checkPing now _
  | sendConnectAck cid =>
      obtain ⟨-, rfl⟩ := Prod.mk.inj (Option.some.inj handled)
      exact acks_sendMsg (by simp) path
  | sendDisconnect now =>
      obtain ⟨-, rfl⟩ := Prod.mk.inj (Option.some.inj handled)
      exact acks_sendMsg (by simp) path
  | sendPingMsg now =>
      obtain ⟨-, rfl⟩ := Prod.mk.inj (Option.some.inj handled)
      exact acks_sendMsg (by simp) path
  | updateRtt time now =>
      obtain ⟨_, -, same⟩ := Option.map_eq_some_iff.mp handled
      obtain ⟨-, rfl⟩ := Prod.mk.inj same
      rfl
  | consume packetId | stop =>
      obtain ⟨-, rfl⟩ := Prod.mk.inj (Option.some.inj handled)
      rfl

/-- **Every acknowledgement of a history is faithful if and only if the tables are
reportable whenever one is due.** -/
theorem acks_faithful_iff (uid : UInt32) (socket delayCb : Bool) (history : List PathEvent) :
    (∀ n path event call, machine.Before (constructed uid socket delayCb) history n path event →
        path.ackCall event = some call → ∀ data, .sendToNetwork data ∈ call.emits →
          call.path.tables.Faithful data) ↔
      ∀ n path event call, machine.Before (constructed uid socket delayCb) history n path event →
        path.ackCall event = some call → call.Due → call.path.tables.Reportable := by
  refine forall_congr' fun n => forall_congr' fun path => forall_congr' fun event =>
    forall_congr' fun call => imp_congr_right fun _ => imp_congr_right fun _ => ?_
  simp only [AckCall.mem_emits, and_imp]
  constructor
  · intro faithful due
    exact AckCall.faithful_iff.mp (faithful _ due rfl)
  · rintro reportable data due rfl
    exact AckCall.faithful_iff.mpr (reportable due)

/-- An empty segment with a packet number. -/
def numbered (packetId : UInt32) : SimSegment := ⟨packetId, 1, 0, 0, 1, 0, 0, 1, 0, 1, .empty⟩

/-- A receiver after the segment with packet number 1. -/
def oneArrived : PathReceiver :=
  ((constructed 7 true false).onReceiveSegment ⟨100, none⟩ (numbered 1)).1

/-- The number 69999 is missing behind 70000, and its distance from the base has more
than 16 bits. -/
theorem farApart_unfaithful :
    ¬ ∀ n path event call, machine.Before (constructed 7 true false)
        [.onReceiveSegment ⟨100, none⟩ (numbered 1),
          .onReceiveSegment ⟨200, none⟩ (numbered 70000)] n path event →
        path.ackCall event = some call → ∀ data, .sendToNetwork data ∈ call.emits →
          call.path.tables.Faithful data := by
  intro always
  have second : machine.Before (constructed 7 true false)
      [.onReceiveSegment ⟨100, none⟩ (numbered 1),
        .onReceiveSegment ⟨200, none⟩ (numbered 70000)] 1 oneArrived
      (.onReceiveSegment ⟨200, none⟩ (numbered 70000)) :=
    Machine.before_succ.mpr ⟨_, _, rfl, Machine.before_zero.mpr ⟨rfl, rfl⟩⟩
  let call : AckCall := ⟨{ oneArrived with tables := oneArrived.tables.record 70000 0 },
    200, false, 70000⟩
  have due : call.Due := ⟨rfl, .inl ⟨Bool.false_ne_true, by decide⟩⟩
  have faithful := always 1 _ _ call second rfl call.datagram
    (AckCall.mem_emits.mpr ⟨due, rfl⟩)
  have reportable : call.path.tables.Reportable := AckCall.faithful_iff.mp faithful
  have first : (({} : SeqTables).arrive 1 0).Consistent :=
    (SeqTables.consistent_fresh.arrive (by decide) 0).1
  have small : (70000 : UInt32) < 0xffffffff := by decide
  have consistent : call.path.tables.Consistent := (first.arrive small 0).1
  have missing : (69999 : UInt32) ∈ call.path.tables.loss := by
    rw [consistent.mem_loss]
    have base : call.path.tables.baseSeq = 1 := rfl
    have greatest : call.path.tables.maxSeq = 70000 := rfl
    have received : call.path.tables.recvTable.elems = [70000] := rfl
    rw [base, greatest, SortedSet.mem_def, received]
    decide
  exact absurd (consistent.reportable_iff.mp reportable 69999 missing) (by decide)

end PathReceiver

end MpVideo.Receiver
