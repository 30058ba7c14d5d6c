import MpVideo.Receiver.Arrivals

/-!
# What a path receiver sends back

The datagrams of `pathreceiver.cc` by their messages. Outside the connection and the round
trip times, a receiver sends pings with the time, acknowledgements with its base, and
disconnects (`Answers`). What an arriving message comes to is said once (`recvPacket_cases`).
-/

set_option autoImplicit false

namespace MpVideo.Receiver

open Wire

namespace PathReceiver

/-- A message that a receiver sends of its own accord, or for a segment: a ping with the time,
an acknowledgement with the base and a number that arrived, or the end of the connection. -/
def Answer (now : UInt32) (tables : SeqTables) : SimBody → Prop
  | .ping body => body.ts = now.toUInt64.toInt64
  | .segAck body => body.basePacketId = tables.baseSeq ∧ body.ackedPacketId ≤ tables.maxSeq
  | .disconnect _ => True
  | _ => False

/-- The receiver did something that concerns neither its connection nor its round trip times. -/
structure Answers (now : UInt32) (path : PathReceiver) (result : PathReceiver × List PathCall) :
    Prop where
  pid : result.1.pid = path.pid
  rtt : result.1.rtt = path.rtt
  rttVar : result.1.rttVar = path.rttVar
  datagrams : ∀ bytes, PathCall.sendToNetwork bytes ∈ result.2 →
    ∃ body, Message path.pid body bytes ∧ Answer now result.1.tables body

variable {path : PathReceiver} {now : UInt32}

theorem Answers.silent {next : PathReceiver} {calls : List PathCall} (pid : next.pid = path.pid)
    (rtt : next.rtt = path.rtt) (rttVar : next.rttVar = path.rttVar)
    (none : ∀ bytes, PathCall.sendToNetwork bytes ∉ calls) : Answers now path (next, calls) :=
  ⟨pid, rtt, rttVar, fun bytes member => absurd member (none bytes)⟩

/-- What a call for a message is. -/
theorem mem_sendMsg {body : SimBody} (legal : body.Legal) {bytes : List UInt8}
    (member : PathCall.sendToNetwork bytes ∈ (path.sendMsg body).2) :
    Message path.pid body bytes := by
  simp only [sendMsg, sendToNetwork, simEncodeMsg_data] at member
  split_ifs at member
  · obtain rfl := PathCall.sendToNetwork.inj (List.mem_singleton.mp member)
    exact ⟨legal, _, rfl, rfl, rfl⟩
  · exact absurd member List.not_mem_nil

theorem answers_sendMsg {body : SimBody} (legal : body.Legal)
    (answer : Answer now path.tables body) : Answers now path (path.sendMsg body) :=
  ⟨rfl, rfl, rfl, fun _ member => ⟨body, mem_sendMsg legal member, answer⟩⟩

/-- The receiver sent nothing but pings with the time. -/
structure Pings (now : UInt32) (path : PathReceiver) (result : PathReceiver × List PathCall) :
    Prop where
  pid : result.1.pid = path.pid
  rtt : result.1.rtt = path.rtt
  rttVar : result.1.rttVar = path.rttVar
  tables : result.1.tables = path.tables
  datagrams : ∀ bytes, PathCall.sendToNetwork bytes ∈ result.2 →
    Message path.pid (.ping ⟨now.toUInt64.toInt64⟩) bytes

theorem Pings.answers {result : PathReceiver × List PathCall} (pings : Pings now path result) :
    Answers now path result :=
  ⟨pings.pid, pings.rtt, pings.rttVar, fun bytes member => ⟨_, pings.datagrams bytes member, rfl⟩⟩

theorem pings_checkPing (path : PathReceiver) (now : UInt32) :
    Pings now path (path.checkPing now) := by
  have ping (bytes : List UInt8)
      (member : PathCall.sendToNetwork bytes ∈ (path.sendPingMsg now).2) :
      Message path.pid (.ping ⟨now.toUInt64.toInt64⟩) bytes :=
    mem_sendMsg (show SimBody.Legal (.ping _) from trivial) member
  rw [checkPing]
  split_ifs
  · exact ⟨rfl, rfl, rfl, rfl, fun _ member => absurd member List.not_mem_nil⟩
  · exact ⟨rfl, rfl, rfl, rfl, ping⟩
  · exact ⟨rfl, rfl, rfl, rfl, fun _ member => absurd member List.not_mem_nil⟩

theorem pings_onFirstPacket (path : PathReceiver) (now : UInt32) :
    Pings now path (path.onFirstPacket now) := by
  rw [onFirstPacket]
  split_ifs
  · obtain ⟨pid, rtt, rttVar, tables, datagrams⟩ :=
      pings_checkPing { path with controller := true } now
    exact ⟨pid, rtt, rttVar, tables, datagrams⟩
  · exact ⟨rfl, rfl, rfl, rfl, fun _ member => absurd member List.not_mem_nil⟩

theorem answers_videoRealAck (path : PathReceiver) (now : UInt32) (hb : Bool) {seq : UInt32}
    (arrived : seq ≤ path.tables.maxSeq) : Answers now path (path.videoRealAck now hb seq) := by
  rw [videoRealAck]
  split_ifs
  · obtain ⟨pid, rtt, rttVar, datagrams⟩ := answers_sendMsg
      (show SimBody.Legal (.segAck (segmentAck seq path.tables)) from trivial)
      (show Answer now path.tables _ from ⟨rfl, arrived⟩)
    exact ⟨pid, rtt, rttVar, datagrams⟩
  · exact .silent rfl rfl rfl fun _ member => absurd member List.not_mem_nil

/-- A number that is recorded is not beyond the greatest one. -/
theorem le_record_maxSeq (packetId : UInt32) (index : UInt16) (tables : SeqTables) :
    packetId ≤ (tables.record packetId index).maxSeq := by
  have same : (tables.record packetId index).maxSeq =
      max (tables.initSeqs packetId index).maxSeq packetId := SeqTables.updataRecvTable_maxSeq _ _
  exact same ▸ le_max_right _ _

theorem answers_acceptSegment (env : Env) (seg : SimSegment) (path : PathReceiver) :
    Answers env.now path (path.acceptSegment env seg) := by
  obtain ⟨pid, rtt, rttVar, datagrams⟩ := answers_videoRealAck
    { path with tables := path.tables.record seg.packetId seg.index } env.now false
    (le_record_maxSeq seg.packetId seg.index path.tables)
  refine ⟨pid, rtt, rttVar, fun bytes member => datagrams bytes ?_⟩
  rcases List.mem_append.mp member with ack | rest
  · exact ack
  · simp only [delayCalls] at rest
    split_ifs at rest <;> simp at rest

theorem answers_onReceiveSegment (env : Env) (seg : SimSegment) (path : PathReceiver) :
    Answers env.now path (path.onReceiveSegment env seg) := by
  have first := pings_onFirstPacket path env.now
  rw [onReceiveSegment]
  split_ifs with stopped
  · exact .silent rfl rfl rfl fun _ member => absurd member List.not_mem_nil
  · simp only
    split_ifs
    · exact first.answers
    · obtain ⟨pid, rtt, rttVar, datagrams⟩ :=
        answers_acceptSegment env seg (path.onFirstPacket env.now).1
      refine ⟨pid.trans first.pid, rtt.trans first.rtt, rttVar.trans first.rttVar, ?_⟩
      intro bytes member
      rcases List.mem_append.mp member with early | late
      · exact ⟨_, first.datagrams bytes early, rfl⟩
      · rw [← first.pid]
        exact datagrams bytes late

theorem updateRtt_tables {next : PathReceiver} {time : UInt32}
    (updated : path.updateRtt time now = some next) : next.tables = path.tables := by
  simp only [updateRtt] at updated
  split_ifs at updated <;> exact Option.some.inj updated ▸ rfl

theorem updateRtt_pid {next : PathReceiver} {time : UInt32}
    (updated : path.updateRtt time now = some next) : next.pid = path.pid := by
  simp only [updateRtt] at updated
  split_ifs at updated <;> exact Option.some.inj updated ▸ rfl

/-- What a receiver does of its own accord. -/
theorem answers_pingTimerExpired (path : PathReceiver) (now : UInt32) :
    Answers now path (path.pingTimerExpired now) := by
  obtain ⟨pid, rtt, rttVar, datagrams⟩ :=
    (pings_checkPing { path with pingTimer := false } now).answers
  exact ⟨pid, rtt, rttVar, datagrams⟩

/-- What the arrival of a message comes to, when the receiver is not undefined: a connection
is acknowledged under the id of the path, a ping is answered, a pong updates the round trip
times, and all else leaves the connection alone. Only a segment changes the tables. -/
theorem recvPacket_cases {env : Env} {pid : UInt8} {body : SimBody} {bytes : List UInt8}
    {next : PathReceiver} {calls : List PathCall} (message : Message pid body bytes)
    (arrived : path.recvPacket env true bytes = some (next, calls)) :
    (Answers env.now path (next, calls) ∧ (next.tables = path.tables ∨
        ∃ seg, body = .seg seg ∧ next.tables = path.tables.arrive seg.packetId seg.index)) ∨
      ∃ strm,
        (∃ connect, body = .connect connect ∧
          (next, calls) = { path with strm, pid }.sendConnectAck connect.cid) ∨
        (∃ ping, body = .ping ping ∧ (next, calls) = { path with strm }.sendMsg (.pong ping)) ∨
        (∃ pong, body = .pong pong ∧ calls = [] ∧
          { path with strm }.updateRtt (env.now - pong.ts.toUInt64.toUInt32) env.now =
            some next) := by
  obtain ⟨legal, header, rfl, mid, rfl⟩ := message
  obtain ⟨fits, processed⟩ := recvPacket_eq_some_iff.mp arrived
  have silent (strm : BinStream) : Answers env.now path ({ path with strm }, []) :=
    .silent rfl rfl rfl fun _ member => absurd member List.not_mem_nil
  by_cases stopped : path.stop = true
  · have still : (path.withPacket (messageBytes header body)).stop = true := stopped
    rw [processingMsg, if_pos still] at processed
    obtain ⟨rfl, rfl⟩ := Prod.mk.inj (Option.some.inj processed)
    exact .inl ⟨silent _, .inl rfl⟩
  by_cases isHandled : handled body.mid = true
  · rw [recvPacket_message (Bool.not_eq_true _ ▸ stopped) mid legal isHandled env fits] at arrived
    generalize path.decodedStrm header body = strm at arrived
    cases body with
    | connect connect =>
        exact .inr ⟨strm, .inl ⟨connect, rfl, (Option.some.inj arrived).symm⟩⟩
    | seg seg =>
        simp only [SimBody.received, processBody] at arrived
        split_ifs at arrived
        · obtain ⟨rfl, rfl⟩ := Prod.mk.inj (Option.some.inj arrived)
          exact .inl ⟨silent _, .inl rfl⟩
        · obtain ⟨pid, rtt, rttVar, datagrams⟩ :=
            answers_onReceiveSegment env seg.received { path with strm }
          have running : ({ path with strm } : PathReceiver).stop = false :=
            Bool.not_eq_true _ ▸ stopped
          have tables := (onReceiveSegment_spec running env seg.received).1
          rw [Option.some.inj arrived] at pid rtt rttVar datagrams tables
          exact .inl ⟨⟨pid, rtt, rttVar, datagrams⟩, .inr ⟨seg, rfl, tables⟩⟩
    | pad pad =>
        simp only [SimBody.received, processBody] at arrived
        split_ifs at arrived <;> obtain ⟨rfl, rfl⟩ := Prod.mk.inj (Option.some.inj arrived) <;>
          exact .inl ⟨silent _, .inl rfl⟩
    | ping ping =>
        exact .inr ⟨strm, .inr (.inl ⟨ping, rfl, (Option.some.inj arrived).symm⟩)⟩
    | pong pong =>
        simp only [SimBody.received, processBody] at arrived
        split_ifs at arrived
        · obtain ⟨updated, update, eq⟩ := Option.map_eq_some_iff.mp arrived
          obtain ⟨rfl, rfl⟩ := Prod.mk.inj eq
          exact .inr ⟨strm, .inr (.inr ⟨pong, rfl, rfl, update⟩)⟩
        · obtain ⟨rfl, rfl⟩ := Prod.mk.inj (Option.some.inj arrived)
          exact .inl ⟨silent _, .inl rfl⟩
    | connectAck | disconnect | disconnectAck | segAck | feedback | fir => cases isHandled
  · have still : ¬ (path.withPacket (messageBytes header body)).stop = true := stopped
    have own : (path.withPacket (messageBytes header body)).strm.data =
        messageBytes header body := rfl
    rw [processingMsg, if_neg still] at processed
    simp only [simDecodeHeader_message own rfl, processDecoded, mid, MsgId.ofUInt8?_toUInt8,
      isHandled, Bool.false_eq_true, if_false] at processed
    obtain ⟨rfl, rfl⟩ := Prod.mk.inj (Option.some.inj processed)
    exact .inl ⟨silent _, .inl rfl⟩

end PathReceiver

end MpVideo.Receiver
