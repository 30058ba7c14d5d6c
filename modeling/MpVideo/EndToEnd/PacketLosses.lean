import MpVideo.EndToEnd.PacketLink

/-!
# Losses over a network

The sender of a link runs as the path of `LossDetection.lean`, and what it counts as delivered
did arrive, whatever the network loses, repeats and reorders (`refines_path`). Which numbers it
counts as delivered only depends on the order of the acknowledgements: they are the records of
this order.

Where the network loses packets but keeps their order, and delivers the acknowledgements one
after the other, a number is declared lost if and only if its packet did not arrive
(`losses_exact`).
-/

set_option autoImplicit false

namespace MpVideo.EndToEnd

open Sender (millis)
open V1 PathSenderV1
open Records (records greatest)

/-! ## What is put out -/

section Logs

variable (log more : List PacketLinkCall)

theorem resolutions_append : resolutions (log ++ more) = resolutions log ++ resolutions more :=
  List.filterMap_append

theorem acknowledged_append :
    acknowledged (log ++ more) = acknowledged log ++ acknowledged more :=
  List.filterMap_append

theorem answered_append : answered (log ++ more) = answered log ++ answered more :=
  List.filterMap_append

/-- What an acknowledgement puts out. -/
theorem outputs_onAck (seq : UInt64) (resolved : List Resolution) :
    resolutions (.onAck seq :: resolved.map .resolved) = resolved ∧
      acknowledged (.onAck seq :: resolved.map .resolved) = [seq] ∧
      answered (.onAck seq :: resolved.map .resolved) = [] := by
  simp [resolutions, acknowledged, answered, List.filterMap_map]

/-- What an arrival at the receiver puts out. -/
theorem outputs_received (calls : List IncomingCall) :
    resolutions (calls.map .received) = [] ∧ acknowledged (calls.map .received) = [] ∧
      answered (calls.map .received) = calls.filterMap IncomingCall.acked := by
  simp [resolutions, acknowledged, answered, List.filterMap_map]

end Logs

/-! ## The invariant -/

/-- The answer to the packet with a number, among the packets that were sent. -/
structure Answer (delay : Delay) (header : QuicHeader) (sent : List Flight) (seq : UInt64)
    (flight : Flight) : Prop where
  bytes : flight.bytes = header.ackDatagram seq
  positive : 0 < seq
  asked : ∃ asked, sent[seq.toNat - 1]? = some asked ∧ delay.Flown asked.sentAt flight.sentAt

/-- What holds of a link at any time: the sender is a numbered path, the packet with number
`n + 1` was sent as number `n`, and each answer belongs to an arrival. -/
structure PacketLinkInv (quic : QuicData) (header : QuicHeader) (delay : Delay)
    (start : NumberedPath) (link : PacketLink) (log : List PacketLinkCall) : Prop where
  refines : ∃ events numbered, (NumberedPath.machine quic).run start events =
    some (numbered, resolutions log) ∧ numbered.path = link.sender ∧
      numbered.sent.length = link.toReceiver.length
  carries : ∀ (n : ℕ) (flight : Flight), link.toReceiver[n]? = some flight →
    Carries header (UInt64.ofNat (n + 1)) flight.bytes
  sentAt : ∀ seq ms, link.sender.seqDelayMap.find? seq = some ms →
    ∃ flight, link.toReceiver[seq.toNat - 1]? = some flight ∧ ms.toUInt32 = millis flight.sentAt
  answers : List.Forall₂ (Answer delay header link.toReceiver) (answered log) link.toSender
  arrived : ∀ seq ∈ acknowledged log, seq ∈ answered log
  advanced : advancedSeqs (resolutions log) = records 0 (acknowledged log)
  recvSeq : link.sender.recvSeq = greatest 0 (acknowledged log)

/-- The loop of `DetectLoss` advances nothing. -/
theorem advancedSeqs_lossLoop (now rtt : UInt32) (retrans : UInt64 → Retrans) (n : ℕ)
    (i : UInt64) (path : PathSenderV1) :
    advancedSeqs (path.lossLoop now rtt retrans n i).2 = [] := by
  obtain ⟨-, -, lost⟩ := lossLoop_spec now rtt retrans n i path
  refine List.filterMap_eq_nil_iff.mpr fun entry member => ?_
  obtain ⟨seq, trace, rfl⟩ := lost entry member
  rfl

/-- What an acknowledgement advances to. -/
theorem advancedSeqs_onAck (now : UInt32) (retrans : UInt64 → Retrans) (acked : UInt64)
    (path : PathSenderV1) :
    advancedSeqs (path.onAck now retrans acked).2 =
      if path.recvSeq + 1 ≤ acked then [acked] else [] := by
  have recvSeq : (path.updateRtt now acked).recvSeq = path.recvSeq :=
    (sameNumbers_updateIdDelay now acked _).recvSeq
  rw [onAck, detectLoss, ← recvSeq]
  generalize path.updateRtt now acked = timed
  split_ifs
  · have silent := advancedSeqs_lossLoop now timed.curRtt retrans
      (acked - (timed.recvSeq + 1)).toNat (timed.recvSeq + 1) timed
    have append (lost : List Resolution) :
        advancedSeqs (lost ++ [.advanced acked]) = advancedSeqs lost ++ [acked] :=
      List.filterMap_append
    exact (append _).trans (by rw [silent]; rfl)
  · rfl

/-- An entry of a list with one element more. -/
theorem getElem?_concat {α : Type} {list : List α} {last found : α} {n : ℕ}
    (entry : (list ++ [last])[n]? = some found) :
    list[n]? = some found ∨ n = list.length ∧ found = last := by
  rcases Nat.lt_or_ge n list.length with before | after
  · rw [List.getElem?_append_left before] at entry
    exact .inl entry
  · rw [List.getElem?_append_right after, List.getElem?_singleton] at entry
    split_ifs at entry with here
    exact .inr ⟨by omega, (Option.some.inj entry).symm⟩

/-- A path before anything is sent. -/
def freshPath (pid : UInt8) (mpsender traceLossCb : Bool) : NumberedPath where
  path := { pid, mpsender, traceLossCb }

namespace PacketLinkInv

variable {quic : QuicData} {header : QuicHeader} {delay : Delay} {pid : UInt8}
  {mpsender traceLossCb : Bool} {link next : PacketLink} {event : PacketLinkEvent}
  {log out : List PacketLinkCall}

theorem start (quic : QuicData) (header : QuicHeader) (delay : Delay) (pid : UInt8)
    (mpsender traceLossCb : Bool) :
    PacketLinkInv quic header delay (freshPath pid mpsender traceLossCb)
      (PacketLink.start pid mpsender traceLossCb) [] where
  refines := ⟨[], _, rfl, rfl, rfl⟩
  carries _ _ found := by cases found
  sentAt _ _ found := by cases found
  answers := .nil
  arrived _ member := absurd member List.not_mem_nil
  advanced := rfl
  recvSeq := rfl

/-- The numbers of the sender. -/
theorem numbers (inv : PacketLinkInv quic header delay (freshPath pid mpsender traceLossCb)
      link log) (few : link.toReceiver.length < 2 ^ 48 - 1) :
    ∃ numbered, numbered.path = link.sender ∧
      numbered.sent.length = link.toReceiver.length ∧ Numbers numbered (resolutions log) := by
  obtain ⟨events, numbered, ran, path, length⟩ := inv.refines
  exact ⟨numbered, path, length, numbers_run ran (by rw [length]; omega)⟩

/-- The next number is one more than there are packets. -/
theorem seq_eq (inv : PacketLinkInv quic header delay (freshPath pid mpsender traceLossCb)
      link log) (few : link.toReceiver.length < 2 ^ 48 - 1) :
    link.sender.seq = UInt64.ofNat (link.toReceiver.length + 1) := by
  obtain ⟨numbered, path, length, numbers⟩ := inv.numbers few
  rw [← path, ← length, ← numbers.next, UInt64.ofNat_toNat]

/-- Answers stay answers when more is sent. -/
theorem answers_mono {seq : UInt64} {flight : Flight} {sent : List Flight}
    (holds : Answer delay header sent seq flight) (more : List Flight) :
    Answer delay header (sent ++ more) seq flight where
  bytes := holds.bytes
  positive := holds.positive
  asked := by
    obtain ⟨asked, found, flown⟩ := holds.asked
    refine ⟨asked, ?_, flown⟩
    rw [List.getElem?_append_left (List.getElem?_eq_some_iff.mp found).1]
    exact found

/-- A packet with the next number is sent. -/
theorem sends (inv : PacketLinkInv quic header delay (freshPath pid mpsender traceLossCb)
      link log) (few : link.toReceiver.length < 2 ^ 48 - 1) {path : PathSenderV1}
    {bytes : List UInt8}
    (runs : ∀ numbered : NumberedPath, numbered.path = link.sender → ∃ event next,
      (NumberedPath.machine quic).step numbered event = some (next, []) ∧ next.path = path ∧
        next.sent.length = numbered.sent.length + 1)
    (delays : path.seqDelayMap =
      link.sender.seqDelayMap.insert link.sender.seq (millis link.now).toInt32)
    (recvSeq : path.recvSeq = link.sender.recvSeq)
    (carries : Carries header link.sender.seq bytes) :
    PacketLinkInv quic header delay (freshPath pid mpsender traceLossCb) (link.sends path bytes)
      log where
  refines := by
    obtain ⟨events, numbered, ran, same, length⟩ := inv.refines
    obtain ⟨event, next, stepped, after, longer⟩ := runs numbered same
    have whole := Machine.run_concat ran stepped
    rw [List.append_nil] at whole
    exact ⟨events ++ [event], next, whole, after, by simp [PacketLink.sends, longer, length]⟩
  carries n flight found := by
    rcases getElem?_concat found with before | ⟨rfl, rfl⟩
    · exact inv.carries n flight before
    · rw [← inv.seq_eq few]
      exact carries
  sentAt seq ms found := by
    change path.seqDelayMap.find? seq = some ms at found
    rw [delays, SortedMap.find?_insert] at found
    split_ifs at found with own
    · subst own
      obtain ⟨numbered, same, -, numbers⟩ := inv.numbers few
      have unsent : link.sender.seqDelayMap.find? link.sender.seq = none := by
        have fresh := (numbers.delays link.sender.seq).not.mpr (by simp [same])
        rw [same] at fresh
        simpa using fresh
      rw [unsent, Option.getD_none] at found
      have place : link.sender.seq.toNat - 1 = link.toReceiver.length := by
        rw [inv.seq_eq few, UInt64.toNat_ofNat']
        omega
      refine ⟨⟨link.now, bytes⟩, ?_, ?_⟩
      · rw [place]
        exact List.getElem?_concat_length
      · rw [← Option.some.inj found]
        exact UInt32.toUInt32_toInt32 _
    · obtain ⟨flight, sent, at_⟩ := inv.sentAt seq ms found
      refine ⟨flight, ?_, at_⟩
      rw [PacketLink.sends, List.getElem?_append_left (List.getElem?_eq_some_iff.mp sent).1]
      exact sent
  answers := inv.answers.imp fun _ _ holds => answers_mono holds _
  arrived := inv.arrived
  advanced := inv.advanced
  recvSeq := recvSeq.trans inv.recvSeq

/-- A packet enters a queue. -/
theorem onVideoPacket
    (inv : PacketLinkInv quic header delay (freshPath pid mpsender traceLossCb) link log)
    (packetId : UInt32) (packet : VideoPacketWrapper) (isRetrans : Bool) :
    PacketLinkInv quic header delay (freshPath pid mpsender traceLossCb)
      { link with
        sender := link.sender.onVideoPacket (millis link.now) packetId packet isRetrans } log where
  refines := by
    obtain ⟨events, numbered, ran, same, length⟩ := inv.refines
    have stepped : (NumberedPath.machine quic).step numbered
        (.onVideoPacket (millis link.now) packetId packet isRetrans) =
          some ({ numbered with
            path := numbered.path.onVideoPacket (millis link.now) packetId packet isRetrans },
            []) := rfl
    have whole := Machine.run_concat ran stepped
    rw [List.append_nil] at whole
    refine ⟨_, _, whole, ?_, length⟩
    rw [same]
  carries := inv.carries
  sentAt := inv.sentAt
  answers := inv.answers
  arrived := inv.arrived
  advanced := inv.advanced
  recvSeq := inv.recvSeq

/-- The number of a datagram on its way to the sender. -/
theorem answered_of_flight
    (inv : PacketLinkInv quic header delay (freshPath pid mpsender traceLossCb) link log)
    {n : ℕ} {flight : Flight} (found : link.toSender[n]? = some flight) :
    ∃ seq ∈ answered log, Answer delay header link.toReceiver seq flight := by
  obtain ⟨inside, here⟩ := List.getElem?_eq_some_iff.mp found
  have lengths := inv.answers.length_eq
  refine ⟨(answered log)[n], List.getElem_mem _, ?_⟩
  rw [← here]
  exact inv.answers.get _ _

/-- A number that is answered was sent. -/
theorem sent_of_answer {seq : UInt64} {flight : Flight} {sent : List Flight}
    (holds : Answer delay header sent seq flight) : seq.toNat ≤ sent.length := by
  obtain ⟨asked, found, -⟩ := holds.asked
  have inside := (List.getElem?_eq_some_iff.mp found).1
  omega

/-- An acknowledgement arrives at the sender. -/
theorem onAck (inv : PacketLinkInv quic header delay (freshPath pid mpsender traceLossCb) link log)
    (few : link.toReceiver.length < 2 ^ 48 - 1) {seq : UInt64} (arrived : seq ∈ answered log)
    (positive : 0 < seq) (isSent : seq.toNat ≤ link.toReceiver.length)
    (retrans : UInt64 → Retrans) :
    PacketLinkInv quic header delay (freshPath pid mpsender traceLossCb)
      { link with sender := (link.sender.onAck (millis link.now) retrans seq).1 }
      (log ++ .onAck seq :: (link.sender.onAck (millis link.now) retrans seq).2.map .resolved) := by
  obtain ⟨events, numbered, ran, same, length⟩ := inv.refines
  have numbers : Numbers numbered (resolutions log) := numbers_run ran (by rw [length]; omega)
  have done := acked_onAck (millis link.now) retrans seq link.sender
  have ahead : link.sender.recvSeq + 1 ≤ seq ↔ link.sender.recvSeq < seq := by
    rw [← same]
    exact numbers.ahead_iff
  have advances := advancedSeqs_onAck (millis link.now) retrans seq link.sender
  obtain ⟨resolved, acked, unanswered⟩ := outputs_onAck seq
    (link.sender.onAck (millis link.now) retrans seq).2
  refine ⟨?_, inv.carries, ?_, ?_, ?_, ?_, ?_⟩
  · have known : seq ∈ numbered.sent.map Prod.fst := by
      rw [numbers.sent_iff, UInt64.lt_iff_toNat_lt (a := seq), numbers.next, length]
      exact ⟨positive, Nat.lt_succ_of_le isSent⟩
    have stepped : (NumberedPath.machine quic).step numbered
        (.onAck (millis link.now) seq retrans) =
        some ({ numbered with path := (link.sender.onAck (millis link.now) retrans seq).1 },
          (link.sender.onAck (millis link.now) retrans seq).2) := by
      rw [← same]
      exact if_pos known
    rw [resolutions_append, resolved]
    exact ⟨_, _, Machine.run_concat ran stepped, rfl, length⟩
  · intro other ms found
    change (link.sender.onAck (millis link.now) retrans seq).1.seqDelayMap.find? other = _ at found
    rw [done.seqDelayMap, SortedMap.find?_popLe] at found
    split_ifs at found
    exact inv.sentAt other ms found
  · rw [answered_append, unanswered, List.append_nil]
    exact inv.answers
  · intro other member
    rw [answered_append, unanswered, List.append_nil]
    rw [acknowledged_append, acked] at member
    rcases List.mem_append.mp member with old | new
    · exact inv.arrived other old
    · rw [List.mem_singleton.mp new]
      exact arrived
  · have append (first second : List Resolution) :
        advancedSeqs (first ++ second) = advancedSeqs first ++ advancedSeqs second :=
      List.filterMap_append
    rw [resolutions_append, resolved, append, advances, acknowledged_append, acked,
      Records.records_concat, inv.advanced, ← inv.recvSeq]
    by_cases beyond : link.sender.recvSeq < seq
    · rw [if_pos (ahead.mpr beyond), if_pos beyond]
    · rw [if_neg (ahead.not.mpr beyond), if_neg beyond]
  · rw [acknowledged_append, acked, Records.greatest_concat, ← inv.recvSeq]
    change (link.sender.onAck (millis link.now) retrans seq).1.recvSeq = _
    by_cases beyond : link.sender.recvSeq < seq
    · rw [(done.advanced (ahead.mpr beyond)).1, max_eq_right (le_of_lt beyond)]
    · rw [(done.stale (ahead.not.mpr beyond)).1, max_eq_left (not_lt.mp beyond)]

/-- A packet arrives at the receiver and is answered. -/
theorem receives (inv : PacketLinkInv quic header delay (freshPath pid mpsender traceLossCb)
      link log) (lawful : header.Lawful) (few : link.toReceiver.length < 2 ^ 48 - 1) {n : ℕ}
    {flight : Flight} (found : link.toReceiver[n]? = some flight) {datagram : Datagram}
    (buf : datagram.buf = flight.bytes) (flown : delay.Flown flight.sentAt link.now)
    {firstTs : Int64} {calls : List IncomingCall}
    (received : PathReceiverV1.onIncomingMessage quic header.toQuicNumber (millis link.now) firstTs
      datagram = some calls) :
    PacketLinkInv quic header delay (freshPath pid mpsender traceLossCb)
      (link.answers quic header calls) (log ++ calls.map .received) := by
  have inside := (List.getElem?_eq_some_iff.mp found).1
  have toNat : (UInt64.ofNat (n + 1)).toNat = n + 1 := by
    rw [UInt64.toNat_ofNat']
    exact Nat.mod_eq_of_lt (by omega)
  have carries : Carries header (UInt64.ofNat (n + 1)) datagram.buf :=
    buf ▸ inv.carries n flight found
  obtain ⟨acked, sent⟩ := onIncomingMessage_carries lawful (by rw [toNat]; omega) carries received
  obtain ⟨resolved, unacknowledged, answer⟩ := outputs_received calls
  refine ⟨?_, inv.carries, inv.sentAt, ?_, ?_, ?_, ?_⟩
  · rw [resolutions_append, resolved, List.append_nil]
    exact inv.refines
  · rw [answered_append, answer, acked]
    change List.Forall₂ (Answer delay header link.toReceiver) _ (link.toSender ++ _)
    rw [sent]
    refine List.rel_append inv.answers (.cons ⟨rfl, ?_, flight, ?_, flown⟩ .nil)
    · rw [UInt64.lt_iff_toNat_lt, toNat]
      exact Nat.succ_pos n
    · rw [toNat]
      exact found
  · intro seq member
    rw [acknowledged_append, unacknowledged, List.append_nil] at member
    rw [answered_append]
    exact List.mem_append_left _ (inv.arrived seq member)
  · rw [resolutions_append, resolved, List.append_nil, acknowledged_append, unacknowledged,
      List.append_nil]
    exact inv.advanced
  · rw [acknowledged_append, unacknowledged, List.append_nil]
    exact inv.recvSeq

/-- What is sent stays sent. -/
theorem toReceiver_extends (handled : (PacketLink.machine quic header delay).step link event =
    some (next, out)) : link.toReceiver <+: next.toReceiver := by
  rcases PacketLink.step_cases handled with ⟨_, -, rfl, -⟩ | ⟨_, _, _, -, rfl, -⟩ |
    ⟨_, _, -, beat, -⟩ | ⟨_, _, _, -, -, -, ⟨-, rfl, -⟩ | ⟨_, -, rfl, -⟩⟩ |
    ⟨_, _, _, _, _, -, -, -, -, -, rfl, -⟩
  · exact List.prefix_rfl
  · exact List.prefix_rfl
  · rcases PacketLink.processVideoPacket_cases beat with rfl | rfl | ⟨_, _, _, _, -, -, rfl⟩
    · exact List.prefix_rfl
    · exact List.prefix_append _ _
    · exact List.prefix_append _ _
  · exact List.prefix_rfl
  · exact List.prefix_rfl
  · exact List.prefix_rfl

/-- **Every event keeps the invariant**, as long as the numbers fit into six bytes. -/
theorem step (inv : PacketLinkInv quic header delay (freshPath pid mpsender traceLossCb) link log)
    (lawful : header.Lawful) (few : next.toReceiver.length < 2 ^ 48 - 1)
    (handled : (PacketLink.machine quic header delay).step link event = some (next, out)) :
    PacketLinkInv quic header delay (freshPath pid mpsender traceLossCb) next (log ++ out) := by
  have before : link.toReceiver.length < 2 ^ 48 - 1 :=
    lt_of_le_of_lt (toReceiver_extends handled).length_le few
  rcases PacketLink.step_cases handled with ⟨_, -, rfl, rfl⟩ |
    ⟨packetId, packet, isRetrans, -, rfl, rfl⟩ | ⟨_, _, -, beat, rfl⟩ |
    ⟨n, flight, retrans, -, found, flown, ⟨-, rfl, rfl⟩ | ⟨seq, read, rfl, rfl⟩⟩ |
    ⟨n, flight, datagram, firstTs, calls, -, found, buf, flown, received, rfl, rfl⟩
  · rw [List.append_nil]
    exact ⟨inv.refines, inv.carries, inv.sentAt, inv.answers, inv.arrived, inv.advanced,
      inv.recvSeq⟩
  · rw [List.append_nil]
    exact inv.onVideoPacket packetId packet isRetrans
  · rw [List.append_nil]
    rcases PacketLink.processVideoPacket_cases beat with rfl | rfl |
      ⟨isRetrans, payload, path, packetId, -, taken, rfl⟩
    · exact inv
    · refine inv.sends before (fun numbered same => ?_) rfl rfl
        (carries_paddingDatagram lawful _ _)
      refine ⟨.sendPaddingPacket (millis link.now), _, rfl, ?_, List.length_cons⟩
      rw [same]
    · have runs (numbered : NumberedPath) (same : numbered.path = link.sender) :
          (NumberedPath.machine quic).step numbered
            (.sendStreamPacket (millis link.now) isRetrans) =
              some (⟨path, (numbered.path.seq, some packetId) :: numbered.sent⟩, []) := by
        change (numbered.path.sendStreamPacket quic (millis link.now) isRetrans).map _ = _
        rw [same, taken]
        rfl
      obtain ⟨kept, same, rfl⟩ := sendStreamPacket_spec taken
      refine inv.sends before (fun numbered eq => ⟨_, _, runs numbered eq, rfl, rfl⟩) ?_
        same.recvSeq (carries_streamDatagram _ _)
      rw [← same.seqDelayMap, ← same.seq]
      rfl
  · rw [List.append_nil]
    exact inv
  · obtain ⟨known, arrived, answer⟩ := inv.answered_of_flight found
    have isSent := sent_of_answer answer
    rw [answer.bytes, onIncomingMessage_ack lawful (by omega)] at read
    obtain rfl := Option.some.inj read
    exact inv.onAck before arrived answer.positive isSent retrans
  · exact inv.receives lawful before found buf flown received

theorem of_run (lawful : header.Lawful) {events : List PacketLinkEvent}
    (ran : (PacketLink.machine quic header delay).run (.start pid mpsender traceLossCb) events =
      some (link, log)) (few : link.toReceiver.length < 2 ^ 48 - 1) :
    PacketLinkInv quic header delay (freshPath pid mpsender traceLossCb) link log := by
  refine Machine.run_log_invariant
    (fun (link : PacketLink) log => link.toReceiver.length < 2 ^ 48 - 1 →
      PacketLinkInv quic header delay (freshPath pid mpsender traceLossCb) link log) ?_ []
    (fun _ => .start quic header delay pid mpsender traceLossCb) ran few
  intro link past event next out holds handled few
  have less := (toReceiver_extends handled).length_le
  exact (holds (lt_of_le_of_lt less few)).step lawful few handled

end PacketLinkInv

variable {quic : QuicData} {header : QuicHeader} {delay : Delay} {pid : UInt8}
  {mpsender traceLossCb : Bool} {events : List PacketLinkEvent} {link : PacketLink}
  {log : List PacketLinkCall}

/-- **The sender of a link runs as a numbered path.** Whatever the network does with the
datagrams, only numbers are acknowledged that were sent, and what is resolved is what the path
resolves. -/
theorem refines_path (lawful : header.Lawful)
    (ran : (PacketLink.machine quic header delay).run (.start pid mpsender traceLossCb) events =
      some (link, log)) (few : link.toReceiver.length < 2 ^ 48 - 1) :
    ∃ pathEvents numbered, (NumberedPath.machine quic).run
      { path := { pid, mpsender, traceLossCb } } pathEvents = some (numbered, resolutions log) ∧
      numbered.path = link.sender ∧ numbered.sent.length = link.toReceiver.length :=
  (PacketLinkInv.of_run lawful ran few).refines

/-- Three packets of padding are sent, the second of which does not arrive. -/
def skipped : List PacketLinkEvent :=
  [.processVideoPacket true true, .processVideoPacket true true, .processVideoPacket true true,
    .elapse 20000000, .atReceiver 0 (-1), .atReceiver 2 (-1), .elapse 20000000,
    .atSender 0 fun _ => [], .atSender 1 fun _ => []]

/-- The network of the example. -/
def skipping : Machine PacketLink PacketLinkEvent PacketLinkCall :=
  PacketLink.machine networkOrder publicHeader ⟨10000000, 30000000⟩

theorem skipped_runs : ∃ link log,
    skipping.run (.start 1 false false) skipped = some (link, log) ∧
      link.toReceiver.length < 2 ^ 48 - 1 ∧ link.sender.recvSeq = 3 ∧
      answered log = [1, 3] ∧ acknowledged log = [1, 3] := by
  have defined : (skipping.run (.start 1 false false) skipped).any fun result =>
      result.1.toReceiver.length < 2 ^ 48 - 1 ∧ result.1.sender.recvSeq = 3 ∧
        answered result.2 = [1, 3] ∧ acknowledged result.2 = [1, 3] := by
    decide +kernel
  obtain ⟨⟨link, log⟩, ran, good⟩ := (Option.any_eq_true ..).mp defined
  exact ⟨link, log, ran, of_decide_eq_true good⟩

theorem refines_path_skipped : ∃ link log,
    skipping.run (.start 1 false false) skipped = some (link, log) ∧
      ∃ pathEvents numbered, (NumberedPath.machine networkOrder).run
        { path := { pid := 1 } } pathEvents = some (numbered, resolutions log) ∧
        numbered.path = link.sender ∧ numbered.sent.length = link.toReceiver.length := by
  obtain ⟨link, log, ran, few, -⟩ := skipped_runs
  exact ⟨link, log, ran, refines_path publicHeader_lawful ran few⟩

namespace PacketLinkInv

/-- Only packets that were sent are answered. -/
theorem sent_of_answered (inv : PacketLinkInv quic header delay (freshPath pid mpsender traceLossCb)
      link log) {seq : UInt64} (known : seq ∈ answered log) :
    0 < seq ∧ seq.toNat ≤ link.toReceiver.length := by
  obtain ⟨n, inside, rfl⟩ := List.getElem_of_mem known
  have answer := inv.answers.get inside (inv.answers.length_eq ▸ inside)
  exact ⟨answer.positive, sent_of_answer answer⟩

/-- What arrived and is not acknowledged yet lies beyond `recv_seq_`, when the order is kept. -/
theorem acknowledged_of_le
    (inv : PacketLinkInv quic header delay (freshPath pid mpsender traceLossCb) link log)
    (increasing : (answered log).Pairwise (· < ·)) (inTurn : acknowledged log <+: answered log)
    {seq : UInt64} (known : seq ∈ answered log) (most : seq ≤ link.sender.recvSeq) :
    seq ∈ acknowledged log := by
  obtain ⟨later, eq⟩ := inTurn
  have positive := (inv.sent_of_answered known).1
  rw [← eq] at known increasing
  rcases List.mem_append.mp known with acked | waiting
  · exact acked
  · have above := (List.pairwise_append.mp increasing).2.2
    rw [inv.recvSeq] at most
    rcases Records.greatest_mem 0 (acknowledged log) with zero | last
    · rw [zero] at most
      exact absurd positive (not_lt.mpr most)
    · exact absurd (above _ last _ waiting) (not_lt.mpr most)

end PacketLinkInv

/-- **What counts as delivered did arrive.** The numbers to which the sender advances are the
records of the acknowledgements in the order in which these arrive, and the receiver had the
packet of each acknowledgement before. -/
theorem delivered_arrived (lawful : header.Lawful)
    (ran : (PacketLink.machine quic header delay).run (.start pid mpsender traceLossCb) events =
      some (link, log)) (few : link.toReceiver.length < 2 ^ 48 - 1) :
    advancedSeqs (resolutions log) = records 0 (acknowledged log) ∧
      ∀ seq ∈ acknowledged log, seq ∈ answered log ∧
        0 < seq ∧ seq.toNat ≤ link.toReceiver.length := by
  have inv := PacketLinkInv.of_run lawful ran few
  exact ⟨inv.advanced, fun seq member =>
    ⟨inv.arrived seq member, inv.sent_of_answered (inv.arrived seq member)⟩⟩

theorem delivered_arrived_skipped : ∃ link log,
    skipping.run (.start 1 false false) skipped = some (link, log) ∧
      advancedSeqs (resolutions log) = records 0 (acknowledged log) ∧
      ∀ seq ∈ acknowledged log, seq ∈ answered log ∧
        0 < seq ∧ seq.toNat ≤ link.toReceiver.length := by
  obtain ⟨link, log, ran, few, -⟩ := skipped_runs
  exact ⟨link, log, ran, delivered_arrived publicHeader_lawful ran few⟩

/-- A number that is lost was resolved. -/
theorem resolved_of_lost {resolved : List Resolution} {seq : UInt64}
    (lost : seq ∈ lostSeqs resolved) : seq ∈ resolved.map Resolution.seq := by
  obtain ⟨entry, member, found⟩ := List.mem_filterMap.mp lost
  cases entry with
  | advanced => cases found
  | lost number => exact Option.some.inj found ▸ List.mem_map_of_mem member

/-- **In a network that keeps the order, exactly the packets that did not arrive are declared
lost**, as long as the acknowledgements arrive one after the other. -/
theorem losses_exact (lawful : header.Lawful)
    (ran : (PacketLink.machine quic header delay).run (.start pid mpsender traceLossCb) events =
      some (link, log)) (few : link.toReceiver.length < 2 ^ 48 - 1)
    (increasing : (answered log).Pairwise (· < ·)) (inTurn : acknowledged log <+: answered log)
    (seq : UInt64) :
    seq ∈ lostSeqs (resolutions log) ↔
      0 < seq ∧ seq ≤ link.sender.recvSeq ∧ seq ∉ answered log := by
  have inv := PacketLinkInv.of_run lawful ran few
  obtain ⟨numbered, same, -, numbers⟩ := inv.numbers few
  have losses := numbers.lossesOnce
  have advanced : advancedSeqs (resolutions log) = acknowledged log := by
    rw [inv.advanced]
    exact Records.records_eq_self
      (fun seq member => (inv.sent_of_answered (inv.arrived seq member)).1)
      (increasing.sublist inTurn.sublist)
  rw [← same]
  constructor
  · intro lost
    have resolved := resolved_of_lost lost
    rw [numbers.resolved, mem_firstSeqs (UInt64.toNat_lt _)] at resolved
    have most := losses.noneBehind seq lost
    refine ⟨resolved.1, most, fun known => ?_⟩
    have acked := inv.acknowledged_of_le increasing inTurn known (same ▸ most)
    rw [← advanced] at acked
    rcases losses.exactlyOne seq resolved.1 most with ⟨-, absent⟩ | ⟨absent, -⟩
    · exact absent lost
    · exact absent acked
  · rintro ⟨above, most, absent⟩
    rcases losses.exactlyOne seq above most with ⟨acked, -⟩ | ⟨-, once⟩
    · rw [advanced] at acked
      exact absurd (inv.arrived seq acked) absent
    · exact List.count_pos_iff.mp (once ▸ Nat.one_pos)

/-- The second packet is lost. -/
theorem losses_exact_skipped : ∃ link log,
    skipping.run (.start 1 false false) skipped = some (link, log) ∧
      (2 ∈ lostSeqs (resolutions log) ↔
        0 < (2 : UInt64) ∧ 2 ≤ link.sender.recvSeq ∧ 2 ∉ answered log) ∧
      2 ≤ link.sender.recvSeq ∧ 2 ∉ answered log := by
  obtain ⟨link, log, ran, few, recvSeq, arrived, acked⟩ := skipped_runs
  refine ⟨link, log, ran, losses_exact publicHeader_lawful ran few ?_ ?_ 2, ?_, ?_⟩
  · rw [arrived]
    decide
  · rw [arrived, acked]
  · rw [recvSeq]
    decide
  · rw [arrived]
    decide

end MpVideo.EndToEnd
