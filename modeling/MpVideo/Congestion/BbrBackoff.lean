import MpVideo.Congestion.BbrRtt

/-!
# One congestion per window

A congestion is a round trip time well above the base line. After a back-off there is no base
line until a packet is acknowledged that was sent after it, so that the packets of one window
lead to one back-off (`backsOff_once_per_window`).
-/

set_option autoImplicit false

namespace MpVideo.Congestion.Decisions

variable {library : QuicLibrary} {version : Version} {s next : Decisions library}

/-! ## The members that signal a congestion -/

/-- When the last acknowledged number is `acked`: there is a base line only once a packet was
acknowledged that was sent after the last back-off, which is `least` or later. In the version 3
there is none while the sender recovers from a congestion. -/
structure Signal (version : Version) (least acked : UInt64) (s : Decisions library) : Prop where
  beyond : s.baseLineRtt ≠ ⊤ → s.seqAtBackoff < acked
  least_le : least ≤ s.seqAtBackoff
  hidden : version = .v3 → s.congestionBackoffFlag = true →
    s.baseLineRtt = ⊤ ∧ s.mode = .decrease

variable {least acked n : UInt64}

theorem Signal.copy (signal : Signal version least acked s)
    (mode : s.mode = .decrease → next.mode = .decrease)
    (baseLine : next.baseLineRtt = s.baseLineRtt)
    (seq : next.seqAtBackoff = s.seqAtBackoff)
    (flag : next.congestionBackoffFlag = s.congestionBackoffFlag) :
    Signal version least acked next where
  beyond set := by
    rw [seq]
    exact signal.beyond (baseLine ▸ set)
  least_le := by
    rw [seq]
    exact signal.least_le
  hidden three recovers := by
    obtain ⟨none, decrease⟩ := signal.hidden three (flag ▸ recovers)
    exact ⟨baseLine.trans none, mode decrease⟩

theorem Signal.of_same (signal : Signal version least acked s) (same : SameRecords s next) :
    Signal version least acked next :=
  signal.copy same.decrease.mpr same.baseLine same.seq same.flag

theorem Signal.mono (signal : Signal version least acked s) {later : UInt64}
    (le : acked ≤ later) : Signal version least later s :=
  { signal with beyond := fun set => lt_of_lt_of_le (signal.beyond set) le }

/-! ## What the operations do to it -/

theorem Signal.updateRtt (signal : Signal version least n s) (now : QuicTime)
    (packet : PerPacket) : Signal version least n (s.updateRtt now n packet version) := by
  have minima {s : Decisions library} (signal : Signal version least n s) (rtt : QuicTime) :
      Signal version least n ((s.updateMinRtt now rtt).updateMinRttInDecrease now rtt) := by
    simp only [updateMinRtt, updateMinRttInDecrease]
    split_ifs <;> exact signal.copy id rfl rfl rfl
  have current : Signal version least n { s with curRtt := now - packet.sentTs } :=
    signal.copy id rfl rfl rfl
  cases version with
  | v2 => exact minima signal _
  | v3 => exact minima current _
  | v4 => exact minima current _
  | v5 =>
      have kept := minima signal (now - packet.sentTs)
      simp only [Decisions.updateRtt, updateBaseLine]
      generalize (s.updateMinRtt now (now - packet.sentTs)).updateMinRttInDecrease now
        (now - packet.sentTs) = measured at kept ⊢
      split_ifs with increase
      · exact ⟨fun _ => increase.2, kept.least_le, fun three => by cases three⟩
      · exact ⟨fun _ => increase.2, kept.least_le, fun three => by cases three⟩
      · exact ⟨kept.beyond, kept.least_le, fun three => by cases three⟩
      · exact ⟨kept.beyond, kept.least_le, fun three => by cases three⟩
      · exact kept

theorem Signal.enter {account : Account} (signal : Signal version least n s)
    (sent : least ≤ account.lastSentPacket) (mode : s.mode ≠ .decrease)
    (expired congested : Bool) (round : Int64) :
    Signal version least n (s.enter account expired congested round version) := by
  have clear (three : version = .v3) : s.congestionBackoffFlag ≠ true :=
    fun flag => mode (signal.hidden three flag).2
  cases version with
  | v2 => exact ⟨signal.beyond, signal.least_le, fun three => nomatch three⟩
  | v3 =>
      cases congested with
      | false => exact ⟨signal.beyond, signal.least_le, fun _ flag => absurd flag (clear rfl)⟩
      | true => exact ⟨fun set => absurd rfl set, sent, fun _ _ => ⟨rfl, rfl⟩⟩
  | v4 =>
      cases congested with
      | false => exact ⟨signal.beyond, signal.least_le, fun three => nomatch three⟩
      | true => exact ⟨fun set => absurd rfl set, sent, fun three => nomatch three⟩
  | v5 => exact ⟨fun set => absurd rfl set, sent, fun three => nomatch three⟩

/-- The signal once the decrease is over for an acknowledgement: in the version 3 a sender
that recovers has noted the last packet sent. -/
structure Noted (version : Version) (least n : UInt64) (s : Decisions library) : Prop
    extends Signal version least n s where
  noted : version = .v3 → s.congestionBackoffFlag = true → n ≤ s.seqAtBackoff

theorem Signal.probe {account : Account} (signal : Signal version least n s)
    (sent : least ≤ account.lastSentPacket) (acked : n ≤ account.lastSentPacket)
    (now : QuicTime) : Noted version least n (s.probe account now version) := by
  have kept : Signal version least n
      (if s.exitProbeRttAt = 0 then { s with exitProbeRttAt := now } else s) := by
    split_ifs <;> exact signal.copy id rfl rfl rfl
  simp only [Decisions.probe]
  generalize (if s.exitProbeRttAt = 0 then { s with exitProbeRttAt := now } else s) = begun
    at kept ⊢
  split_ifs with recovers
  · obtain ⟨none, mode⟩ := kept.hidden recovers.1 recovers.2
    exact ⟨⟨fun set => absurd none set, sent, fun _ _ => ⟨none, mode⟩⟩, fun _ _ => acked⟩
  · exact ⟨kept, fun three flag => absurd ⟨three, flag⟩ recovers⟩

theorem Noted.leave (noted : Noted version least n s) (now : QuicTime) :
    Noted version least n ((s.restore now version).enterIncreaseMode now version) := by
  have other (different : version ≠ .v3) (same : ((s.restore now version).enterIncreaseMode now
        version).baseLineRtt = s.baseLineRtt)
      (seq : ((s.restore now version).enterIncreaseMode now version).seqAtBackoff =
        s.seqAtBackoff) :
      Noted version least n ((s.restore now version).enterIncreaseMode now version) :=
    ⟨⟨fun set => by rw [seq]; exact noted.beyond (same ▸ set), by rw [seq]; exact noted.least_le,
      fun three => absurd three different⟩, fun three => absurd three different⟩
  cases version with
  | v2 => exact other (by decide) rfl rfl
  | v3 => exact ⟨⟨noted.beyond, noted.least_le, fun _ flag => nomatch flag⟩,
      fun _ flag => nomatch flag⟩
  | v4 => exact other (by decide) rfl rfl
  | v5 =>
      refine other (by decide) ?_ ?_ <;> simp only [restore, enterIncreaseMode] <;>
        split_ifs <;> rfl

theorem Signal.exit {account : Account} (signal : Signal version least n s)
    (sent : least ≤ account.lastSentPacket) (acked : n ≤ account.lastSentPacket)
    (now : QuicTime) : Noted version least n (s.exit account now version) := by
  have probed := signal.probe sent acked now
  simp only [Decisions.exit]
  split_ifs
  · exact probed.leave now
  · exact probed

theorem Signal.maybeEnterOrExitDecrease {account : Account} (signal : Signal version least n s)
    (sent : least ≤ account.lastSentPacket) (acked : n ≤ account.lastSentPacket)
    (now : QuicTime) (expired congested : Bool) (round : Int64) :
    Noted version least n
      (s.maybeEnterOrExitDecrease version account now expired congested round) := by
  simp only [Decisions.maybeEnterOrExitDecrease]
  split_ifs with entry decrease decrease
  · exact (signal.enter sent entry.1 expired congested round).exit sent acked now
  · exact absurd (mode_enter ..) decrease
  · exact signal.exit sent acked now
  · exact ⟨signal, fun three flag => absurd (signal.hidden three flag).2 decrease⟩

/-- A congestion makes the last packet sent the one to wait for. -/
theorem Signal.backOff {account : Account} (signal : Signal version least n s)
    (cycles : version ≠ .v2) (acked : n ≤ account.lastSentPacket) (mode : s.mode ≠ .decrease)
    (now : QuicTime) (expired : Bool) (round : Int64) :
    Noted version account.lastSentPacket n
      (s.maybeEnterOrExitDecrease version account now expired true round) := by
  have entered : Signal version account.lastSentPacket n
      (s.enter account expired true round version) := by
    cases version with
    | v2 => exact absurd rfl cycles
    | v3 => exact ⟨fun set => absurd rfl set, le_rfl, fun _ _ => ⟨rfl, rfl⟩⟩
    | v4 => exact ⟨fun set => absurd rfl set, le_rfl, fun three => nomatch three⟩
    | v5 => exact ⟨fun set => absurd rfl set, le_rfl, fun three => nomatch three⟩
  have both : s.mode ≠ .decrease ∧ (expired = true ∨ true = true) := ⟨mode, .inr rfl⟩
  rw [Decisions.maybeEnterOrExitDecrease]
  rw [if_pos both, if_pos (mode_enter ..)]
  exact entered.exit le_rfl acked now

theorem Noted.updateCongestionSignal (noted : Noted version least n s) :
    Noted version least n (s.updateCongestionSignal n) := by
  simp only [Decisions.updateCongestionSignal]
  generalize (if s.sRtt = 0 then s.curRtt else smoothRtt 90 s.sRtt s.curRtt) = smoothed
  split_ifs with unset beyond below
  · exact noted
  · have clear (three : version = .v3) : s.congestionBackoffFlag ≠ true :=
      fun flag => absurd beyond (not_lt.mpr (noted.noted three flag))
    exact ⟨⟨fun _ => beyond, noted.least_le, fun three flag => absurd flag (clear three)⟩,
      fun three flag => absurd flag (clear three)⟩
  · exact ⟨⟨noted.beyond, noted.least_le, noted.hidden⟩, noted.noted⟩
  · exact noted

/-- Without a base line there is no congestion. -/
theorem baseLine_of_congested {account : Account} {bw : Option Sample} {round : Int64}
    (cycles : version ≠ .v2)
    (congested : (s.checkIfCongestion account n bw round version).2 = true) :
    s.baseLineRtt ≠ ⊤ := by
  cases version with
  | v2 => exact absurd rfl cycles
  | v3 => exact (of_decide_eq_true congested).2.1
  | v4 => exact (of_decide_eq_true congested).2.1
  | v5 =>
      have set := (of_decide_eq_true congested).1
      split_ifs at set <;> exact set

/-! ## Acknowledgements -/

/-- Whether an acknowledgement makes a sender back off for a congestion. -/
def BacksOff (version : Version) (traced : TracedSender (Decisions library)) :
    CongestionEvent → Prop
  | .onPacketSent _ _ _ => False
  | .onAck now n =>
      let settled := traced.sender.settle (control version) now n
      let ack := settled.2.1
      traced.sender.account.lastAckSeq < n ∧ ack.currentRound ≠ 0 ∧
        settled.1.state.mode = .increase ∧ (version = .v5 ∨ ack.isRoundUpdate = true) ∧
        (settled.1.state.checkIfCongestion settled.1.account n ack.bw ack.currentRound
          version).2 = true

/-- What follows the decrease keeps the signal. -/
theorem Noted.decide {account : Account} {ack : Ack} (cycles : version ≠ .v2)
    (noted : ∀ check, (version = .v5 ∨ ack.isRoundUpdate = true → check = true) →
      Noted version least ack.packetNumber ((control version).decrease account ack check s)) :
    Signal version least ack.packetNumber (version.decide (control version) account ack s) := by
  have leave {s : Decisions library} (signal : Signal version least ack.packetNumber s) :
      Signal version least ack.packetNumber
        ((control version).cycle ack ((control version).maybeExitStartupOrDrain account
          ack.eventTime ((control version).checkFullBandwidth ack
            ((control version).recordBandwidth ack s)))) :=
    signal.of_same ((((sameRecords_recordBandwidth ack s).trans
      (sameRecords_checkFullBandwidth ack _)).trans
      (sameRecords_maybeExitStartupOrDrain account ack.eventTime _ version)).trans
      (sameRecords_cycle ack _))
  cases version with
  | v2 => exact absurd rfl cycles
  | v3 =>
      have first := noted ack.isRoundUpdate fun update => update.resolve_left (by decide)
      exact leave first.updateCongestionSignal.toSignal
  | v4 =>
      have first := noted ack.isRoundUpdate fun update => update.resolve_left (by decide)
      exact leave first.updateCongestionSignal.toSignal
  | v5 => exact leave (noted true fun _ => rfl).toSignal

instance (version : Version) (traced : TracedSender (Decisions library)) :
    DecidablePred (BacksOff version traced)
  | .onPacketSent _ _ _ => inferInstanceAs (Decidable False)
  | .onAck _ _ => inferInstanceAs (Decidable (_ ∧ _))

/-- The decisions on an acknowledgement of a packet that was sent keep the signal. -/
theorem Signal.decide {account : Account} {ack : Ack}
    (signal : Signal version least ack.packetNumber s) (cycles : version ≠ .v2)
    (sent : least ≤ account.lastSentPacket) (acked : ack.packetNumber ≤ account.lastSentPacket) :
    Signal version least ack.packetNumber (version.decide (control version) account ack s) := by
  refine Noted.decide cycles fun check _ => ?_
  simp only [Control.decrease]
  split_ifs
  · exact (signal.of_same (sameRecords_checkIfCongestion ..)).maybeEnterOrExitDecrease sent
      acked _ _ _ _
  · exact signal.maybeEnterOrExitDecrease sent acked _ _ _ _

/-- When they find a congestion, the last packet sent becomes the one to wait for. -/
theorem Signal.decide_congested {account : Account} {ack : Ack}
    (signal : Signal version least ack.packetNumber s) (cycles : version ≠ .v2)
    (acked : ack.packetNumber ≤ account.lastSentPacket) (increase : s.mode = .increase)
    (checks : version = .v5 ∨ ack.isRoundUpdate = true)
    (congested : (s.checkIfCongestion account ack.packetNumber ack.bw ack.currentRound
      version).2 = true) :
    Signal version account.lastSentPacket ack.packetNumber
      (version.decide (control version) account ack s) := by
  refine Noted.decide cycles fun check must => ?_
  have checked := signal.of_same
    (sameRecords_checkIfCongestion account ack.packetNumber ack.bw ack.currentRound s version)
  have mode : (s.checkIfCongestion account ack.packetNumber ack.bw ack.currentRound
      version).1.mode ≠ .decrease := by
    rw [(sameCourse_checkIfCongestion ..).mode, increase]
    decide
  have noted := checked.backOff cycles acked mode ack.eventTime
    ((control version).minRttExpired ack.eventTime s) ack.currentRound
  have enters : (((control version).mode s = .increase) && check) = true := by
    rw [must checks, Bool.and_true]
    exact decide_eq_true increase
  rw [← congested] at noted
  simp only [Control.decrease]
  rw [if_pos enters]
  exact noted

/-- What relates the signal of a sender to its accounts. -/
structure Backoff (version : Version) (least : UInt64)
    (traced : TracedSender (Decisions library)) : Prop where
  agrees : traced.Agrees
  signal : Signal version least traced.sender.account.lastAckSeq traced.sender.state
  sent : least ≤ traced.sender.account.lastSentPacket

/-- When a sender acknowledges a number, the signal is that of the number before it decides. -/
theorem Backoff.settled {traced : TracedSender (Decisions library)}
    (backoff : Backoff version least traced) (now : QuicTime)
    (beyond : traced.sender.account.lastAckSeq < n) :
    Signal version least n (traced.sender.settle (control version) now n).1.state := by
  have signal := backoff.signal.mono (le_of_lt beyond)
  simp only [MyBbrSender.settle, MyBbrSender.updateRttAndInflight]
  split
  · exact signal.updateRtt now _
  · exact signal

/-- Every event keeps it. -/
theorem Backoff.handle {traced next : TracedSender (Decisions library)}
    {event : CongestionEvent} {log : List Subtraction} (cycles : version ≠ .v2)
    (backoff : Backoff version least traced)
    (handled : (TracedSender.machine version (control version)).step traced event =
      some (next, log)) :
    Backoff version least next := by
  have agrees := TracedSender.handle_agrees backoff.agrees handled
  cases event with
  | onPacketSent now n bytes =>
      obtain ⟨rfl, -⟩ := Prod.mk.inj (Option.some.inj handled)
      by_cases known : n ≤ traced.sender.account.lastSentPacket
      · have same : traced.sender.account.onPacketSent now n bytes = traced.sender.account :=
          if_pos known
        refine ⟨agrees, ?_, ?_⟩ <;> simp only [MyBbrSender.onPacketSent, same]
        · exact backoff.signal
        · exact backoff.sent
      · have after : (traced.sender.account.onPacketSent now n bytes).lastAckSeq =
            traced.sender.account.lastAckSeq ∧
            (traced.sender.account.onPacketSent now n bytes).lastSentPacket = n := by
          rw [Account.onPacketSent, if_neg known]
          exact ⟨rfl, rfl⟩
        refine ⟨agrees, ?_, ?_⟩ <;> simp only [MyBbrSender.onPacketSent, after]
        · exact backoff.signal
        · exact le_trans backoff.sent (le_of_lt (not_le.mp known))
  | onAck now n =>
      change TracedSender.handle version _ traced (.onAck now n) = _ at handled
      rw [TracedSender.handle] at handled
      split_ifs at handled with member
      obtain ⟨⟨sender, subtractions⟩, acked, result⟩ := Option.map_eq_some_iff.mp handled
      obtain ⟨rfl, -⟩ := Prod.mk.inj result
      rcases MyBbrSender.onAck_cases (control version) acked with
        ⟨-, rfl, -⟩ | ⟨beyond, accounts, -⟩
      · exact backoff
      obtain ⟨measured, decided, settled, -, decision, calculated⟩ :=
        MyBbrSender.onAck_state beyond acked
      have now_settled := MyBbrSender.settle_settled (control version) now beyond
      rw [← accounts] at now_settled
      have first : Signal version least n measured := settled ▸ backoff.settled now beyond
      have sent : least ≤ sender.account.lastSentPacket := by
        rw [now_settled.lastSentPacket]
        exact backoff.sent
      have second : Signal version least n decided := by
        rcases decision with ⟨-, rfl⟩ | ⟨-, rfl⟩
        · exact first
        · have numbered : Signal version least
              (traced.sender.settle (control version) now n).2.1.packetNumber measured := first
          refine numbered.decide cycles sent ?_
          rw [now_settled.lastSentPacket]
          exact backoff.agrees.sent_le n member
      refine ⟨agrees, ?_, sent⟩
      simp only [now_settled.lastAckSeq]
      exact second.of_same (sameRecords_calculatePacingRate calculated)

/-- After a back-off, the packets sent by then say nothing about a congestion. -/
theorem Backoff.backsOff {traced next : TracedSender (Decisions library)}
    {event : CongestionEvent} {log : List Subtraction} (cycles : version ≠ .v2)
    (backoff : Backoff version least traced) (backs : BacksOff version traced event)
    (handled : (TracedSender.machine version (control version)).step traced event =
      some (next, log)) :
    Backoff version traced.sender.account.lastSentPacket next := by
  have kept := backoff.handle cycles handled
  cases event with
  | onPacketSent now n bytes => exact backs.elim
  | onAck now n =>
      obtain ⟨beyond, rounds, increase, checks, congested⟩ := backs
      change TracedSender.handle version _ traced (.onAck now n) = _ at handled
      rw [TracedSender.handle] at handled
      split_ifs at handled with member
      obtain ⟨⟨sender, subtractions⟩, acked, result⟩ := Option.map_eq_some_iff.mp handled
      obtain ⟨rfl, -⟩ := Prod.mk.inj result
      have accounts := ((MyBbrSender.onAck_cases (control version) acked).resolve_left
        fun old => absurd beyond (not_lt.mpr old.1)).2.1
      obtain ⟨measured, decided, settled, -, decision, calculated⟩ :=
        MyBbrSender.onAck_state beyond acked
      obtain ⟨-, rfl⟩ := decision.resolve_left fun round => rounds round.1
      have now_settled := MyBbrSender.settle_settled (control version) now beyond
      rw [← accounts] at now_settled
      have first : Signal version least n measured := settled ▸ backoff.settled now beyond
      rw [← settled] at increase congested
      rw [← accounts] at congested
      have known : n ≤ sender.account.lastSentPacket := by
        rw [now_settled.lastSentPacket]
        exact backoff.agrees.sent_le n member
      have numbered : Signal version least
          (traced.sender.settle (control version) now n).2.1.packetNumber measured := first
      have second := numbered.decide_congested cycles known increase
        checks congested
      refine ⟨kept.agrees, ?_, le_of_eq now_settled.lastSentPacket.symm⟩
      simp only [now_settled.lastAckSeq, ← now_settled.lastSentPacket]
      exact second.of_same (sameRecords_calculatePacingRate calculated)

/-- **A sender backs off for a congestion at most once per window.** In the versions 3, 4 and 5,
after a back-off at one acknowledgement no other one follows until a packet is acknowledged
that was sent after it. -/
theorem backsOff_once_per_window (version : Version) (cycles : version ≠ .v2) (minBw : ℤ)
    (random : library.Random) (events more : List CongestionEvent) (first : CongestionEvent)
    (now : QuicTime) (n : UInt64) (traced next later : TracedSender (Decisions library))
    (log out added : List Subtraction)
    (ran : (TracedSender.machine version (control version)).run
      (TracedSender.fresh { minBw := minBw, random := random }) events = some (traced, log))
    (backs : BacksOff version traced first)
    (handled : (TracedSender.machine version (control version)).step traced first =
      some (next, out))
    (onwards : (TracedSender.machine version (control version)).run next more =
      some (later, added))
    (again : BacksOff version later (.onAck now n)) :
    traced.sender.account.lastSentPacket < n := by
  have start : Backoff version 0 (TracedSender.fresh { minBw := minBw, random := random }) :=
    ⟨Account.keeps_fresh, ⟨fun set => absurd rfl set, le_rfl, fun _ flag => nomatch flag⟩, le_rfl⟩
  have before := Machine.run_invariant (Backoff version 0)
    (fun _ _ _ _ backoff handled => backoff.handle cycles handled) start ran
  have after := before.backsOff cycles backs handled
  have afterwards := Machine.run_invariant (Backoff version traced.sender.account.lastSentPacket)
    (fun _ _ _ _ backoff handled => backoff.handle cycles handled) after onwards
  obtain ⟨beyond, -, -, -, congested⟩ := again
  have signal := afterwards.settled now beyond
  refine lt_of_le_of_lt signal.least_le (signal.beyond (baseLine_of_congested cycles congested))

/-- The round trip time doubles twice. -/
def doubled : List CongestionEvent :=
  steady ++ .onPacketSent 1400000 8 1000 :: .onAck 1600000 8 ::
    (oneByOne 9 [(1800000, 200000)] ++ [.onPacketSent 2200000 10 1000])

/-- The sender backs off when the packet 8 is acknowledged, and again when the packet 10 is. -/
theorem backsOff_once_per_window_doubled :
    ∃ traced later : TracedSender (Decisions .plain), BacksOff .v5 traced (.onAck 1600000 8) ∧
      BacksOff .v5 later (.onAck 2600000 10) ∧
      traced.sender.account.lastSentPacket < (10 : UInt64) := by
  have defined : ((TracedSender.machine .v5 (control .v5)).run plainSender doubled).isSome := by
    decide +kernel
  obtain ⟨⟨later, log⟩, ran⟩ := Option.isSome_iff_exists.mp defined
  have again : BacksOff .v5 later (.onAck 2600000 10) := by
    rw [after_eq ran]
    decide +kernel
  rw [doubled, List.append_cons] at ran
  obtain ⟨traced, first, rest, ran, onwards, -⟩ := Machine.run_append.mp ran
  obtain ⟨next, out, added, handled, onwards, -⟩ := Machine.run_cons.mp onwards
  have backs : BacksOff .v5 traced (.onAck 1600000 8) := by
    rw [after_eq ran]
    decide +kernel
  exact ⟨traced, later, backs, again,
    backsOff_once_per_window .v5 (by decide) 0 _ _ _ _ _ _ traced next later _ _ _ ran backs
      handled onwards again⟩

end MpVideo.Congestion.Decisions
