import MpVideo.Congestion.BbrDecisions
import MpVideo.Congestion.InFlight

/-!
# The modes of the BBR senders

A property that each operation of a version keeps is kept by the decisions after an
acknowledgement, in the order of the version, and so by every run (`Invariant`). Where the
operations measure only good round trip times, the rate can always be calculated, and a run is
defined if and only if it acknowledges only packets that were sent
(`TracedSender.run_isSome_iff`).

The modes go from `ST_START` by `ST_DRAIN` to the other two and never back, and the start ends
after three rounds without growth (`start_ends_once`).
-/

set_option autoImplicit false

namespace MpVideo.Congestion

/-! ## Invariants of the decisions -/

section Rules

variable {σ : Type}

/-- The round trip time that an event measures. -/
def TracedSender.measured (traced : TracedSender σ) : CongestionEvent → Option QuicTime
  | .onPacketSent _ _ _ => none
  | .onAck now n =>
      if n ≤ traced.sender.account.lastAckSeq then none
      else (traced.sender.account.sentPacketsMap.find? n).map fun packet => now - packet.sentTs

/-- Every round trip time that is measured along a run is a good one. -/
def TracedSender.Measures (version : Version) (control : Control σ) (good : QuicTime → Prop) :
    TracedSender σ → List CongestionEvent → Prop :=
  (machine version control).Along fun traced event => ∀ rtt ∈ traced.measured event, good rtt

instance TracedSender.decidableMeasures (version : Version) (control : Control σ)
    (good : QuicTime → Prop) [DecidablePred good] (traced : TracedSender σ)
    (events : List CongestionEvent) : Decidable (Measures version control good traced events) :=
  Machine.decidableAlong _ _ traced events

/-- A property of the members that every operation of a version keeps, as long as the round
trip times are good ones. -/
structure Control.Keeps (version : Version) (control : Control σ) (good : QuicTime → Prop)
    (inv : σ → Prop) : Prop where
  updateRtt : ∀ account now n packet s, good (now - packet.sentTs) → inv s →
    inv (control.updateRtt account now n packet s)
  decide : ∀ account ack s, inv s → inv (version.decide control account ack s)
  calculatePacingRate : ∀ account s next, inv s →
    control.calculatePacingRate account s = some next → inv next

/-- What `OnAck` of a number beyond `last_ack_seq_` does with the members: it measures the
round trip time, decides, unless the first round is not over, and calculates the rate. -/
theorem MyBbrSender.onAck_state {version : Version} {control : Control σ} {now : QuicTime}
    {n : UInt64} {sender next : MyBbrSender σ} {log : List Subtraction}
    (beyond : sender.account.lastAckSeq < n)
    (acked : sender.onAck version control now n = some (next, log)) :
    ∃ measured decided,
      measured = (sender.settle control now n).1.state ∧
      (measured = sender.state ∨ ∃ account packet,
        sender.account.sentPacketsMap.find? n = some packet ∧
        measured = control.updateRtt account now n packet sender.state) ∧
      ((sender.settle control now n).2.1.currentRound = 0 ∧ decided = measured ∨
        (sender.settle control now n).2.1.currentRound ≠ 0 ∧ decided =
          version.decide control next.account (sender.settle control now n).2.1 measured) ∧
      control.calculatePacingRate next.account decided = some next.state := by
  unfold onAck at acked
  rw [if_neg (not_le.mpr beyond)] at acked
  obtain ⟨state, calculated, result⟩ := Option.map_eq_some_iff.mp acked
  obtain ⟨rfl, -⟩ := Prod.mk.inj result
  refine ⟨(sender.settle control now n).1.state, _, rfl, ?_, ?_, calculated⟩
  · simp only [settle, updateRttAndInflight]
    split
    · rename_i packet found
      exact .inr ⟨_, packet, found, rfl⟩
    · exact .inl rfl
  · split_ifs with round
    · exact .inl ⟨round, rfl⟩
    · exact .inr ⟨round, rfl⟩

theorem TracedSender.state_step {version : Version} {control : Control σ}
    {good : QuicTime → Prop} {inv : σ → Prop} (keeps : control.Keeps version good inv)
    {traced next : TracedSender σ} {event : CongestionEvent} {out : List Subtraction}
    (holds : inv traced.sender.state) (measures : ∀ rtt ∈ traced.measured event, good rtt)
    (handled : (machine version control).step traced event = some (next, out)) :
    inv next.sender.state := by
  cases event with
  | onPacketSent now n bytes =>
      obtain ⟨rfl, -⟩ := Prod.mk.inj (Option.some.inj handled)
      exact holds
  | onAck now n =>
      change handle version control traced (.onAck now n) = _ at handled
      rw [handle] at handled
      split_ifs at handled with member
      obtain ⟨⟨sender, subtractions⟩, acked, result⟩ := Option.map_eq_some_iff.mp handled
      obtain ⟨rfl, -⟩ := Prod.mk.inj result
      rcases MyBbrSender.onAck_cases control acked with ⟨-, rfl, -⟩ | ⟨beyond, -, -⟩
      · exact holds
      · obtain ⟨measured, decided, -, kept, decision, calculated⟩ :=
          MyBbrSender.onAck_state beyond acked
        have first : inv measured := by
          rcases kept with rfl | ⟨account, packet, found, rfl⟩
          · exact holds
          · refine keeps.updateRtt _ _ _ _ _ (measures _ ?_) holds
            rw [TracedSender.measured, if_neg (not_le.mpr beyond), found]
            rfl
        have second : inv decided := by
          rcases decision with ⟨-, rfl⟩ | ⟨-, rfl⟩
          · exact first
          · exact keeps.decide _ _ _ first
        exact keeps.calculatePacingRate _ _ _ second calculated

/-- A property that every operation keeps holds after every run whose round trip times are
good ones. -/
theorem TracedSender.state_invariant {version : Version} {control : Control σ}
    {good : QuicTime → Prop} {inv : σ → Prop} (keeps : control.Keeps version good inv)
    {traced last : TracedSender σ} {events : List CongestionEvent} {log : List Subtraction}
    (measures : Measures version control good traced events) (start : inv traced.sender.state)
    (ran : (machine version control).run traced events = some (last, log)) :
    inv last.sender.state :=
  Machine.run_along_invariant (fun traced => inv traced.sender.state)
    (fun _ _ _ _ holds measures handled => state_step keeps holds measures handled)
    measures start ran

/-- Only packets that were sent are acknowledged. -/
def AcknowledgesSent : List UInt64 → List CongestionEvent → Prop
  | _, [] => True
  | sent, .onPacketSent _ n _ :: rest => AcknowledgesSent (n :: sent) rest
  | sent, .onAck _ n :: rest => n ∈ sent ∧ AcknowledgesSent sent rest

/-- When the rate can be calculated, an acknowledgement is defined. -/
theorem MyBbrSender.onAck_defined {version : Version} {control : Control σ}
    {good : QuicTime → Prop} {inv : σ → Prop} (keeps : control.Keeps version good inv)
    (calculates : ∀ account s, inv s → (control.calculatePacingRate account s).isSome)
    {sender : MyBbrSender σ} {now : QuicTime} {n : UInt64} (holds : inv sender.state)
    (measures : sender.account.lastAckSeq < n → ∀ packet,
      sender.account.sentPacketsMap.find? n = some packet → good (now - packet.sentTs)) :
    (sender.onAck version control now n).isSome := by
  unfold onAck
  split_ifs with old
  · rfl
  have measured : inv (sender.settle control now n).1.state := by
    simp only [settle, updateRttAndInflight]
    split
    · rename_i packet found
      exact keeps.updateRtt _ _ _ _ _ (measures (not_le.mp old) packet found) holds
    · exact holds
  rw [Option.isSome_map]
  refine calculates _ _ ?_
  split_ifs
  · exact measured
  · exact keeps.decide _ _ _ measured

/-- **A run is defined if and only if it acknowledges only packets that were sent**, when the
rate can always be calculated. -/
theorem TracedSender.run_isSome_iff {version : Version} {control : Control σ}
    {good : QuicTime → Prop} {inv : σ → Prop} (keeps : control.Keeps version good inv)
    (calculates : ∀ account s, inv s → (control.calculatePacingRate account s).isSome)
    {traced : TracedSender σ} {events : List CongestionEvent}
    (measures : Measures version control good traced events) (holds : inv traced.sender.state) :
    ((machine version control).run traced events).isSome ↔
      AcknowledgesSent traced.sent events := by
  induction events generalizing traced with
  | nil => exact ⟨fun _ => trivial, fun _ => rfl⟩
  | cons event rest ih =>
      have next (middle : TracedSender σ) (out : List Subtraction)
          (stepped : (machine version control).step traced event = some (middle, out)) :
          ((machine version control).run traced (event :: rest)).isSome ↔
            AcknowledgesSent middle.sent rest := by
        rw [← ih (measures.2 middle out stepped)
          (state_step keeps holds measures.1 stepped), Machine.run, stepped]
        simp
      cases event with
      | onPacketSent now n bytes => exact next _ _ rfl
      | onAck now n =>
          have eq : (machine version control).step traced (.onAck now n) =
              if n ∈ traced.sent then
                (traced.sender.onAck version control now n).map fun result =>
                  ({ traced with sender := result.1 }, result.2)
              else none := rfl
          by_cases member : n ∈ traced.sent
          · have defined : (traced.sender.onAck version control now n).isSome := by
              refine MyBbrSender.onAck_defined keeps calculates holds ?_
              intro beyond packet found
              refine measures.1 _ ?_
              rw [measured, if_neg (not_le.mpr beyond), found]
              rfl
            obtain ⟨⟨sender, log⟩, acked⟩ := Option.isSome_iff_exists.mp defined
            rw [if_pos member, acked] at eq
            rw [next _ _ eq, AcknowledgesSent]
            exact (and_iff_right member).symm
          · rw [if_neg member] at eq
            rw [Machine.run, eq, AcknowledgesSent]
            simp [member]

end Rules

/-- How far a mode is from the start. -/
def Mode.stage : Mode → Nat
  | .start => 0
  | .drain => 1
  | .increase | .decrease => 2

namespace Decisions

variable {library : QuicLibrary} {version : Version} {s next : Decisions library}

/-! ## What an operation leaves alone -/

/-- Two states in the same mode, with the same gain, the same progress of the start and the
same random numbers to come. -/
structure SameCourse (s next : Decisions library) : Prop where
  mode : next.mode = s.mode
  full : next.isAtFullBandwidth = s.isAtFullBandwidth
  rounds : next.roundsWithoutBandwidthGain = s.roundsWithoutBandwidthGain
  gain : next.pacingGain = s.pacingGain
  offset : next.cycleCurrentOffset = s.cycleCurrentOffset
  cycle : next.lastCycleStart = s.lastCycleStart
  random : next.random = s.random

theorem SameCourse.refl (s : Decisions library) : SameCourse s s :=
  ⟨rfl, rfl, rfl, rfl, rfl, rfl, rfl⟩

theorem SameCourse.trans {last : Decisions library} (first : SameCourse s next)
    (second : SameCourse next last) : SameCourse s last :=
  ⟨second.mode.trans first.mode, second.full.trans first.full, second.rounds.trans first.rounds,
    second.gain.trans first.gain, second.offset.trans first.offset,
    second.cycle.trans first.cycle, second.random.trans first.random⟩

theorem sameCourse_updateMinRtt (now rtt : QuicTime) (s : Decisions library) :
    SameCourse s (s.updateMinRtt now rtt) := by
  simp only [updateMinRtt]
  split_ifs <;> exact ⟨rfl, rfl, rfl, rfl, rfl, rfl, rfl⟩

theorem sameCourse_updateMinRttInDecrease (now rtt : QuicTime) (s : Decisions library) :
    SameCourse s (s.updateMinRttInDecrease now rtt) := by
  simp only [updateMinRttInDecrease]
  split_ifs <;> exact ⟨rfl, rfl, rfl, rfl, rfl, rfl, rfl⟩

theorem sameCourse_updateBaseLine (n : UInt64) (rtt : QuicTime) (s : Decisions library) :
    SameCourse s (s.updateBaseLine n rtt) := by
  simp only [updateBaseLine]
  split_ifs <;> exact ⟨rfl, rfl, rfl, rfl, rfl, rfl, rfl⟩

theorem sameCourse_updateRtt (now : QuicTime) (n : UInt64) (packet : PerPacket)
    (s : Decisions library) (version : Version) :
    SameCourse s (s.updateRtt now n packet version) := by
  have current : SameCourse s { s with curRtt := now - packet.sentTs } :=
    ⟨rfl, rfl, rfl, rfl, rfl, rfl, rfl⟩
  have minima (s : Decisions library) (rtt : QuicTime) :
      SameCourse s ((s.updateMinRtt now rtt).updateMinRttInDecrease now rtt) :=
    (sameCourse_updateMinRtt now rtt s).trans (sameCourse_updateMinRttInDecrease now rtt _)
  cases version with
  | v2 => exact minima s _
  | v3 => exact current.trans (minima _ _)
  | v4 => exact current.trans (minima _ _)
  | v5 => exact (minima s _).trans (sameCourse_updateBaseLine n _ _)

theorem sameCourse_updateCongestionSignal (n : UInt64) (s : Decisions library) :
    SameCourse s (s.updateCongestionSignal n) := by
  simp only [updateCongestionSignal]
  split_ifs <;> exact ⟨rfl, rfl, rfl, rfl, rfl, rfl, rfl⟩

theorem sameCourse_checkIfCongestion (account : Account) (n : UInt64) (bw : Option Sample)
    (round : Int64) (s : Decisions library) (version : Version) :
    SameCourse s (s.checkIfCongestion account n bw round version).1 := by
  cases version with
  | v2 =>
      simp only [checkIfCongestion, checkIfCongestionV2]
      split_ifs <;> exact ⟨rfl, rfl, rfl, rfl, rfl, rfl, rfl⟩
  | v3 => exact .refl s
  | v4 => exact .refl s
  | v5 =>
      simp only [checkIfCongestion, checkIfCongestionV5]
      split_ifs <;> exact ⟨rfl, rfl, rfl, rfl, rfl, rfl, rfl⟩

theorem sameCourse_recordBandwidth (version : Version) (ack : Ack) (s : Decisions library) :
    SameCourse s ((control version).recordBandwidth ack s) := by
  simp only [Control.recordBandwidth]
  split_ifs <;> exact ⟨rfl, rfl, rfl, rfl, rfl, rfl, rfl⟩

theorem sameCourse_calculatePacingRate (calculated : s.calculatePacingRate version = some next) :
    SameCourse s next := by
  cases version with
  | v2 =>
      simp only [calculatePacingRate] at calculated
      split_ifs at calculated <;> obtain rfl := Option.some.inj calculated <;>
        exact ⟨rfl, rfl, rfl, rfl, rfl, rfl, rfl⟩
  | v3 =>
      simp only [calculatePacingRate] at calculated
      split_ifs at calculated
      · obtain ⟨gain, -, rfl⟩ := Option.map_eq_some_iff.mp calculated
        exact ⟨rfl, rfl, rfl, rfl, rfl, rfl, rfl⟩
      · obtain rfl := Option.some.inj calculated
        exact ⟨rfl, rfl, rfl, rfl, rfl, rfl, rfl⟩
  | v4 =>
      simp only [calculatePacingRate] at calculated
      split_ifs at calculated <;> obtain rfl := Option.some.inj calculated <;>
        exact ⟨rfl, rfl, rfl, rfl, rfl, rfl, rfl⟩
  | v5 =>
      simp only [calculatePacingRate] at calculated
      split_ifs at calculated <;> obtain rfl := Option.some.inj calculated <;>
        exact ⟨rfl, rfl, rfl, rfl, rfl, rfl, rfl⟩

/-! ## What an operation can do to the mode -/

/-- An operation that does not touch the progress of the start. -/
structure SameStart (s next : Decisions library) : Prop where
  full : next.isAtFullBandwidth = s.isAtFullBandwidth
  rounds : next.roundsWithoutBandwidthGain = s.roundsWithoutBandwidthGain

theorem SameStart.trans {last : Decisions library} (first : SameStart s next)
    (second : SameStart next last) : SameStart s last :=
  ⟨second.full.trans first.full, second.rounds.trans first.rounds⟩

/-- An operation that does not draw a random number either. -/
structure SameDraw (s next : Decisions library) : Prop extends SameStart s next where
  random : next.random = s.random

theorem SameDraw.trans {last : Decisions library} (first : SameDraw s next)
    (second : SameDraw next last) : SameDraw s last :=
  ⟨first.toSameStart.trans second.toSameStart, second.random.trans first.random⟩

theorem SameCourse.sameDraw (course : SameCourse s next) : SameDraw s next :=
  ⟨⟨course.full, course.rounds⟩, course.random⟩

theorem sameStart_enterIncreaseMode (now : QuicTime) (s : Decisions library) (version : Version) :
    SameStart s (s.enterIncreaseMode now version) := by
  cases version <;> exact ⟨rfl, rfl⟩

theorem mode_enterIncreaseMode (now : QuicTime) (s : Decisions library) (version : Version) :
    (s.enterIncreaseMode now version).mode = .increase := by
  cases version <;> rfl

theorem sameDraw_enter (account : Account) (expired congested : Bool) (round : Int64)
    (s : Decisions library) (version : Version) :
    SameDraw s (s.enter account expired congested round version) := by
  cases version <;> cases congested <;> exact ⟨⟨rfl, rfl⟩, rfl⟩

theorem mode_enter (account : Account) (expired congested : Bool) (round : Int64)
    (s : Decisions library) (version : Version) :
    (s.enter account expired congested round version).mode = .decrease := by
  cases version <;> cases congested <;> rfl

theorem sameCourse_probe (account : Account) (now : QuicTime) (s : Decisions library)
    (version : Version) : SameCourse s (s.probe account now version) := by
  simp only [probe]
  split_ifs <;> exact ⟨rfl, rfl, rfl, rfl, rfl, rfl, rfl⟩

theorem sameCourse_restore (now : QuicTime) (s : Decisions library) (version : Version) :
    SameCourse s (s.restore now version) := by
  cases version with
  | v2 => exact ⟨rfl, rfl, rfl, rfl, rfl, rfl, rfl⟩
  | v3 => exact ⟨rfl, rfl, rfl, rfl, rfl, rfl, rfl⟩
  | v4 => exact ⟨rfl, rfl, rfl, rfl, rfl, rfl, rfl⟩
  | v5 =>
      simp only [restore]
      split_ifs <;> exact ⟨rfl, rfl, rfl, rfl, rfl, rfl, rfl⟩

/-- In the mode `ST_DECREASE` the sender stays there with its gain, or goes on to the mode
`ST_INCREASE`. -/
theorem exit_cases (account : Account) (now : QuicTime) (s : Decisions library)
    (version : Version) :
    SameCourse s (s.exit account now version) ∨
      ∃ drained, SameDraw s drained ∧
        s.exit account now version = drained.enterIncreaseMode now version := by
  have probed := sameCourse_probe account now s version
  simp only [exit]
  split_ifs
  · have restored := probed.trans (sameCourse_restore now _ version)
    exact .inr ⟨_, restored.sameDraw, rfl⟩
  · exact .inl probed

/-- The sender leaves the modes `ST_START` and `ST_DRAIN` for the next one, or stays, and it
does not stay in `ST_START` at full bandwidth. -/
theorem maybeExitStartupOrDrain_cases (account : Account) (now : QuicTime)
    (s : Decisions library) (version : Version) :
    (s.maybeExitStartupOrDrain version account now = s ∧
        ¬ (s.mode = .start ∧ s.isAtFullBandwidth = true)) ∨
      (s.mode = .start ∧ s.isAtFullBandwidth = true ∧
        s.maybeExitStartupOrDrain version account now =
          { s with mode := .drain, pacingGain := 1 / kDefaultHighGain }) ∨
      ((s.mode = .start ∧ s.isAtFullBandwidth = true ∨ s.mode = .drain) ∧
        ∃ drained, SameDraw s drained ∧
          s.maybeExitStartupOrDrain version account now =
            drained.enterIncreaseMode now version) := by
  simp only [maybeExitStartupOrDrain]
  by_cases full : s.mode = .start ∧ s.isAtFullBandwidth = true
  · rw [if_pos full]
    split_ifs
    · exact .inr (.inr ⟨.inl full, _, ⟨⟨rfl, rfl⟩, rfl⟩, rfl⟩)
    · exact .inr (.inl ⟨full.1, full.2, rfl⟩)
  · rw [if_neg full]
    split_ifs with drained
    · exact .inr (.inr ⟨.inr drained.1, _, ⟨⟨rfl, rfl⟩, rfl⟩, rfl⟩)
    · exact .inl ⟨rfl, full⟩

/-- The gain of the mode `ST_DECREASE`. -/
def DecreaseGain (gain : ℚ) : Version → Prop
  | .v2 => 0.75 ≤ gain
  | .v3 => gain = 0.9
  | .v4 | .v5 => gain = 0.75

theorem decreaseGain_enter (account : Account) (expired congested : Bool) (round : Int64)
    (s : Decisions library) (version : Version) :
    DecreaseGain (s.enter account expired congested round version).pacingGain version := by
  cases version with
  | v2 => exact le_max_left _ _
  | v3 => cases congested <;> rfl
  | v4 => cases congested <;> rfl
  | v5 => rfl

/-- `MaybeEnterOrExitDecrease` does nothing outside `ST_DECREASE`, or keeps or takes the sender
there, or takes it to the mode `ST_INCREASE`. -/
theorem maybeEnterOrExitDecrease_cases (account : Account) (now : QuicTime)
    (expired congested : Bool) (round : Int64) (s : Decisions library) (version : Version) :
    (s.mode ≠ .decrease ∧
        s.maybeEnterOrExitDecrease version account now expired congested round = s) ∨
      (SameDraw s (s.maybeEnterOrExitDecrease version account now expired congested round) ∧
        (s.maybeEnterOrExitDecrease version account now expired congested round).mode = .decrease ∧
        ((s.mode = .decrease ∧
            (s.maybeEnterOrExitDecrease version account now expired congested round).pacingGain =
              s.pacingGain) ∨
          DecreaseGain
            (s.maybeEnterOrExitDecrease version account now expired congested round).pacingGain
            version)) ∨
      ∃ drained, SameDraw s drained ∧
        s.maybeEnterOrExitDecrease version account now expired congested round =
          drained.enterIncreaseMode now version := by
  simp only [maybeEnterOrExitDecrease]
  by_cases entry : s.mode ≠ .decrease ∧ (expired = true ∨ congested = true)
  · rw [if_pos entry, if_pos (mode_enter account expired congested round s version)]
    have same := sameDraw_enter account expired congested round s version
    rcases exit_cases account now (s.enter account expired congested round version) version with
      course | ⟨drained, start, exited⟩
    · refine .inr (.inl ⟨same.trans course.sameDraw, course.mode.trans (mode_enter ..), .inr ?_⟩)
      rw [course.gain]
      exact decreaseGain_enter account expired congested round s version
    · exact .inr (.inr ⟨drained, same.trans start, exited⟩)
  · rw [if_neg entry]
    by_cases decrease : s.mode = .decrease
    · rw [if_pos decrease]
      rcases exit_cases account now s version with course | ⟨drained, start, exited⟩
      · exact .inr (.inl ⟨course.sameDraw, course.mode.trans decrease,
          .inl ⟨decrease, course.gain⟩⟩)
      · exact .inr (.inr ⟨drained, start, exited⟩)
    · exact .inl ⟨decrease, if_neg decrease⟩

theorem updateCycle_start (now : QuicTime) (s : Decisions library) (version : Version) :
    SameStart s (s.updateCycle now version) ∧ (s.updateCycle now version).mode = s.mode := by
  cases version with
  | v2 => exact ⟨⟨rfl, rfl⟩, rfl⟩
  | v3 => simp only [updateCycle]; split_ifs <;> exact ⟨⟨rfl, rfl⟩, rfl⟩
  | v4 => simp only [updateCycle]; split_ifs <;> exact ⟨⟨rfl, rfl⟩, rfl⟩
  | v5 => simp only [updateCycle]; split_ifs <;> exact ⟨⟨rfl, rfl⟩, rfl⟩

/-! ## Invariants of the mode -/

/-- A property that the operations of a version keep before the gain cycle. Between the check
of the bandwidth and the exit from the start only the weaker property `pending` has to hold. -/
structure Steps (version : Version) (now : QuicTime) (inv pending : Decisions library → Prop) :
    Prop where
  course : ∀ s next, SameCourse s next → inv s → inv next
  decrease : ∀ account expired congested round s, inv s →
    inv (s.maybeEnterOrExitDecrease version account now expired congested round)
  check : ∀ s, inv s → s.isAtFullBandwidth = false → pending s.checkIfFullBandwidthReached
  skip : ∀ s, inv s → pending s
  exit : ∀ account s, pending s → inv (s.maybeExitStartupOrDrain version account now)

/-- A property that all operations of a version keep. -/
structure Invariant (version : Version) (inv pending : Decisions library → Prop) : Prop where
  steps : ∀ now, Steps version now inv pending
  cycle : ∀ now s, inv s → s.mode = .increase → inv (s.updateCycle now version)

variable {inv pending : Decisions library → Prop}

/-- The check for congestion comes before the decrease, and changes nothing of the course. -/
theorem decrease_eq (version : Version) (account : Account) (ack : Ack) (check : Bool)
    (s : Decisions library) :
    ∃ checked congested, SameCourse s checked ∧
      (control version).decrease account ack check s =
        checked.maybeEnterOrExitDecrease version account ack.eventTime
          ((control version).minRttExpired ack.eventTime s) congested ack.currentRound := by
  simp only [Control.decrease]
  split_ifs
  · exact ⟨_, _, sameCourse_checkIfCongestion account ack.packetNumber ack.bw ack.currentRound s
      version, rfl⟩
  · exact ⟨s, false, .refl s, rfl⟩

/-- The decrease keeps the property. -/
theorem Steps.decrease_keeps {ack : Ack} (steps : Steps version ack.eventTime inv pending)
    (account : Account) (check : Bool) (holds : inv s) :
    inv ((control version).decrease account ack check s) := by
  obtain ⟨checked, congested, same, eq⟩ := decrease_eq version account ack check s
  rw [eq]
  exact steps.decrease _ _ _ _ _ (steps.course _ _ same holds)

/-- The record of the bandwidth, its check and the exit from the start keep the property. -/
theorem Steps.leave_keeps {ack : Ack} (steps : Steps version ack.eventTime inv pending)
    (account : Account) (holds : inv s) :
    inv ((control version).maybeExitStartupOrDrain account ack.eventTime
      ((control version).checkFullBandwidth ack ((control version).recordBandwidth ack s))) := by
  have recorded := steps.course _ _ (sameCourse_recordBandwidth version ack s) holds
  refine steps.exit _ _ ?_
  unfold Control.checkFullBandwidth
  split_ifs with checks
  · refine steps.check _ recorded ?_
    exact (Bool.not_eq_true' _).mp (Bool.and_eq_true_iff.mp checks).2
  · exact steps.skip _ recorded

/-- In the versions with a gain cycle, the cycle comes last. -/
theorem Steps.before_cycle {ack : Ack} (steps : Steps version ack.eventTime inv pending)
    (cycles : version ≠ .v2) (account : Account) (holds : inv s) :
    ∃ uncycled, inv uncycled ∧ version.decide (control version) account ack s =
      (control version).cycle ack uncycled := by
  have signal (s : Decisions library) (holds : inv s) :
      inv ((control version).updateCongestionSignal ack.packetNumber s) :=
    steps.course _ _ (sameCourse_updateCongestionSignal _ s) holds
  cases version with
  | v2 => exact absurd rfl cycles
  | v3 =>
      exact ⟨_, steps.leave_keeps account (signal _ (steps.decrease_keeps account _ holds)), rfl⟩
  | v4 =>
      exact ⟨_, steps.leave_keeps account (signal _ (steps.decrease_keeps account _ holds)), rfl⟩
  | v5 => exact ⟨_, steps.leave_keeps account (steps.decrease_keeps account _ holds), rfl⟩

theorem Invariant.decide (invariant : Invariant version inv pending) (account : Account)
    (ack : Ack) (holds : inv s) : inv (version.decide (control version) account ack s) := by
  have steps := invariant.steps ack.eventTime
  by_cases cycles : version = .v2
  · subst cycles
    exact steps.decrease_keeps account _ (steps.leave_keeps account holds)
  · obtain ⟨uncycled, before, eq⟩ := steps.before_cycle cycles account holds
    rw [eq, Control.cycle]
    split_ifs with increase
    · exact invariant.cycle _ _ before increase
    · exact before

theorem Invariant.keeps (invariant : Invariant version inv pending) :
    (control version).Keeps version (fun _ => True) inv where
  updateRtt _ now n packet s _ holds :=
    (invariant.steps 0).course _ _ (sameCourse_updateRtt now n packet s version) holds
  decide account ack _ holds := invariant.decide account ack holds
  calculatePacingRate _ _ _ holds calculated :=
    (invariant.steps 0).course _ _ (sameCourse_calculatePacingRate calculated) holds

/-! ## The start -/

/-- The progress of the start: three rounds without growth make the full bandwidth, and the
sender drains only then. -/
structure Progress (s : Decisions library) : Prop where
  drain : s.mode = .drain → s.isAtFullBandwidth = true
  below : s.isAtFullBandwidth = false → s.roundsWithoutBandwidthGain < 3
  full : s.isAtFullBandwidth = true → s.roundsWithoutBandwidthGain = 3

/-- Between two acknowledgements a sender at full bandwidth is past the mode `ST_START`. -/
structure Started (s : Decisions library) : Prop extends Progress s where
  start : s.mode = .start → s.isAtFullBandwidth = false

theorem Progress.of_same (progress : Progress s) (same : SameStart s next)
    (drain : next.mode = .drain → s.mode = .drain) : Progress next where
  drain mode := same.full.trans (progress.drain (drain mode))
  below open_ := by
    rw [same.rounds]
    exact progress.below (same.full ▸ open_)
  full reached := by
    rw [same.rounds]
    exact progress.full (same.full ▸ reached)

theorem Progress.check (progress : Progress s) (open_ : s.isAtFullBandwidth = false) :
    Progress s.checkIfFullBandwidthReached := by
  have below := progress.below open_
  have drain : s.mode ≠ .drain := fun mode => nomatch (progress.drain mode).symm.trans open_
  unfold checkIfFullBandwidthReached
  dsimp only
  split_ifs
  · refine ⟨fun mode => absurd mode drain, ?_, fun reached => nomatch open_.symm.trans reached⟩
    intro _
    show (0 : UInt64) < 3
    decide
  · simp only [open_, Bool.false_or, kRoundTripsWithoutGrowthBeforeExitingStartup]
    refine ⟨fun mode => absurd mode drain, ?_, ?_⟩
    · intro few
      exact not_le.mp (of_decide_eq_false few)
    · intro many
      have many := of_decide_eq_true many
      change s.roundsWithoutBandwidthGain + 1 = 3
      rw [UInt64.lt_iff_toNat_lt] at below
      rw [UInt64.le_iff_toNat_le] at many
      apply UInt64.toNat_inj.mp
      rw [UInt64.toNat_add] at many ⊢
      simp at below many ⊢
      omega

theorem started_fresh (minBw : ℤ) (random : library.Random) :
    Started { minBw := minBw, random := random } where
  drain drain := by cases drain
  below _ := by
    show (0 : UInt64) < 3
    decide
  full full := by cases full
  start _ := rfl

theorem started_invariant (version : Version) :
    Invariant version (Started : Decisions library → Prop) Progress where
  steps now := {
    course s next same started :=
      { started.of_same ⟨same.full, same.rounds⟩ (fun mode => same.mode ▸ mode) with
        start := fun mode => same.full.trans (started.start (same.mode ▸ mode)) }
    decrease account expired congested round s started := by
      rcases maybeEnterOrExitDecrease_cases account now expired congested round s version with
        ⟨-, eq⟩ | ⟨same, mode, -⟩ | ⟨drained, same, eq⟩
      · rw [eq]
        exact started
      · exact { started.of_same same.toSameStart (fun drain => nomatch mode.symm.trans drain) with
          start := fun start => nomatch mode.symm.trans start }
      · have mode := mode_enterIncreaseMode now drained version
        rw [eq]
        exact { started.of_same (same.toSameStart.trans (sameStart_enterIncreaseMode ..))
            (fun drain => nomatch mode.symm.trans drain) with
          start := fun start => nomatch mode.symm.trans start }
    check s started open_ := started.toProgress.check open_
    skip s started := started.toProgress
    exit account s progress := by
      rcases maybeExitStartupOrDrain_cases account now s version with
        ⟨eq, stays⟩ | ⟨-, full, eq⟩ | ⟨-, drained, same, eq⟩
      · rw [eq]
        exact { progress with
          start := fun mode => Bool.eq_false_iff.mpr fun full => stays ⟨mode, full⟩ }
      · rw [eq]
        exact ⟨⟨fun _ => full, progress.below, progress.full⟩, fun start => nomatch start⟩
      · have mode := mode_enterIncreaseMode now drained version
        rw [eq]
        exact { progress.of_same (same.toSameStart.trans (sameStart_enterIncreaseMode ..))
            (fun drain => nomatch mode.symm.trans drain) with
          start := fun start => nomatch mode.symm.trans start } }
  cycle now s started increase := by
    obtain ⟨same, mode⟩ := updateCycle_start now s version
    exact { started.of_same same (fun drain => mode ▸ drain) with
      start := fun start => nomatch increase.symm.trans (mode.symm.trans start) }

/-- The sender does not go back to an earlier stage. -/
theorem stage_invariant (version : Version) (stage : Nat) :
    Invariant version (fun s : Decisions library => stage ≤ s.mode.stage)
      (fun s => stage ≤ s.mode.stage) where
  steps now := {
    course s next same reached := by rwa [same.mode]
    decrease account expired congested round s reached := by
      have bounded : stage ≤ 2 := by
        cases mode : s.mode <;> rw [mode] at reached <;> simp only [Mode.stage] at reached <;> omega
      rcases maybeEnterOrExitDecrease_cases account now expired congested round s version with
        ⟨-, eq⟩ | ⟨-, mode, -⟩ | ⟨drained, -, eq⟩
      · rwa [eq]
      · rwa [mode]
      · rwa [eq, mode_enterIncreaseMode]
    check s reached _ := by
      unfold checkIfFullBandwidthReached
      dsimp only
      split_ifs <;> exact reached
    skip s reached := reached
    exit account s reached := by
      rcases maybeExitStartupOrDrain_cases account now s version with
        ⟨eq, -⟩ | ⟨start, -, eq⟩ | ⟨before, drained, -, eq⟩
      · rwa [eq]
      · rw [start] at reached
        rw [eq]
        exact Nat.le_succ_of_le reached
      · rw [eq, mode_enterIncreaseMode]
        rcases before with ⟨start, -⟩ | drain
        · rw [start] at reached
          exact Nat.le_trans reached (by decide)
        · rw [drain] at reached
          exact Nat.le_trans reached (by decide) }
  cycle now s reached _ := by rwa [(updateCycle_start now s version).2]

/-- The full bandwidth is not lost. -/
theorem full_invariant (version : Version) :
    Invariant version (fun s : Decisions library => s.isAtFullBandwidth = true)
      (fun s => s.isAtFullBandwidth = true) where
  steps now := {
    course s next same full := by rwa [same.full]
    decrease account expired congested round s full := by
      rcases maybeEnterOrExitDecrease_cases account now expired congested round s version with
        ⟨-, eq⟩ | ⟨same, -⟩ | ⟨drained, same, eq⟩
      · rwa [eq]
      · rwa [same.full]
      · rwa [eq, (sameStart_enterIncreaseMode ..).full, same.full]
    check s full open_ := nomatch full.symm.trans open_
    skip s full := full
    exit account s full := by
      rcases maybeExitStartupOrDrain_cases account now s version with
        ⟨eq, -⟩ | ⟨-, -, eq⟩ | ⟨-, drained, same, eq⟩
      · rwa [eq]
      · rwa [eq]
      · rwa [eq, (sameStart_enterIncreaseMode ..).full, same.full] }
  cycle now s full _ := by rwa [(updateCycle_start now s version).1.full]

/-- An invariant holds after every run. -/
theorem Invariant.run (invariant : Invariant version inv pending)
    {traced last : TracedSender (Decisions library)} {events : List CongestionEvent}
    {log : List Subtraction} (start : inv traced.sender.state)
    (ran : (TracedSender.machine version (control version)).run traced events = some (last, log)) :
    inv last.sender.state :=
  TracedSender.state_invariant invariant.keeps
    (Machine.along_of_forall (fun _ _ _ _ => trivial) _ _) start ran

/-- **The start of a sender ends once.** After every run of each of the four versions, a
sender in the mode `ST_START` is not at full bandwidth, and one in `ST_DRAIN` is; it is at
full bandwidth if and only if three rounds without growth were counted, and more are never
counted. However the run goes on, the sender never goes back from `ST_DRAIN` to `ST_START`, or
from the other two modes to one of these, and it stays at full bandwidth. -/
theorem start_ends_once (version : Version) (minBw : ℤ) (random : library.Random)
    (events : List CongestionEvent) (traced : TracedSender (Decisions library))
    (log : List Subtraction)
    (ran : (TracedSender.machine version (control version)).run
      (TracedSender.fresh { minBw := minBw, random := random }) events = some (traced, log)) :
    (traced.sender.state.mode = .start → traced.sender.state.isAtFullBandwidth = false) ∧
      (traced.sender.state.mode = .drain → traced.sender.state.isAtFullBandwidth = true) ∧
      (traced.sender.state.isAtFullBandwidth = true ↔
        traced.sender.state.roundsWithoutBandwidthGain = 3) ∧
      traced.sender.state.roundsWithoutBandwidthGain ≤ 3 ∧
      ∀ more last added,
        (TracedSender.machine version (control version)).run traced more = some (last, added) →
          traced.sender.state.mode.stage ≤ last.sender.state.mode.stage ∧
          (traced.sender.state.isAtFullBandwidth = true →
            last.sender.state.isAtFullBandwidth = true) := by
  have started : traced.sender.state.Started := (started_invariant version).run
    (started_fresh minBw random) ran
  refine ⟨started.start, started.drain, ⟨started.full, ?_⟩, ?_, ?_⟩
  · intro three
    by_contra open_
    have below := started.below (Bool.eq_false_iff.mpr open_)
    rw [three] at below
    exact absurd below (by decide)
  · cases full : traced.sender.state.isAtFullBandwidth with
    | true => exact le_of_eq (started.full full)
    | false => exact le_of_lt (started.below full)
  · intro more last added onwards
    exact ⟨(stage_invariant version _).run le_rfl onwards,
      fun full => (full_invariant version).run full onwards⟩

/-! ## A run -/

/-- Packets that are sent and acknowledged one after the other, each with its time of leaving
and its round trip time. -/
def oneByOne : UInt64 → List (QuicTime × QuicTime) → List CongestionEvent
  | _, [] => []
  | n, (time, rtt) :: rest =>
      .onPacketSent time n 1000 :: .onAck (time + rtt) n :: oneByOne (n + 1) rest

/-- The random number of the plain library. -/
def plainRandom : QuicLibrary.plain.Random := (3 : UInt64)

/-- A new sender with the plain library. -/
abbrev plainSender : TracedSender (Decisions .plain) :=
  TracedSender.fresh { minBw := 0, random := plainRandom }

/-- Seven packets with a round trip time of 100 ms. -/
def steady : List CongestionEvent :=
  oneByOne 1 [(1000, 100000), (200000, 100000), (400000, 100000), (600000, 100000),
    (800000, 100000), (1000000, 100000), (1200000, 100000)]

theorem acknowledgesSent_steady : AcknowledgesSent [] steady := by
  simp [steady, oneByOne, AcknowledgesSent]

/-- The sender after a run, if that is defined. -/
def after (version : Version) (events : List CongestionEvent) : TracedSender (Decisions .plain) :=
  match (TracedSender.machine version (control version)).run plainSender events with
  | some (last, _) => last
  | none => plainSender

theorem after_eq {events : List CongestionEvent} {last : TracedSender (Decisions .plain)}
    {log : List Subtraction}
    (ran : (TracedSender.machine version (control version)).run plainSender events =
      some (last, log)) :
    last = after version events := by
  rw [after, ran]

theorem steady_defined :
    ((TracedSender.machine .v5 (control .v5)).run plainSender steady).isSome := by
  decide +kernel

theorem start_ends_once_steady :
    ∃ traced log,
      (TracedSender.machine .v5 (control .v5)).run plainSender steady = some (traced, log) ∧
      traced.sender.state.mode = .increase ∧
      (traced.sender.state.isAtFullBandwidth = true ↔
        traced.sender.state.roundsWithoutBandwidthGain = 3) := by
  obtain ⟨⟨traced, log⟩, ran⟩ := Option.isSome_iff_exists.mp steady_defined
  refine ⟨traced, log, ran, ?_, (start_ends_once .v5 0 _ steady traced log ran).2.2.1⟩
  rw [after_eq ran]
  decide +kernel

end Decisions

end MpVideo.Congestion
