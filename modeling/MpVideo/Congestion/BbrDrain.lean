import MpVideo.Congestion.BbrGains

/-!
# The end of the decrease

In the version 5, the mode `ST_DECREASE` ends when the bytes in flight are down to the
bandwidth-delay product of its beginning, and when the minimum round trip time had expired
also after four times the minimum of its beginning (`decrease_ends_iff`).
-/

set_option autoImplicit false

namespace MpVideo.Congestion.Decisions

variable {library : QuicLibrary} {version : Version} {s next : Decisions library}

/-- Two states with the same record of the beginning of the decrease. -/
structure SameTarget (s next : Decisions library) : Prop where
  bdp : next.bdp = s.bdp
  record : next.minRttRecord = s.minRttRecord
  began : next.exitProbeRttAt = s.exitProbeRttAt
  expired : next.minRttExpired = s.minRttExpired

theorem SameTarget.refl (s : Decisions library) : SameTarget s s := ⟨rfl, rfl, rfl, rfl⟩

theorem SameTarget.trans {last : Decisions library} (first : SameTarget s next)
    (second : SameTarget next last) : SameTarget s last :=
  ⟨second.bdp.trans first.bdp, second.record.trans first.record,
    second.began.trans first.began, second.expired.trans first.expired⟩

theorem sameTarget_updateRtt (now : QuicTime) (n : UInt64) (packet : PerPacket)
    (s : Decisions library) : SameTarget s (s.updateRtt now n packet .v5) := by
  have minimum (rtt : QuicTime) : SameTarget s (s.updateMinRtt now rtt) := by
    simp only [updateMinRtt]
    split_ifs <;> exact ⟨rfl, rfl, rfl, rfl⟩
  have inDecrease (s : Decisions library) (rtt : QuicTime) :
      SameTarget s (s.updateMinRttInDecrease now rtt) := by
    simp only [updateMinRttInDecrease]
    split_ifs <;> exact ⟨rfl, rfl, rfl, rfl⟩
  have baseLine (s : Decisions library) (rtt : QuicTime) :
      SameTarget s (s.updateBaseLine n rtt) := by
    simp only [updateBaseLine]
    split_ifs <;> exact ⟨rfl, rfl, rfl, rfl⟩
  exact ((minimum _).trans (inDecrease _ _)).trans (baseLine _ _)

theorem sameTarget_recordBandwidth (ack : Ack) (s : Decisions library) :
    SameTarget s ((control .v5).recordBandwidth ack s) := by
  simp only [Control.recordBandwidth]
  split_ifs <;> exact ⟨rfl, rfl, rfl, rfl⟩

theorem sameTarget_checkFullBandwidth (ack : Ack) (s : Decisions library) :
    SameTarget s ((control .v5).checkFullBandwidth ack s) := by
  have checked : SameTarget s s.checkIfFullBandwidthReached := by
    simp only [checkIfFullBandwidthReached]
    split_ifs <;> exact ⟨rfl, rfl, rfl, rfl⟩
  simp only [Control.checkFullBandwidth]
  split_ifs
  · exact checked
  · exact .refl s

theorem sameTarget_calculatePacingRate (calculated : s.calculatePacingRate .v5 = some next) :
    SameTarget s next := by
  simp only [calculatePacingRate] at calculated
  split_ifs at calculated <;> obtain rfl := Option.some.inj calculated <;>
    exact ⟨rfl, rfl, rfl, rfl⟩

theorem mode_checkFullBandwidth (ack : Ack) (s : Decisions library) :
    ((control version).checkFullBandwidth ack s).mode = s.mode := by
  have checked : s.checkIfFullBandwidthReached.mode = s.mode := by
    simp only [checkIfFullBandwidthReached]
    split_ifs <;> rfl
  simp only [Control.checkFullBandwidth]
  split_ifs
  · exact checked
  · rfl

/-- Past the start, the exit from the start does nothing. -/
theorem maybeExitStartupOrDrain_eq (account : Account) (now : QuicTime)
    (past : s.mode.stage = 2) : s.maybeExitStartupOrDrain version account now = s := by
  rcases maybeExitStartupOrDrain_cases account now s version with
    ⟨eq, -⟩ | ⟨start, -, -⟩ | ⟨⟨start, -⟩ | drain, -⟩
  · exact eq
  · rw [start] at past
    exact absurd past (by decide)
  · rw [start] at past
    exact absurd past (by decide)
  · rw [drain] at past
    exact absurd past (by decide)

/-- In the mode `ST_DECREASE` nothing is entered. -/
theorem maybeEnterOrExitDecrease_eq (account : Account) (now : QuicTime)
    {expired congested : Bool} {round : Int64} (mode : s.mode = .decrease) :
    s.maybeEnterOrExitDecrease version account now expired congested round =
      s.exit account now version := by
  have stays : ¬ (s.mode ≠ .decrease ∧ (expired = true ∨ congested = true)) :=
    fun entry => entry.1 mode
  rw [maybeEnterOrExitDecrease, if_neg stays, if_pos mode]

/-- What a decision in the mode `ST_DECREASE` comes to. -/
theorem decide_decrease (account : Account) (ack : Ack) (mode : s.mode = .decrease)
    (began : s.exitProbeRttAt ≠ 0) :
    if s.decreaseEnds account ack.eventTime .v5 then
      (Version.v5.decide (control .v5) account ack s).mode = .increase
    else
      (Version.v5.decide (control .v5) account ack s).mode = .decrease ∧
        SameTarget s (Version.v5.decide (control .v5) account ack s) := by
  have probed : s.probe account ack.eventTime .v5 = s := by
    simp only [probe]
    rw [if_neg began, if_neg (fun three => by cases three.1)]
  have unchecked (check : Bool) : ((control .v5).mode s = .increase && check) = false := by
    rw [Bool.and_eq_false_iff]
    exact .inl (decide_eq_false (fun increase => by cases mode.symm.trans increase))
  have decreased : (control .v5).decrease account ack true s =
      s.exit account ack.eventTime .v5 := by
    simp only [Control.decrease, unchecked, Bool.false_eq_true, if_false]
    exact maybeEnterOrExitDecrease_eq account ack.eventTime mode
  have leave (s : Decisions library) (past : s.mode.stage = 2) :
      ((control .v5).maybeExitStartupOrDrain account ack.eventTime
        ((control .v5).checkFullBandwidth ack ((control .v5).recordBandwidth ack s))) =
      (control .v5).checkFullBandwidth ack ((control .v5).recordBandwidth ack s) := by
    refine maybeExitStartupOrDrain_eq account ack.eventTime ?_
    rw [mode_checkFullBandwidth, (sameCourse_recordBandwidth _ ack s).mode]
    exact past
  have decision : Version.v5.decide (control .v5) account ack s =
      (control .v5).cycle ack ((control .v5).maybeExitStartupOrDrain account ack.eventTime
        ((control .v5).checkFullBandwidth ack ((control .v5).recordBandwidth ack
          (s.exit account ack.eventTime .v5)))) := by
    rw [← decreased]
    rfl
  rw [decision]
  simp only [exit, probed]
  split_ifs with ends
  · have increase := mode_enterIncreaseMode ack.eventTime (s.restore ack.eventTime .v5) .v5
    rw [leave _ (by rw [increase]; rfl)]
    generalize (s.restore ack.eventTime .v5).enterIncreaseMode ack.eventTime .v5 = left
      at increase ⊢
    have mode : ((control .v5).checkFullBandwidth ack
        ((control .v5).recordBandwidth ack left)).mode = .increase := by
      rw [mode_checkFullBandwidth, (sameCourse_recordBandwidth _ ack left).mode, increase]
    rw [Control.cycle]
    split_ifs
    · exact (updateCycle_start ack.eventTime _ .v5).2.trans mode
    · exact mode
  · rw [leave _ (by rw [mode]; rfl)]
    have stays : ((control .v5).checkFullBandwidth ack
        ((control .v5).recordBandwidth ack s)).mode = .decrease := by
      rw [mode_checkFullBandwidth, (sameCourse_recordBandwidth _ ack s).mode, mode]
    have other : (control .v5).mode ((control .v5).checkFullBandwidth ack
        ((control .v5).recordBandwidth ack s)) ≠ .increase := by
      intro increase
      cases stays.symm.trans increase
    rw [Control.cycle, if_neg other]
    exact ⟨stays, (sameTarget_recordBandwidth ack s).trans (sameTarget_checkFullBandwidth ack _)⟩

/-- The sender is still in the decrease that a state describes. -/
structure Decreasing (start : Decisions library) (traced : TracedSender (Decisions library)) :
    Prop where
  mode : traced.sender.state.mode = .decrease
  same : SameTarget start traced.sender.state

/-- Whether an acknowledgement ends the decrease that a state describes. -/
def Ends (start : Decisions library) (now : QuicTime) (bytesInFlight : UInt64) : Prop :=
  (start.minRttExpired = true ∧ 4 * start.minRttRecord < now - start.exitProbeRttAt) ∨
    bytesInFlight ≤ start.bdp

/-- An acknowledgement after the first round takes the sender out of the decrease if and only
if it ends it. -/
theorem Decreasing.onAck {start : Decisions library} {now : QuicTime} {n : UInt64}
    {traced next : TracedSender (Decisions library)} {log : List Subtraction}
    (decreasing : Decreasing start traced) (began : start.exitProbeRttAt ≠ 0)
    (beyond : traced.sender.account.lastAckSeq < n)
    (rounds : (traced.sender.settle (control .v5) now n).2.1.currentRound ≠ 0)
    (handled : (TracedSender.machine .v5 (control .v5)).step traced (.onAck now n) =
      some (next, log)) :
    (Ends start now next.sender.account.bytesInFlight ∧ next.sender.state.mode = .increase) ∨
      (¬ Ends start now next.sender.account.bytesInFlight ∧ Decreasing start next) := by
  change TracedSender.handle .v5 _ traced (.onAck now n) = _ at handled
  rw [TracedSender.handle] at handled
  split_ifs at handled with member
  obtain ⟨⟨sender, subtractions⟩, acked, result⟩ := Option.map_eq_some_iff.mp handled
  obtain ⟨rfl, -⟩ := Prod.mk.inj result
  obtain ⟨measured, decided, -, kept, decision, calculated⟩ := MyBbrSender.onAck_state beyond acked
  obtain ⟨-, decision⟩ := decision.resolve_left fun round => rounds round.1
  have time : (traced.sender.settle (control .v5) now n).2.1.eventTime = now := rfl
  generalize (traced.sender.settle (control .v5) now n).2.1 = ack at decision time rounds
  have mode : measured.mode = .decrease ∧ SameTarget start measured := by
    rcases kept with rfl | ⟨account, packet, -, rfl⟩
    · exact ⟨decreasing.mode, decreasing.same⟩
    · exact ⟨(sameCourse_updateRtt now n packet _ .v5).mode.trans decreasing.mode,
        decreasing.same.trans (sameTarget_updateRtt now n packet _)⟩
  have ends : measured.decreaseEnds sender.account now .v5 = true ↔
      Ends start now sender.account.bytesInFlight := by
    simp only [decreaseEnds, excessDrained, decide_eq_true_eq, true_and, Ends, ← mode.2.bdp,
      ← mode.2.record, ← mode.2.began, ← mode.2.expired]
  have outcome := decide_decrease sender.account ack mode.1 (mode.2.began ▸ began)
  have calculated : decided.calculatePacingRate .v5 = some sender.state := calculated
  have course := sameCourse_calculatePacingRate calculated
  rw [time, ← decision] at outcome
  split_ifs at outcome with finished
  · exact .inl ⟨ends.mp finished, course.mode.trans outcome⟩
  · exact .inr ⟨fun finish => finished (ends.mpr finish), course.mode.trans outcome.1,
      (mode.2.trans outcome.2).trans (sameTarget_calculatePacingRate calculated)⟩

/-- As long as it stays in the mode, a sender is in the same decrease. -/
theorem Decreasing.step {start : Decisions library} {event : CongestionEvent}
    {traced next : TracedSender (Decisions library)} {log : List Subtraction}
    (decreasing : Decreasing start traced) (began : start.exitProbeRttAt ≠ 0)
    (handled : (TracedSender.machine .v5 (control .v5)).step traced event = some (next, log))
    (stays : next.sender.state.mode = .decrease) : Decreasing start next := by
  cases event with
  | onPacketSent now n bytes =>
      obtain ⟨rfl, -⟩ := Prod.mk.inj (Option.some.inj handled)
      exact ⟨decreasing.mode, decreasing.same⟩
  | onAck now n =>
      by_cases rounds : (traced.sender.settle (control .v5) now n).2.1.currentRound = 0
      · change TracedSender.handle .v5 _ traced (.onAck now n) = _ at handled
        rw [TracedSender.handle] at handled
        split_ifs at handled with member
        obtain ⟨⟨sender, subtractions⟩, acked, result⟩ := Option.map_eq_some_iff.mp handled
        obtain ⟨rfl, -⟩ := Prod.mk.inj result
        rcases MyBbrSender.onAck_cases (control .v5) acked with ⟨-, rfl, -⟩ | ⟨beyond, -, -⟩
        · exact ⟨decreasing.mode, decreasing.same⟩
        obtain ⟨measured, decided, -, kept, decision, calculated⟩ :=
          MyBbrSender.onAck_state beyond acked
        obtain ⟨-, rfl⟩ := decision.resolve_right fun round => round.1 rounds
        have calculated : decided.calculatePacingRate .v5 = some sender.state := calculated
        refine ⟨stays, SameTarget.trans ?_ (sameTarget_calculatePacingRate calculated)⟩
        rcases kept with rfl | ⟨account, packet, -, rfl⟩
        · exact decreasing.same
        · exact decreasing.same.trans (sameTarget_updateRtt now n packet _)
      · by_cases beyond : traced.sender.account.lastAckSeq < n
        · rcases decreasing.onAck began beyond rounds handled with ⟨-, increase⟩ | ⟨-, still⟩
          · cases stays.symm.trans increase
          · exact still
        · change TracedSender.handle .v5 _ traced (.onAck now n) = _ at handled
          rw [TracedSender.handle] at handled
          split_ifs at handled with member
          obtain ⟨⟨sender, subtractions⟩, acked, result⟩ := Option.map_eq_some_iff.mp handled
          obtain ⟨rfl, -⟩ := Prod.mk.inj result
          rcases MyBbrSender.onAck_cases (control .v5) acked with ⟨-, rfl, -⟩ | ⟨later, -, -⟩
          · exact ⟨decreasing.mode, decreasing.same⟩
          · exact absurd later beyond

/-- **The end of a decrease is decided by its beginning.** However a run of the version 5 goes
on in the mode `ST_DECREASE`, an acknowledgement after the first round ends the mode if and only
if the bytes in flight are down to the bandwidth-delay product recorded when it began, or the
minimum round trip time had expired and more than four times the recorded one have passed since.
Otherwise the sender stays. -/
theorem decrease_ends_iff (first last next : TracedSender (Decisions library))
    (more : List CongestionEvent) (now : QuicTime) (n : UInt64) (log out : List Subtraction)
    (mode : first.sender.state.mode = .decrease) (began : first.sender.state.exitProbeRttAt ≠ 0)
    (ran : (TracedSender.machine .v5 (control .v5)).run first more = some (last, log))
    (stays : (TracedSender.machine .v5 (control .v5)).Along
      (fun traced event => ∀ next out,
        (TracedSender.machine .v5 (control .v5)).step traced event = some (next, out) →
          next.sender.state.mode = .decrease) first more)
    (beyond : last.sender.account.lastAckSeq < n)
    (rounds : (last.sender.settle (control .v5) now n).2.1.currentRound ≠ 0)
    (handled : (TracedSender.machine .v5 (control .v5)).step last (.onAck now n) =
      some (next, out)) :
    (next.sender.state.mode = .increase ↔
        Ends first.sender.state now next.sender.account.bytesInFlight) ∧
      (next.sender.state.mode = .decrease ↔
        ¬ Ends first.sender.state now next.sender.account.bytesInFlight) := by
  have decreasing : Decreasing first.sender.state last :=
    Machine.run_along_invariant (Decreasing first.sender.state)
      (fun _ _ next out decreasing stays handled =>
        decreasing.step began handled (stays next out handled))
      stays ⟨mode, .refl _⟩ ran
  rcases decreasing.onAck began beyond rounds handled with ⟨ends, increase⟩ | ⟨open_, still⟩
  · exact ⟨iff_of_true increase ends,
      iff_of_false (fun decrease => nomatch increase.symm.trans decrease) (not_not.mpr ends)⟩
  · exact ⟨iff_of_false (fun increase => nomatch still.mode.symm.trans increase) open_,
      iff_of_true still.mode open_⟩

/-- A sender that backs off for a round trip time that has doubled, with eleven packets in
flight. -/
def crowded : List CongestionEvent :=
  steady ++ (List.range 12).map (fun k => .onPacketSent 1400000 (UInt64.ofNat (8 + k)) 1000) ++
    [.onAck 1600000 8]

/-- It stays in the decrease when the packet 9 is acknowledged, and leaves it with the last. -/
theorem decrease_ends_iff_crowded :
    ∃ first next : TracedSender (Decisions .plain), first.sender.state.mode = .decrease ∧
      Ends first.sender.state 1600002 next.sender.account.bytesInFlight ∧
      next.sender.state.mode = .increase := by
  have defined : ((TracedSender.machine .v5 (control .v5)).run plainSender
      ((crowded ++ [.onAck 1600001 9]) ++ [.onAck 1600002 19])).isSome := by
    decide +kernel
  obtain ⟨⟨next, log⟩, all⟩ := Option.isSome_iff_exists.mp defined
  have ends : Ends (after .v5 crowded).sender.state 1600002
      next.sender.account.bytesInFlight := by
    rw [after_eq all]
    exact .inr (by decide +kernel)
  obtain ⟨last, _, _, most, final, -⟩ := Machine.run_append.mp all
  obtain ⟨first, _, _, start, more, -⟩ := Machine.run_append.mp most
  obtain ⟨acked, out, rest, handled, nothing, -⟩ := Machine.run_cons.mp final
  obtain ⟨rfl, -⟩ := Prod.mk.inj (Option.some.inj nothing)
  rw [← after_eq start] at ends
  have stays : (TracedSender.machine .v5 (control .v5)).Along
      (fun traced event => ∀ next out,
        (TracedSender.machine .v5 (control .v5)).step traced event = some (next, out) →
          next.sender.state.mode = .decrease) first [.onAck 1600001 9] := by
    refine ⟨fun middle log handled => ?_, fun _ _ _ => trivial⟩
    have single : (TracedSender.machine .v5 (control .v5)).run first [.onAck 1600001 9] =
        some (middle, log ++ []) :=
      Machine.run_cons.mpr ⟨middle, log, [], handled, rfl, rfl⟩
    have reached := Machine.run_append.mpr ⟨first, _, _, start, single, rfl⟩
    rw [after_eq reached]
    decide +kernel
  have mode : first.sender.state.mode = .decrease := by
    rw [after_eq start]
    decide +kernel
  have decides := decrease_ends_iff first last acked [.onAck 1600001 9] 1600002 19 _ out mode
    (by rw [after_eq start]; decide +kernel) more stays
    (by rw [after_eq most]; decide +kernel) (by rw [after_eq most]; decide +kernel) handled
  exact ⟨first, acked, mode, ends, decides.1.mpr ends⟩

end MpVideo.Congestion.Decisions
