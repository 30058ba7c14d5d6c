import MpVideo.Congestion.BbrRtt

/-!
# The gains of the BBR senders

The pacing gain is the one that belongs to the mode, and the offset of a gain cycle stays inside
its table, which is read at each step of the cycle (`gain_of_mode`). The versions 4 and 5 go
through their cycle in order, and begin it anywhere but in the second phase
(`gain_cycle_order`).
-/

set_option autoImplicit false

namespace MpVideo.Congestion.Decisions

variable {library : QuicLibrary} {version : Version} {s next : Decisions library}

/-! ## The gain of a mode -/

/-- The offset that `EnterIncreaseMode` picks is in the table, and not 1. -/
theorem pick_offset (draw : Nat) :
    (if 1 ≤ draw % (kGainCycleLength - 1) then draw % (kGainCycleLength - 1) + 1
      else draw % (kGainCycleLength - 1)) < kGainCycleLength ∧
    (if 1 ≤ draw % (kGainCycleLength - 1) then draw % (kGainCycleLength - 1) + 1
      else draw % (kGainCycleLength - 1)) ≠ 1 := by
  have below : draw % (kGainCycleLength - 1) < kGainCycleLength - 1 := Nat.mod_lt _ (by decide)
  have length : kGainCycleLength = 8 := rfl
  split_ifs <;> omega

/-- The gain cycle is in the same phase, which began at the same time, and no random number was
drawn. -/
structure SameCycle (s next : Decisions library) : Prop where
  offset : next.cycleCurrentOffset = s.cycleCurrentOffset
  cycle : next.lastCycleStart = s.lastCycleStart
  random : next.random = s.random

theorem SameCourse.sameCycle (course : SameCourse s next) : SameCycle s next :=
  ⟨course.offset, course.cycle, course.random⟩

theorem SameCycle.trans {last : Decisions library} (first : SameCycle s next)
    (second : SameCycle next last) : SameCycle s last :=
  ⟨second.offset.trans first.offset, second.cycle.trans first.cycle,
    second.random.trans first.random⟩

/-- The gain cycle is the one that `EnterIncreaseMode` begins at a time, with the random number
that was next before. -/
def Entered (version : Version) (before : Decisions library) (now : QuicTime)
    (s : Decisions library) : Prop :=
  ∃ drained : Decisions library, drained.random = before.random ∧
    SameCycle (drained.enterIncreaseMode now version) s

/-- Before the gain cycle of an acknowledgement, no random number was drawn and a sender in the
mode `ST_INCREASE` is in the phase that it was in, or it has just entered this mode. -/
def Phase (version : Version) (before : Decisions library) (now : QuicTime)
    (s : Decisions library) : Prop :=
  (s.random = before.random ∧
      (s.mode = .increase → before.mode = .increase ∧ SameCycle before s)) ∨
    (s.mode = .increase ∧ Entered version before now s)

theorem Phase.of_same {before : Decisions library} {now : QuicTime}
    (phase : Phase version before now s) (mode : next.mode = s.mode) (same : SameCycle s next) :
    Phase version before now next := by
  rcases phase with ⟨random, still⟩ | ⟨increase, drained, drawn, cycle⟩
  · refine .inl ⟨same.random.trans random, fun increase => ?_⟩
    obtain ⟨was, cycle⟩ := still (mode ▸ increase)
    exact ⟨was, cycle.trans same⟩
  · exact .inr ⟨mode.trans increase, drained, drawn, cycle.trans same⟩

theorem phase_enterIncreaseMode {before drained : Decisions library} (now : QuicTime)
    (version : Version) (drawn : drained.random = before.random) :
    Phase version before now (drained.enterIncreaseMode now version) :=
  .inr ⟨mode_enterIncreaseMode now drained version, drained, drawn, ⟨rfl, rfl, rfl⟩⟩

/-- The decrease begins where no random number was drawn yet. -/
theorem phase_decrease {before : Decisions library} (account : Account) (now : QuicTime)
    (expired congested : Bool) (round : Int64) (same : SameCourse before s) :
    Phase version before now
      (s.maybeEnterOrExitDecrease version account now expired congested round) := by
  rcases maybeEnterOrExitDecrease_cases account now expired congested round s version with
    ⟨-, eq⟩ | ⟨kept, mode, -⟩ | ⟨drained, kept, eq⟩
  · rw [eq]
    exact .inl ⟨same.random, fun increase => ⟨same.mode ▸ increase, same.sameCycle⟩⟩
  · refine .inl ⟨kept.random.trans same.random, fun increase => ?_⟩
    cases mode.symm.trans increase
  · rw [eq]
    exact phase_enterIncreaseMode now version (kept.random.trans same.random)

/-- The exit from the start draws a random number only when none was drawn before. -/
theorem Phase.exit {before : Decisions library} (account : Account) {now : QuicTime}
    (phase : Phase version before now s) :
    Phase version before now (s.maybeExitStartupOrDrain version account now) := by
  rcases maybeExitStartupOrDrain_cases account now s version with
    ⟨eq, -⟩ | ⟨start, -, eq⟩ | ⟨mode, drained, kept, eq⟩
  · rwa [eq]
  · rw [eq]
    rcases phase with ⟨random, -⟩ | ⟨increase, -⟩
    · refine .inl ⟨random, fun increase => ?_⟩
      cases increase
    · cases start.symm.trans increase
  · rw [eq]
    rcases phase with ⟨random, -⟩ | ⟨increase, -⟩
    · exact phase_enterIncreaseMode now version (kept.random.trans random)
    · rcases mode with ⟨start, -⟩ | drain
      · cases start.symm.trans increase
      · cases drain.symm.trans increase

theorem Phase.checkIfFullBandwidthReached {before : Decisions library} {now : QuicTime}
    (phase : Phase version before now s) :
    Phase version before now s.checkIfFullBandwidthReached := by
  simp only [Decisions.checkIfFullBandwidthReached]
  split_ifs <;> exact phase.of_same rfl ⟨rfl, rfl, rfl⟩

/-- What the versions 4 and 5 do before the gain cycle: one decrease and one exit. -/
theorem phase_before_cycle (cycles : version = .v4 ∨ version = .v5) {before : Decisions library}
    {ack : Ack} (account : Account) (same : SameCourse before s) :
    ∃ uncycled, Phase version before ack.eventTime uncycled ∧
      version.decide (control version) account ack s = (control version).cycle ack uncycled := by
  have leaves {s : Decisions library} (phase : Phase version before ack.eventTime s) :
      Phase version before ack.eventTime ((control version).maybeExitStartupOrDrain account
        ack.eventTime ((control version).checkFullBandwidth ack
          ((control version).recordBandwidth ack s))) := by
    have course := sameCourse_recordBandwidth version ack s
    have recorded := phase.of_same course.mode course.sameCycle
    refine Phase.exit account ?_
    unfold Control.checkFullBandwidth
    split_ifs
    · exact recorded.checkIfFullBandwidthReached
    · exact recorded
  have decreases (check : Bool) :
      Phase version before ack.eventTime ((control version).decrease account ack check s) := by
    obtain ⟨checked, congested, course, eq⟩ := decrease_eq version account ack check s
    rw [eq]
    exact phase_decrease account ack.eventTime _ _ _ (same.trans course)
  rcases cycles with rfl | rfl
  · have course (s : Decisions library) := sameCourse_updateCongestionSignal ack.packetNumber s
    exact ⟨_, leaves ((decreases _).of_same (course _).mode (course _).sameCycle), rfl⟩
  · exact ⟨_, leaves (decreases _), rfl⟩

/-- What an acknowledgement at a time can do to the gain cycle of a sender that ends up in the
mode `ST_INCREASE`: nothing, the next phase after more than the minimum round trip time, or
`EnterIncreaseMode`, which does not begin with the second phase. -/
def CycleStep (version : Version) (before : Decisions library) (now : QuicTime)
    (next : Decisions library) : Prop :=
  (before.mode = .increase ∧ SameCycle before next) ∨
    (before.mode = .increase ∧ next.lastCycleStart = now ∧ next.random = before.random ∧
      next.cycleCurrentOffset = (before.cycleCurrentOffset + 1) % kGainCycleLength ∧
      next.getMinRtt < now - before.lastCycleStart) ∨
    (Entered version before now next ∧ next.lastCycleStart = now ∧ next.cycleCurrentOffset ≠ 1)

/-- A new cycle begins now, and not in the second phase. -/
theorem Entered.start (cycles : version = .v4 ∨ version = .v5) {before : Decisions library}
    {now : QuicTime} (entered : Entered version before now s) :
    s.lastCycleStart = now ∧ s.cycleCurrentOffset ≠ 1 := by
  obtain ⟨drained, -, same⟩ := entered
  rw [same.cycle, same.offset]
  rcases cycles with rfl | rfl
  · exact ⟨rfl, (pick_offset _).2⟩
  · exact ⟨rfl, (pick_offset _).2⟩

theorem cycleStep_cycle (cycles : version = .v4 ∨ version = .v5) {before : Decisions library}
    {ack : Ack} (phase : Phase version before ack.eventTime s) (nonneg : 0 ≤ s.getMinRtt)
    (increase : ((control version).cycle ack s).mode = .increase) :
    CycleStep version before ack.eventTime ((control version).cycle ack s) := by
  have mode : s.mode = .increase := by
    by_contra other
    have still : (control version).cycle ack s = s := if_neg other
    exact other (still ▸ increase)
  have cycled : (control version).cycle ack s = s.updateCycle ack.eventTime version := if_pos mode
  rw [cycled]
  rcases phase with ⟨random, still⟩ | ⟨-, entered⟩
  · obtain ⟨was, same⟩ := still mode
    rcases cycles with rfl | rfl <;> simp only [updateCycle] <;> split_ifs with longer
    · exact .inr (.inl ⟨was, rfl, random, by rw [same.offset], by rwa [← same.cycle]⟩)
    · exact .inl ⟨was, same⟩
    · exact .inr (.inl ⟨was, rfl, random, by rw [same.offset], by rwa [← same.cycle]⟩)
    · exact .inl ⟨was, same⟩
  · obtain ⟨start, offset⟩ := entered.start cycles
    have short : ¬ s.getMinRtt < ack.eventTime - s.lastCycleStart := by
      rw [start, sub_self]
      exact not_lt.mpr nonneg
    have stays : s.updateCycle ack.eventTime version = s := by
      rcases cycles with rfl | rfl <;> exact if_neg short
    rw [stays]
    exact .inr (.inr ⟨entered, start, offset⟩)

theorem CycleStep.of_same {before : Decisions library} {now : QuicTime}
    (step : CycleStep version before now s) (course : SameCourse s next)
    (rtts : SameRecords s next) : CycleStep version before now next := by
  have same : next.getMinRtt = s.getMinRtt := by rw [getMinRtt, getMinRtt, rtts.minRtt]
  rcases step with ⟨was, kept⟩ | moved | ⟨⟨drained, drawn, kept⟩, begins⟩
  · exact .inl ⟨was, kept.trans course.sameCycle⟩
  · rw [CycleStep, course.offset, course.cycle, course.random, same]
    exact .inr (.inl moved)
  · refine .inr (.inr ⟨⟨drained, drawn, kept.trans course.sameCycle⟩, ?_⟩)
    rwa [course.cycle, course.offset]

theorem getMinRtt_nonneg (kept : KeptRtts (fun rtt => 0 ≤ rtt) s) : 0 ≤ s.getMinRtt := by
  rw [getMinRtt]
  split_ifs with set
  · exact kept.minRtt.resolve_left set
  · decide

/-- **The gain cycle of the versions 4 and 5 goes through its phases in order.** When packets
are acknowledged no earlier than they were sent, an acknowledgement that ends in the mode
`ST_INCREASE` leaves the cycle as it was, or moves it on by one phase, and only after more
than the minimum round trip time in the last one, or enters this mode by `EnterIncreaseMode`,
which begins a cycle with the next random number, and never with the second phase: the gain 0.9
is applied only where the gain 1.11 was applied before. -/
theorem gain_cycle_order (version : Version) (cycles : version = .v4 ∨ version = .v5)
    (minBw : ℤ) (random : library.Random) (events : List CongestionEvent) (now : QuicTime)
    (n : UInt64) (traced next : TracedSender (Decisions library)) (log out : List Subtraction)
    (measures : TracedSender.Measures version (control version) (fun rtt => 0 ≤ rtt)
      (TracedSender.fresh { minBw := minBw, random := random }) events)
    (ran : (TracedSender.machine version (control version)).run
      (TracedSender.fresh { minBw := minBw, random := random }) events = some (traced, log))
    (measured : ∀ rtt ∈ traced.measured (.onAck now n), 0 ≤ rtt)
    (handled : (TracedSender.machine version (control version)).step traced (.onAck now n) =
      some (next, out))
    (increase : next.sender.state.mode = .increase) :
    CycleStep version traced.sender.state now next.sender.state := by
  have before : KeptRtts (fun rtt => 0 ≤ rtt) traced.sender.state :=
    TracedSender.state_invariant (keptRtts_keeps version _) measures
      (keptRtts_fresh minBw random _) ran
  have after : KeptRtts (fun rtt => 0 ≤ rtt) next.sender.state :=
    TracedSender.state_step (keptRtts_keeps version _) before measured handled
  change TracedSender.handle version _ traced (.onAck now n) = _ at handled
  rw [TracedSender.handle] at handled
  split_ifs at handled with member
  obtain ⟨⟨sender, subtractions⟩, acked, result⟩ := Option.map_eq_some_iff.mp handled
  obtain ⟨rfl, -⟩ := Prod.mk.inj result
  rcases MyBbrSender.onAck_cases (control version) acked with ⟨-, rfl, -⟩ | ⟨beyond, -, -⟩
  · exact .inl ⟨increase, rfl, rfl, rfl⟩
  obtain ⟨first, decided, -, kept, decision, calculated⟩ := MyBbrSender.onAck_state beyond acked
  have course := sameCourse_calculatePacingRate calculated
  have rtts := sameRecords_calculatePacingRate calculated
  refine CycleStep.of_same (s := decided) ?_ course rtts
  have same : SameCourse traced.sender.state first := by
    rcases kept with rfl | ⟨account, packet, -, rfl⟩
    · exact .refl _
    · exact sameCourse_updateRtt now n packet _ version
  have increases : decided.mode = .increase := course.mode ▸ increase
  rcases decision with ⟨-, rfl⟩ | ⟨-, eq⟩
  · exact .inl ⟨same.mode ▸ increases, same.sameCycle⟩
  · obtain ⟨uncycled, phase, cycled⟩ := phase_before_cycle cycles sender.account same
    rw [eq, cycled] at increases ⊢
    refine cycleStep_cycle cycles phase ?_ increases
    have kept : uncycled.minRtt = sender.state.minRtt := by
      rw [rtts.minRtt, eq, cycled, (sameRecords_cycle _ uncycled).minRtt]
    rw [getMinRtt, kept]
    exact getMinRtt_nonneg after

/-- The packet 7 of the steady run is acknowledged in the phase after that of the packet 6. -/
theorem gain_cycle_order_steady :
    ∃ traced next : TracedSender (Decisions .plain),
      CycleStep .v5 traced.sender.state 1300000 next.sender.state ∧
      traced.sender.state.cycleCurrentOffset + 1 = next.sender.state.cycleCurrentOffset := by
  have defined : ((TracedSender.machine .v5 (control .v5)).run plainSender
      (steady.dropLast ++ [.onAck 1300000 7])).isSome := by
    decide +kernel
  obtain ⟨⟨next, log⟩, ran⟩ := Option.isSome_iff_exists.mp defined
  have moved : next.sender.state.mode = .increase ∧ next.sender.state.cycleCurrentOffset = 6 := by
    rw [after_eq ran]
    decide +kernel
  obtain ⟨traced, first, rest, before, onwards, -⟩ := Machine.run_append.mp ran
  obtain ⟨last, out, added, handled, onwards, -⟩ := Machine.run_cons.mp onwards
  obtain ⟨rfl, -⟩ := Prod.mk.inj (Option.some.inj onwards)
  have offset : traced.sender.state.cycleCurrentOffset = 5 := by
    rw [after_eq before]
    decide +kernel
  have measures : TracedSender.Measures .v5 (control .v5) (fun rtt => 0 ≤ rtt) plainSender
      steady.dropLast := by
    decide +kernel
  have measured : ∀ rtt ∈ traced.measured (.onAck 1300000 7), 0 ≤ rtt := by
    rw [after_eq before]
    decide +kernel
  refine ⟨traced, last, ?_, by rw [offset, moved.2]⟩
  exact gain_cycle_order .v5 (.inr rfl) 0 _ _ 1300000 7 traced last _ out measures before measured
    handled moved.1

end MpVideo.Congestion.Decisions
