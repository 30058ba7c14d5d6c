import MpVideo.Congestion.BbrModes

/-!
# The round trip times of the BBR senders

Five members hold a round trip time, and the minimum can be replaced by another one of them
when a decrease ends. Each of them comes from a measurement (`keeps_measured_rtts`). The
version 2 divides by the minimum in milliseconds, which is not zero as long as nothing is
acknowledged within a millisecond (`v2_defined_iff`).
-/

set_option autoImplicit false

namespace MpVideo.Congestion.Decisions

variable {library : QuicLibrary} {version : Version} {s next : Decisions library}

/-! ## Where the round trip times come from -/

/-- Two states with the same round trip times. -/
structure SameRtts (s next : Decisions library) : Prop where
  minRtt : next.minRtt = s.minRtt
  record : next.minRttRecord = s.minRttRecord
  inDecrease : next.minRttInDecrease = s.minRttInDecrease
  baseLine : next.baseLineRtt = s.baseLineRtt
  current : next.curRtt = s.curRtt

/-- Two states with the same round trip times and the same signal of a congestion, both or
neither in the mode `ST_DECREASE`. -/
structure SameRecords (s next : Decisions library) : Prop extends SameRtts s next where
  decrease : next.mode = .decrease ↔ s.mode = .decrease
  seq : next.seqAtBackoff = s.seqAtBackoff
  flag : next.congestionBackoffFlag = s.congestionBackoffFlag

theorem SameRecords.refl (s : Decisions library) : SameRecords s s :=
  ⟨⟨rfl, rfl, rfl, rfl, rfl⟩, .rfl, rfl, rfl⟩

theorem SameRecords.trans {last : Decisions library} (first : SameRecords s next)
    (second : SameRecords next last) : SameRecords s last where
  minRtt := second.minRtt.trans first.minRtt
  record := second.record.trans first.record
  inDecrease := second.inDecrease.trans first.inDecrease
  baseLine := second.baseLine.trans first.baseLine
  current := second.current.trans first.current
  decrease := second.decrease.trans first.decrease
  seq := second.seq.trans first.seq
  flag := second.flag.trans first.flag

/-- Every round trip time that a sender keeps is a good one, unless it is not set. -/
structure KeptRtts (good : QuicTime → Prop) (s : Decisions library) : Prop where
  minRtt : s.minRtt = 0 ∨ good s.minRtt
  record : s.minRttRecord = 0 ∨ good s.minRttRecord
  inDecrease : ∀ rtt : QuicTime, s.minRttInDecrease = rtt → good rtt
  baseLine : ∀ rtt : QuicTime, s.baseLineRtt = rtt → good rtt
  current : s.curRtt = 0 ∨ good s.curRtt

variable {good : QuicTime → Prop}

theorem KeptRtts.of_same (kept : KeptRtts good s) (same : SameRtts s next) :
    KeptRtts good next where
  minRtt := by rw [same.minRtt]; exact kept.minRtt
  record := by rw [same.record]; exact kept.record
  inDecrease rtt eq := kept.inDecrease rtt (same.inDecrease ▸ eq)
  baseLine rtt eq := kept.baseLine rtt (same.baseLine ▸ eq)
  current := by rw [same.current]; exact kept.current

theorem KeptRtts.updateMinRtt (kept : KeptRtts good s) (now : QuicTime) {rtt : QuicTime}
    (new : good rtt) : KeptRtts good (s.updateMinRtt now rtt) := by
  have measured : KeptRtts good { s with minRtt := rtt, minRttTimestamp := now } :=
    { kept with minRtt := .inr new }
  simp only [Decisions.updateMinRtt]
  split_ifs
  · exact measured
  · exact measured.of_same ⟨rfl, rfl, rfl, rfl, rfl⟩
  · exact measured
  · exact kept.of_same ⟨rfl, rfl, rfl, rfl, rfl⟩
  · exact kept

theorem KeptRtts.updateMinRttInDecrease (kept : KeptRtts good s) (now : QuicTime)
    {rtt : QuicTime} (new : good rtt) : KeptRtts good (s.updateMinRttInDecrease now rtt) := by
  simp only [Decisions.updateMinRttInDecrease]
  split_ifs
  · exact { kept with inDecrease := fun other eq => WithTop.coe_injective eq ▸ new }
  · exact kept

theorem KeptRtts.updateBaseLine (kept : KeptRtts good s) (n : UInt64) {rtt : QuicTime}
    (new : good rtt) : KeptRtts good (s.updateBaseLine n rtt) := by
  simp only [Decisions.updateBaseLine]
  split_ifs
  all_goals first
    | exact kept
    | exact { kept with baseLine := fun other eq => WithTop.coe_injective eq ▸ new }
    | exact kept.of_same ⟨rfl, rfl, rfl, rfl, rfl⟩

theorem KeptRtts.updateRtt (kept : KeptRtts good s) {now : QuicTime} (n : UInt64)
    {packet : PerPacket} (new : good (now - packet.sentTs)) (version : Version) :
    KeptRtts good (s.updateRtt now n packet version) := by
  have current : KeptRtts good { s with curRtt := now - packet.sentTs } :=
    { kept with current := .inr new }
  cases version with
  | v2 => exact (kept.updateMinRtt now new).updateMinRttInDecrease now new
  | v3 => exact (current.updateMinRtt now new).updateMinRttInDecrease now new
  | v4 => exact (current.updateMinRtt now new).updateMinRttInDecrease now new
  | v5 => exact ((kept.updateMinRtt now new).updateMinRttInDecrease now new).updateBaseLine n new

theorem KeptRtts.updateCongestionSignal (kept : KeptRtts good s) (n : UInt64) :
    KeptRtts good (s.updateCongestionSignal n) := by
  simp only [Decisions.updateCongestionSignal]
  generalize (if s.sRtt = 0 then s.curRtt else smoothRtt 90 s.sRtt s.curRtt) = smoothed
  split_ifs with unset beyond below
  · exact kept
  · exact { kept with
      baseLine := fun rtt eq => WithTop.coe_injective eq ▸ kept.current.resolve_left unset }
  · exact kept.of_same ⟨rfl, rfl, rfl, rfl, rfl⟩
  · exact kept

theorem sameRtts_enterIncreaseMode (now : QuicTime) (s : Decisions library) (version : Version) :
    SameRtts s (s.enterIncreaseMode now version) := by
  cases version <;> exact ⟨rfl, rfl, rfl, rfl, rfl⟩

theorem KeptRtts.restoreMinRtt (kept : KeptRtts good s) (now : QuicTime) :
    KeptRtts good (s.restoreMinRtt now) := by
  refine { kept with minRtt := ?_ }
  simp only [Decisions.restoreMinRtt]
  cases inDecrease : s.minRttInDecrease with
  | top => exact kept.record
  | coe rtt => exact .inr (kept.inDecrease rtt inDecrease)

theorem KeptRtts.enter (kept : KeptRtts good s) (account : Account) (expired congested : Bool)
    (round : Int64) (version : Version) :
    KeptRtts good (s.enter account expired congested round version) := by
  have entered : KeptRtts good s.enterDecrease :=
    ⟨kept.minRtt, kept.minRtt, (fun rtt eq => nomatch eq), kept.baseLine, kept.current⟩
  have forgot {s : Decisions library} (kept : KeptRtts good s) :
      KeptRtts good (s.forgetSignal account) :=
    { kept with baseLine := fun rtt eq => nomatch eq }
  cases version with
  | v2 => exact entered.of_same ⟨rfl, rfl, rfl, rfl, rfl⟩
  | v3 =>
      cases congested with
      | false => exact entered.of_same ⟨rfl, rfl, rfl, rfl, rfl⟩
      | true => exact (forgot entered).of_same ⟨rfl, rfl, rfl, rfl, rfl⟩
  | v4 =>
      cases congested with
      | false => exact entered.of_same ⟨rfl, rfl, rfl, rfl, rfl⟩
      | true => exact (forgot entered).of_same ⟨rfl, rfl, rfl, rfl, rfl⟩
  | v5 => exact (forgot entered).of_same ⟨rfl, rfl, rfl, rfl, rfl⟩

theorem sameRtts_probe (account : Account) (now : QuicTime) (s : Decisions library)
    (version : Version) : SameRtts s (s.probe account now version) := by
  simp only [probe]
  split_ifs <;> exact ⟨rfl, rfl, rfl, rfl, rfl⟩

theorem KeptRtts.restore (kept : KeptRtts good s) (now : QuicTime) (version : Version) :
    KeptRtts good (s.restore now version) := by
  have restored := kept.restoreMinRtt now
  cases version with
  | v2 => exact restored
  | v3 => exact restored.of_same ⟨rfl, rfl, rfl, rfl, rfl⟩
  | v4 => exact restored.of_same ⟨rfl, rfl, rfl, rfl, rfl⟩
  | v5 =>
      simp only [Decisions.restore]
      split_ifs
      · exact restored.of_same ⟨rfl, rfl, rfl, rfl, rfl⟩
      · exact kept.of_same ⟨rfl, rfl, rfl, rfl, rfl⟩

theorem KeptRtts.exit (kept : KeptRtts good s) (account : Account) (now : QuicTime)
    (version : Version) : KeptRtts good (s.exit account now version) := by
  have probed := kept.of_same (sameRtts_probe account now s version)
  simp only [Decisions.exit]
  split_ifs
  · exact (probed.restore now version).of_same (sameRtts_enterIncreaseMode ..)
  · exact probed

theorem KeptRtts.maybeEnterOrExitDecrease (kept : KeptRtts good s) (account : Account)
    (now : QuicTime) (expired congested : Bool) (round : Int64) (version : Version) :
    KeptRtts good
      (s.maybeEnterOrExitDecrease version account now expired congested round) := by
  simp only [Decisions.maybeEnterOrExitDecrease]
  split_ifs
  · exact (kept.enter account expired congested round version).exit account now version
  · exact kept.enter account expired congested round version
  · exact kept.exit account now version
  · exact kept

/-! ## The minimum and the last round trip time -/

/-- The minimum is at most a round trip time, and so is what the mode `ST_DECREASE` will
restore. -/
structure AtMost (rtt : QuicTime) (s : Decisions library) : Prop where
  minRtt : s.minRtt ≤ rtt
  restored : s.mode = .decrease → s.minRttInDecrease.untopD s.minRttRecord ≤ rtt

variable {rtt : QuicTime}

theorem AtMost.of_same (most : AtMost rtt s) (same : SameRtts s next)
    (decrease : next.mode = .decrease → s.mode = .decrease) : AtMost rtt next where
  minRtt := by rw [same.minRtt]; exact most.minRtt
  restored mode := by
    rw [same.inDecrease, same.record]
    exact most.restored (decrease mode)

theorem minRtt_updateMinRtt (now rtt : QuicTime) (s : Decisions library) :
    (s.updateMinRtt now rtt).minRtt ≤ rtt := by
  simp only [updateMinRtt]
  split_ifs with unset below similar similar
  · exact le_rfl
  · exact le_rfl
  · exact le_rfl
  · exact not_lt.mp below
  · exact not_lt.mp below

theorem untopD_updateMinRttInDecrease (now rtt : QuicTime) (s : Decisions library)
    (mode : s.mode = .decrease) :
    (s.updateMinRttInDecrease now rtt).minRttInDecrease.untopD
      (s.updateMinRttInDecrease now rtt).minRttRecord ≤ rtt := by
  simp only [updateMinRttInDecrease]
  split_ifs with smaller
  · exact le_rfl
  · have larger : s.minRttInDecrease < rtt := not_le.mp fun le => smaller ⟨mode, le⟩
    cases value : s.minRttInDecrease with
    | top => exact absurd (value ▸ larger) not_top_lt
    | coe least =>
        rw [value] at larger
        exact le_of_lt (WithTop.coe_lt_coe.mp larger)

/-- The round trip time of a packet bounds the minimum, whatever that was. -/
theorem atMost_updateRtt (now : QuicTime) (n : UInt64) (packet : PerPacket)
    (s : Decisions library) (version : Version) :
    AtMost (now - packet.sentTs) (s.updateRtt now n packet version) := by
  have minima (s : Decisions library) (rtt : QuicTime) :
      AtMost rtt ((s.updateMinRtt now rtt).updateMinRttInDecrease now rtt) := by
    refine ⟨?_, ?_⟩
    · have kept : ((s.updateMinRtt now rtt).updateMinRttInDecrease now rtt).minRtt =
          (s.updateMinRtt now rtt).minRtt := by
        rw [updateMinRttInDecrease]
        split_ifs <;> rfl
      rw [kept]
      exact minRtt_updateMinRtt now rtt s
    · intro mode
      rw [(sameCourse_updateMinRttInDecrease now rtt _).mode] at mode
      exact untopD_updateMinRttInDecrease now rtt _ mode
  cases version with
  | v2 => exact minima s _
  | v3 => exact minima { s with curRtt := now - packet.sentTs } _
  | v4 => exact minima { s with curRtt := now - packet.sentTs } _
  | v5 =>
      have most := minima s (now - packet.sentTs)
      simp only [updateRtt, updateBaseLine]
      split_ifs <;> exact ⟨most.minRtt, most.restored⟩

theorem AtMost.updateCongestionSignal (most : AtMost rtt s) (n : UInt64) :
    AtMost rtt (s.updateCongestionSignal n) := by
  simp only [Decisions.updateCongestionSignal]
  split_ifs <;> exact ⟨most.minRtt, most.restored⟩

theorem AtMost.enter (most : AtMost rtt s) (account : Account) (expired congested : Bool)
    (round : Int64) (version : Version) :
    AtMost rtt (s.enter account expired congested round version) := by
  cases version <;> cases congested <;> exact ⟨most.minRtt, fun _ => most.minRtt⟩

theorem AtMost.exit (most : AtMost rtt s) (account : Account) (now : QuicTime)
    (decrease : s.mode = .decrease) (version : Version) :
    AtMost rtt (s.exit account now version) := by
  have mode := (sameCourse_probe account now s version).mode.trans decrease
  have probed := most.of_same (sameRtts_probe account now s version) fun _ => decrease
  simp only [Decisions.exit]
  split_ifs
  · refine AtMost.of_same (s := (s.probe account now version).restore now version) ?_
      (sameRtts_enterIncreaseMode ..)
      fun _ => (sameCourse_restore now _ version).mode.trans mode
    have restored : AtMost rtt ((s.probe account now version).restoreMinRtt now) :=
      ⟨probed.restored mode, probed.restored⟩
    cases version with
    | v2 => exact restored
    | v3 => exact ⟨restored.minRtt, restored.restored⟩
    | v4 => exact ⟨restored.minRtt, restored.restored⟩
    | v5 =>
        simp only [Decisions.restore]
        split_ifs
        · exact ⟨restored.minRtt, restored.restored⟩
        · exact ⟨probed.minRtt, probed.restored⟩
  · exact probed

theorem AtMost.maybeEnterOrExitDecrease (most : AtMost rtt s) (account : Account)
    (now : QuicTime) (expired congested : Bool) (round : Int64) (version : Version) :
    AtMost rtt (s.maybeEnterOrExitDecrease version account now expired congested round) := by
  simp only [Decisions.maybeEnterOrExitDecrease]
  split_ifs with entry decrease decrease
  · exact (most.enter account expired congested round version).exit account now decrease version
  · exact most.enter account expired congested round version
  · exact most.exit account now decrease version
  · exact most

/-! ## Operations without round trip times -/

theorem sameRecords_checkIfCongestion (account : Account) (n : UInt64) (bw : Option Sample)
    (round : Int64) (s : Decisions library) (version : Version) :
    SameRecords s (s.checkIfCongestion account n bw round version).1 := by
  cases version with
  | v2 =>
      simp only [checkIfCongestion, checkIfCongestionV2]
      split_ifs <;> exact ⟨⟨rfl, rfl, rfl, rfl, rfl⟩, .rfl, rfl, rfl⟩
  | v3 => exact ⟨⟨rfl, rfl, rfl, rfl, rfl⟩, .rfl, rfl, rfl⟩
  | v4 => exact ⟨⟨rfl, rfl, rfl, rfl, rfl⟩, .rfl, rfl, rfl⟩
  | v5 =>
      simp only [checkIfCongestion, checkIfCongestionV5]
      split_ifs <;> exact ⟨⟨rfl, rfl, rfl, rfl, rfl⟩, .rfl, rfl, rfl⟩

theorem sameRecords_recordBandwidth (ack : Ack) (s : Decisions library) :
    SameRecords s ((control version).recordBandwidth ack s) := by
  simp only [Control.recordBandwidth]
  split_ifs <;> exact ⟨⟨rfl, rfl, rfl, rfl, rfl⟩, .rfl, rfl, rfl⟩

theorem sameRecords_checkFullBandwidth (ack : Ack) (s : Decisions library) :
    SameRecords s ((control version).checkFullBandwidth ack s) := by
  have checked : SameRecords s s.checkIfFullBandwidthReached := by
    simp only [checkIfFullBandwidthReached]
    split_ifs <;> exact ⟨⟨rfl, rfl, rfl, rfl, rfl⟩, .rfl, rfl, rfl⟩
  simp only [Control.checkFullBandwidth]
  split_ifs
  · exact checked
  · exact .refl s

theorem sameRecords_maybeExitStartupOrDrain (account : Account) (now : QuicTime)
    (s : Decisions library) (version : Version) :
    SameRecords s (s.maybeExitStartupOrDrain version account now) := by
  have other {mode : Mode} (mode_ne : mode ≠ .decrease) (before : s.mode ≠ .decrease) :
      mode = .decrease ↔ s.mode = .decrease :=
    ⟨fun decrease => absurd decrease mode_ne, fun decrease => absurd decrease before⟩
  have enters {s : Decisions library} (mode : s.mode ≠ .decrease) :
      SameRecords s (s.enterIncreaseMode now version) := by
    have left : (s.enterIncreaseMode now version).mode ≠ .decrease := by
      rw [mode_enterIncreaseMode]
      decide
    have decrease : (s.enterIncreaseMode now version).mode = .decrease ↔ s.mode = .decrease :=
      ⟨fun decrease => absurd decrease left, fun decrease => absurd decrease mode⟩
    cases version <;> exact ⟨⟨rfl, rfl, rfl, rfl, rfl⟩, decrease, rfl, rfl⟩
  have drains (mode : s.mode = .start) :
      SameRecords s { s with mode := .drain, pacingGain := 1 / kDefaultHighGain } :=
    ⟨⟨rfl, rfl, rfl, rfl, rfl⟩, other Mode.noConfusion (by rw [mode]; decide), rfl, rfl⟩
  simp only [maybeExitStartupOrDrain]
  split_ifs with start drained drained
  · exact (drains start.1).trans (enters Mode.noConfusion)
  · exact drains start.1
  · exact enters (by rw [drained.1]; decide)
  · exact .refl s

theorem sameRecords_cycle (ack : Ack) (s : Decisions library) :
    SameRecords s ((control version).cycle ack s) := by
  have cycled : SameRecords s (s.updateCycle ack.eventTime version) := by
    cases version with
    | v2 => exact ⟨⟨rfl, rfl, rfl, rfl, rfl⟩, .rfl, rfl, rfl⟩
    | v3 => simp only [updateCycle]; split_ifs <;> exact ⟨⟨rfl, rfl, rfl, rfl, rfl⟩, .rfl, rfl, rfl⟩
    | v4 => simp only [updateCycle]; split_ifs <;> exact ⟨⟨rfl, rfl, rfl, rfl, rfl⟩, .rfl, rfl, rfl⟩
    | v5 => simp only [updateCycle]; split_ifs <;> exact ⟨⟨rfl, rfl, rfl, rfl, rfl⟩, .rfl, rfl, rfl⟩
  simp only [Control.cycle]
  split_ifs
  · exact cycled
  · exact .refl s

theorem sameRecords_calculatePacingRate (calculated : s.calculatePacingRate version = some next) :
    SameRecords s next := by
  cases version <;> simp only [calculatePacingRate] at calculated <;>
    split_ifs at calculated
  all_goals first
    | obtain rfl := Option.some.inj calculated
      exact ⟨⟨rfl, rfl, rfl, rfl, rfl⟩, .rfl, rfl, rfl⟩
    | obtain ⟨gain, -, rfl⟩ := Option.map_eq_some_iff.mp calculated
      exact ⟨⟨rfl, rfl, rfl, rfl, rfl⟩, .rfl, rfl, rfl⟩

/-- **A property of the round trip times that the signal and the decrease keep is kept by
all decisions of a version.** -/
theorem decide_rtts {inv : Decisions library → Prop} {ack : Ack}
    (same : ∀ s next, SameRecords s next → inv s → inv next)
    (signal : ∀ n s, inv s → inv (s.updateCongestionSignal n))
    (decrease : ∀ account expired congested round s, inv s →
      inv (s.maybeEnterOrExitDecrease version account ack.eventTime expired congested round))
    (account : Account) (holds : inv s) :
    inv (version.decide (control version) account ack s) := by
  have decrease (check : Bool) {s : Decisions library} (holds : inv s) :
      inv ((control version).decrease account ack check s) := by
    simp only [Control.decrease]
    split_ifs
    · exact decrease _ _ _ _ _ (same _ _ (sameRecords_checkIfCongestion ..) holds)
    · exact decrease _ _ _ _ _ holds
  have leave {s : Decisions library} (holds : inv s) :
      inv ((control version).maybeExitStartupOrDrain account ack.eventTime
        ((control version).checkFullBandwidth ack ((control version).recordBandwidth ack s))) :=
    same _ _ (((sameRecords_recordBandwidth ack s).trans
      (sameRecords_checkFullBandwidth ack _)).trans
      (sameRecords_maybeExitStartupOrDrain account ack.eventTime _ version)) holds
  have cycle {s : Decisions library} (holds : inv s) : inv ((control version).cycle ack s) :=
    same _ _ (sameRecords_cycle ack s) holds
  cases version with
  | v2 => exact decrease _ (leave holds)
  | v3 => exact cycle (leave (signal _ _ (decrease _ holds)))
  | v4 => exact cycle (leave (signal _ _ (decrease _ holds)))
  | v5 => exact cycle (leave (decrease _ holds))

theorem KeptRtts.decide (kept : KeptRtts good s) (account : Account) (ack : Ack)
    (version : Version) : KeptRtts good (version.decide (control version) account ack s) :=
  decide_rtts (fun _ _ same kept => kept.of_same same.toSameRtts)
    (fun n _ kept => kept.updateCongestionSignal n)
    (fun account expired congested round _ kept =>
      kept.maybeEnterOrExitDecrease account ack.eventTime expired congested round version)
    account kept

theorem keptRtts_keeps (version : Version) (good : QuicTime → Prop) :
    (control version : Control (Decisions library)).Keeps version good (KeptRtts good) where
  updateRtt _ _ n _ _ new kept := kept.updateRtt n new version
  decide account ack _ kept := kept.decide account ack version
  calculatePacingRate _ _ _ kept calculated :=
    kept.of_same (sameRecords_calculatePacingRate calculated).toSameRtts

/-- The acknowledgement of a packet leaves no minimum above its round trip time. -/
theorem minRtt_le_measured {traced last : TracedSender (Decisions library)}
    {event : CongestionEvent} {log : List Subtraction} (measured : rtt ∈ traced.measured event)
    (handled : (TracedSender.machine version (control version)).step traced event =
      some (last, log)) :
    last.sender.state.minRtt ≤ rtt := by
  cases event with
  | onPacketSent now n bytes => cases measured
  | onAck now n =>
      simp only [TracedSender.measured] at measured
      split_ifs at measured with old
      · cases measured
      obtain ⟨packet, found, rfl⟩ := Option.map_eq_some_iff.mp measured
      change TracedSender.handle version _ traced (.onAck now n) = _ at handled
      rw [TracedSender.handle] at handled
      split_ifs at handled with member
      obtain ⟨⟨sender, subtractions⟩, acked, result⟩ := Option.map_eq_some_iff.mp handled
      obtain ⟨rfl, -⟩ := Prod.mk.inj result
      obtain ⟨first, decided, settled, -, decision, calculated⟩ :=
        MyBbrSender.onAck_state (not_le.mp old) acked
      have most : AtMost (now - packet.sentTs) first := by
        rw [settled]
        simp only [MyBbrSender.settle, MyBbrSender.updateRttAndInflight, found]
        exact atMost_updateRtt now n packet traced.sender.state version
      have kept : AtMost (now - packet.sentTs) decided := by
        rcases decision with ⟨-, rfl⟩ | ⟨-, rfl⟩
        · exact most
        · exact decide_rtts (fun _ _ same most => most.of_same same.toSameRtts same.decrease.mp)
            (fun n _ most => most.updateCongestionSignal n)
            (fun account expired congested round _ most =>
              most.maybeEnterOrExitDecrease account _ expired congested round version) _ most
      rw [(sameRecords_calculatePacingRate calculated).minRtt]
      exact kept.minRtt

/-! ## Runs -/

theorem keptRtts_fresh (minBw : ℤ) (random : library.Random) (good : QuicTime → Prop) :
    KeptRtts good { minBw := minBw, random := random } where
  minRtt := .inl rfl
  record := .inl rfl
  inDecrease rtt eq := by cases eq
  baseLine rtt eq := by cases eq
  current := .inl rfl

/-- **A sender keeps only round trip times that it measured.** The minimum, the one recorded
when the rate decreases, the minimum since then, the base line and the current one are each not
set, or among the round trip times of the run; and no minimum is above the round trip time of
the packet acknowledged last. -/
theorem keeps_measured_rtts (version : Version) (minBw : ℤ) (random : library.Random)
    (good : QuicTime → Prop) (events : List CongestionEvent)
    (traced : TracedSender (Decisions library)) (log : List Subtraction)
    (measures : TracedSender.Measures version (control version) good
      (TracedSender.fresh { minBw := minBw, random := random }) events)
    (ran : (TracedSender.machine version (control version)).run
      (TracedSender.fresh { minBw := minBw, random := random }) events = some (traced, log)) :
    KeptRtts good traced.sender.state ∧
      ∀ event next out rtt, rtt ∈ traced.measured event →
        (TracedSender.machine version (control version)).step traced event = some (next, out) →
        next.sender.state.minRtt ≤ rtt :=
  ⟨TracedSender.state_invariant (keptRtts_keeps version good) measures
      (keptRtts_fresh minBw random good) ran,
    fun _ _ _ _ measured handled => minRtt_le_measured measured handled⟩

/-- At least a millisecond, and within the 64 bits of a delta. -/
def WholeMilliseconds (rtt : QuicTime) : Prop := 1000 ≤ rtt ∧ rtt < 2 ^ 63

theorem ofInt_tdiv_ne_zero {rtt : ℤ} (low : 1000 ≤ rtt) (high : rtt < 2 ^ 63) :
    UInt64.ofInt (rtt.tdiv 1000) ≠ 0 := by
  intro zero
  have word : (rtt.tdiv 1000 % 2 ^ 64).toNat % 2 ^ 64 = 0 :=
    (UInt64.toNat_ofNat' ..).symm.trans (congrArg UInt64.toNat zero)
  rw [Int.tdiv_eq_ediv_of_nonneg (by omega)] at word
  omega

theorem calculatePacingRate_v2_isSome (kept : KeptRtts WholeMilliseconds s) :
    (s.calculatePacingRate .v2).isSome := by
  have within : WholeMilliseconds s.getMinRtt := by
    rw [getMinRtt]
    split_ifs with set
    · exact kept.minRtt.resolve_left set
    · exact ⟨by norm_num, by norm_num⟩
  have divisor := ofInt_tdiv_ne_zero within.1 within.2
  simp only [calculatePacingRate]
  split_ifs
  · exact absurd ‹_› divisor
  · rfl
  · rfl

theorem keeps_measured_rtts_steady :
    ∃ traced log,
      (TracedSender.machine .v5 (control .v5)).run plainSender steady = some (traced, log) ∧
      KeptRtts (fun rtt => rtt = 100000) traced.sender.state := by
  obtain ⟨⟨traced, log⟩, ran⟩ := Option.isSome_iff_exists.mp steady_defined
  have measures : TracedSender.Measures .v5 (control .v5) (fun rtt => rtt = 100000) plainSender
      steady := by
    decide +kernel
  exact ⟨traced, log, ran,
    (keeps_measured_rtts .v5 0 _ _ steady traced log measures ran).1⟩

/-- **The version 2 divides by the minimum round trip time in milliseconds, and that is not
zero** as long as every packet is acknowledged a millisecond or more after it was sent: then a
run is defined if and only if it acknowledges only packets that were sent. -/
theorem v2_defined_iff (minBw : ℤ) (random : library.Random) (events : List CongestionEvent)
    (measures : TracedSender.Measures .v2 (control .v2) WholeMilliseconds
      (TracedSender.fresh { minBw := minBw, random := random }) events) :
    ((TracedSender.machine .v2 (control .v2)).run
        (TracedSender.fresh { minBw := minBw, random := random }) events).isSome ↔
      AcknowledgesSent [] events :=
  TracedSender.run_isSome_iff (keptRtts_keeps .v2 WholeMilliseconds)
    (fun _ _ kept => calculatePacingRate_v2_isSome kept) measures
    (keptRtts_fresh minBw random WholeMilliseconds)

instance : DecidablePred WholeMilliseconds := fun rtt =>
  inferInstanceAs (Decidable (1000 ≤ rtt ∧ rtt < 2 ^ 63))

theorem v2_defined_iff_steady :
    ((TracedSender.machine .v2 (control .v2)).run plainSender steady).isSome :=
  (v2_defined_iff 0 plainRandom steady (by decide +kernel)).mpr acknowledgesSent_steady

end MpVideo.Congestion.Decisions
