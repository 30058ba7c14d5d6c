import MpVideo.EndToEnd.Handshake

/-!
# Round trip times

Both ends measure round trip times, the sender from the acknowledgement of its connection and
from its pings, the receiver from its pings. Every message carries the time of what it answers,
so that what is measured is a time that really passed (`elapsed`), also when the 32 bits of
the clock wrap, and when datagrams are repeated and overtaken.

The round trip times of a connected sender, the least and the smoothed one, lie between two
bounds that the delays of the network give (`rtts_bounded`), and so does the time for which the
receiver waits for what is missing (`waits_bounded`).
-/

set_option autoImplicit false

namespace MpVideo.EndToEnd

open Wire Sender Receiver

/-- The least round trip time in milliseconds. -/
def Delay.leastRtt (delay : Delay) : ℕ := 2 * delay.least / millisecond

/-- The greatest round trip time in milliseconds. A millisecond may begin on the way. -/
def Delay.mostRtt (delay : Delay) : ℕ := 2 * delay.most / millisecond + 1

/-- No more than the time that passed is measured. -/
theorem elapsed_le {delay : Delay} {asked sent now : ℕ} (there : delay.Flown asked sent)
    (back : delay.Flown sent now) : (millis now - millis asked).toNat ≤ delay.mostRtt := by
  obtain ⟨lowThere, highThere⟩ := there
  obtain ⟨lowBack, highBack⟩ := back
  simp only [Delay.mostRtt, millis, millisecond, UInt32.toNat_sub, UInt32.toNat_ofNat']
  omega

/-- **What is measured is the time that passed**, as long as this is less than the clock can
tell. -/
theorem elapsed {delay : Delay} (short : delay.mostRtt < 2 ^ 29) {asked sent now : ℕ}
    (there : delay.Flown asked sent) (back : delay.Flown sent now) :
    delay.leastRtt ≤ (millis now - millis asked).toNat ∧
      (millis now - millis asked).toNat ≤ delay.mostRtt := by
  refine ⟨?_, elapsed_le there back⟩
  obtain ⟨lowThere, highThere⟩ := there
  obtain ⟨lowBack, highBack⟩ := back
  simp only [Delay.mostRtt, Delay.leastRtt, millis, millisecond, UInt32.toNat_sub,
    UInt32.toNat_ofNat'] at short ⊢
  omega

/-- `UpdateRtt` smoothes: it stays below a bound for the samples that is not below ten. -/
theorem smoothed_le {rtt sample : UInt32} {high : ℕ} (highRtt : rtt.toNat ≤ high)
    (highSample : sample.toNat ≤ high) (ten : 10 ≤ high) :
    (if (7 * rtt + sample) / 8 < 10 then 10 else (7 * rtt + sample) / 8).toNat ≤ high := by
  have value : ((7 * rtt + sample) / 8).toNat ≤ (7 * rtt.toNat + sample.toNat) / 8 := by
    simp only [UInt32.toNat_div, UInt32.toNat_add, UInt32.toNat_mul, UInt32.reduceToNat]
    omega
  split_ifs with small
  · exact ten
  · omega

/-- It stays between two bounds when nothing wraps. -/
theorem smoothed {rtt sample : UInt32} {low high : ℕ} (short : high < 2 ^ 29)
    (lowRtt : low ≤ rtt.toNat) (highRtt : rtt.toNat ≤ high) (lowSample : low ≤ sample.toNat)
    (highSample : sample.toNat ≤ high) (ten : 10 ≤ high) :
    low ≤ (if (7 * rtt + sample) / 8 < 10 then 10 else (7 * rtt + sample) / 8).toNat ∧
      (if (7 * rtt + sample) / 8 < 10 then 10 else (7 * rtt + sample) / 8).toNat ≤ high := by
  refine ⟨?_, smoothed_le highRtt highSample ten⟩
  have value : ((7 * rtt + sample) / 8).toNat = (7 * rtt.toNat + sample.toNat) / 8 := by
    simp only [UInt32.toNat_div, UInt32.toNat_add, UInt32.toNat_mul, UInt32.reduceToNat]
    omega
  split_ifs with small
  · rw [UInt32.lt_iff_toNat_lt, value] at small
    simp only [UInt32.reduceToNat] at small ⊢
    omega
  · rw [value]
    omega

/-! ## The sender -/

/-- Nothing was measured. -/
structure Unmeasured (path next : PathControl) : Prop where
  state : next.state = .conned ↔ path.state = .conned
  rtt : next.rtt = path.rtt
  minRtt : next.minRtt = path.minRtt

namespace Unmeasured

theorem of_quiet {path next : PathControl} {calls : List SenderCall}
    (quiet : PathControl.Quiet path (next, calls)) : Unmeasured path next := by
  obtain ⟨queue, rate, sRate, eq⟩ := quiet.kept
  dsimp only at eq
  exact eq ▸ ⟨Iff.rfl, rfl, rfl⟩

theorem sendConnect (now : ℕ) (path : PathControl) :
    Unmeasured path (path.sendConnect now).1 := by
  refine ⟨(Unreported.sendConnect now path).2.2, ?_, ?_⟩ <;>
    rcases PathControl.sendConnect_cases now path with ⟨-, eq⟩ | ⟨-, eq⟩ | ⟨-, eq⟩ <;> rw [eq] <;>
    simp [PathControl.cancel]

theorem checkPing (now : ℕ) (path : PathControl) : Unmeasured path (path.checkPing now).1 := by
  refine ⟨by rw [(Unreported.checkPing now path).state], ?_, ?_⟩ <;>
    rw [PathControl.checkPing_eq] <;> split_ifs <;> simp

theorem recvSegAck (ack : SimSegmentAck) (path : PathControl) :
    Unmeasured path (path.recvSegAck ack) := by
  rw [PathControl.recvSegAck]
  split_ifs <;> exact ⟨Iff.rfl, rfl, rfl⟩

theorem settle (now : ℕ) (path : PathControl) :
    (path.settle now).1.rtt = path.rtt ∧ (path.settle now).1.minRtt = path.minRtt := by
  have configured : path.configure.1.rtt = path.rtt ∧
      path.configure.1.minRtt = path.minRtt := by
    rw [PathControl.configure]
    split_ifs <;> exact ⟨rfl, rfl⟩
  have pinged := checkPing now path.configure.1
  exact ⟨pinged.rtt.trans configured.1, pinged.minRtt.trans configured.2⟩

end Unmeasured

/-- The round trip times of a sender are within the bounds. -/
structure SenderRtts (delay : Delay) (path : PathControl) : Prop where
  low : path.minRtt ≠ 0 → delay.leastRtt ≤ path.minRtt.toNat
  rtt : path.state = .conned → delay.leastRtt ≤ path.rtt.toNat ∧
    path.rtt.toNat ≤ max delay.mostRtt 10
  minRtt : path.state = .conned → path.minRtt ≠ 0 ∧ path.minRtt.toNat ≤ delay.mostRtt

namespace SenderRtts

variable {delay : Delay} {path next : PathControl}

theorem unmeasured (rtts : SenderRtts delay path) (same : Unmeasured path next) :
    SenderRtts delay next where
  low set := by
    rw [same.minRtt] at set ⊢
    exact rtts.low set
  rtt conned := by
    rw [same.rtt]
    exact rtts.rtt (same.state.mp conned)
  minRtt conned := by
    rw [same.minRtt]
    exact rtts.minRtt (same.state.mp conned)

/-- The least round trip time is the old one or the sample, whichever is less. -/
theorem updateMinRtt_cases (rtt : UInt32) (path : PathControl) :
    (path.updateMinRtt rtt).minRtt = rtt ∧ (path.minRtt ≠ 0 → rtt ≤ path.minRtt) ∨
      (path.updateMinRtt rtt).minRtt = path.minRtt ∧ path.minRtt ≠ 0 ∧ path.minRtt ≤ rtt := by
  rw [PathControl.updateMinRtt]
  split_ifs with unset less
  · exact .inl ⟨rfl, fun set => absurd unset set⟩
  · exact .inl ⟨rfl, fun _ => le_of_lt less⟩
  · exact .inr ⟨rfl, unset, not_lt.mp less⟩

/-- The acknowledgement of the connection sets the round trip time. -/
theorem onConnectAck (rtts : SenderRtts delay path) (long : 0 < delay.leastRtt) (now : ℕ)
    {ack : SimConnectAck} (low : delay.leastRtt ≤ (millis now - ack.cid).toNat)
    (high : (millis now - ack.cid).toNat ≤ delay.mostRtt) :
    SenderRtts delay (path.onConnectAck now ack).1 := by
  have taken : (path.takeRtt now ack).rtt = millis now - ack.cid := by
    simp only [PathControl.takeRtt, PathControl.updateMinRtt]
    split_ifs <;> rfl
  have settled := Unmeasured.settle now (path.takeRtt now ack)
  have rtt : (path.onConnectAck now ack).1.rtt = millis now - ack.cid := by
    rw [PathControl.onConnectAck]
    split_ifs
    · exact settled.1.trans taken
    · exact taken
  have minRtt : (path.onConnectAck now ack).1.minRtt =
      ({ path with rtt := millis now - ack.cid }.updateMinRtt (millis now - ack.cid)).minRtt := by
    rw [PathControl.onConnectAck]
    split_ifs
    · exact settled.2
    · rfl
  generalize millis now - ack.cid = sample at low high rtt minRtt
  have positive : sample ≠ 0 := by
    rintro rfl
    exact absurd low (not_le.mpr long)
  rcases updateMinRtt_cases sample { path with rtt := sample } with ⟨eq, -⟩ | ⟨eq, set, le⟩
  · rw [← minRtt] at eq
    refine ⟨fun _ => eq ▸ low, fun _ => ?_, fun _ => eq ▸ ⟨positive, high⟩⟩
    rw [rtt]
    exact ⟨low, le_max_of_le_left high⟩
  · rw [← minRtt] at eq
    refine ⟨fun _ => eq ▸ rtts.low set, fun _ => ?_,
      fun _ => eq ▸ ⟨set, le_trans (UInt32.le_iff_toNat_le.mp le) high⟩⟩
    rw [rtt]
    exact ⟨low, le_max_of_le_left high⟩

/-- A pong updates the round trip times. -/
theorem updateRtt (rtts : SenderRtts delay path) (long : 0 < delay.leastRtt)
    (short : delay.mostRtt < 2 ^ 29) {sample stored : UInt32} {calls : List SenderCall}
    (low : delay.leastRtt ≤ sample.toNat) (high : sample.toNat ≤ delay.mostRtt)
    (updated : path.updateRtt sample stored = some (next, calls)) : SenderRtts delay next := by
  have kept : ∃ keepRtt : UInt32, delay.leastRtt ≤ keepRtt.toNat ∧
      keepRtt.toNat ≤ max delay.mostRtt 10 ∧ keepRtt ≠ 0 ∧
      next.minRtt = (path.updateMinRtt keepRtt).minRtt ∧
      next.rtt = (if (7 * path.rtt + keepRtt) / 8 < 10 then 10
        else (7 * path.rtt + keepRtt) / 8) := by
    refine ⟨if sample > 5 then sample else 5, ?_, ?_, ?_, ?_⟩
    · split_ifs with more
      · exact low
      · exact le_trans low (UInt32.le_iff_toNat_le.mp (not_lt.mp more))
    · split_ifs
      · exact le_max_of_le_left high
      · exact le_max_of_le_right (by decide)
    · split_ifs with more
      · rintro rfl
        exact absurd low (not_le.mpr long)
      · decide
    · have rtt (keepRtt : UInt32) : (path.updateMinRtt keepRtt).rtt = path.rtt := by
        rw [PathControl.updateMinRtt]
        split_ifs <;> rfl
      simp only [PathControl.updateRtt] at updated
      generalize (if sample > 5 then sample else 5) = keepRtt at updated ⊢
      have eq : next.minRtt = ((path.updateMinRtt keepRtt).smoothRtt keepRtt stored).minRtt ∧
          next.rtt = ((path.updateMinRtt keepRtt).smoothRtt keepRtt stored).rtt := by
        split_ifs at updated <;> obtain ⟨rfl, -⟩ := Prod.mk.inj (Option.some.inj updated) <;>
          exact ⟨rfl, rfl⟩
      refine ⟨eq.1, eq.2.trans ?_⟩
      rw [PathControl.smoothRtt, rtt]
  obtain ⟨keepRtt, lowKeep, highKeep, positive, minRtt, rtt⟩ := kept
  have state : next.state = path.state := (Unreported.updateRtt updated).state
  have bounded (conned : next.state = .conned) : delay.leastRtt ≤ next.rtt.toNat ∧
      next.rtt.toNat ≤ max delay.mostRtt 10 := by
    obtain ⟨lowRtt, highRtt⟩ := rtts.rtt (state.symm.trans conned)
    rw [rtt]
    exact smoothed (max_lt short (by decide)) lowRtt highRtt lowKeep highKeep (le_max_right _ _)
  rcases updateMinRtt_cases keepRtt path with ⟨eq, least⟩ | ⟨eq, set, le⟩ <;> rw [← minRtt] at eq
  · refine ⟨fun _ => eq ▸ lowKeep, bounded, fun conned => ?_⟩
    obtain ⟨set, high⟩ := rtts.minRtt (state.symm.trans conned)
    exact eq ▸ ⟨positive, le_trans (UInt32.le_iff_toNat_le.mp (least set)) high⟩
  · refine ⟨fun _ => eq ▸ rtts.low set, bounded, fun conned => ?_⟩
    exact eq ▸ rtts.minRtt (state.symm.trans conned)

/-- Every event keeps the round trip times within the bounds. -/
theorem step {pid : UInt8} {link next : Link} {event : LinkEvent} {out : List SenderCall}
    (long : 0 < delay.leastRtt) (short : delay.mostRtt < 2 ^ 29)
    (inv : LinkInv delay pid link) (rtts : SenderRtts delay link.sender)
    (handled : (Link.machine delay).step link event = some (next, out)) :
    SenderRtts delay next.sender := by
  rcases Link.step_cases handled with ⟨_, -, -, rfl, -⟩ | ⟨_, ⟨path, calls⟩, -, did, eq⟩ |
    ⟨_, -, eq⟩ | ⟨_, flight, ⟨path, calls⟩, -, found, back, arrived, eq⟩ |
    ⟨_, _, _, _, -, -, -, -, eq⟩
  · exact rtts
  · obtain ⟨rfl, rfl⟩ := Prod.mk.inj eq
    have fresh (timer : Timer) : Unmeasured link.sender (link.sender.cancel (some timer.id)) :=
      ⟨Iff.rfl, rfl, rfl⟩
    rcases PathControl.handle_cases inv.queue did with
      quiet | ⟨-, eq⟩ | ⟨timer, -, -, -, ⟨-, eq⟩ | ⟨-, eq⟩⟩ | ⟨-, -, -, rfl, rfl⟩
    · exact rtts.unmeasured (.of_quiet quiet)
    · have same := Unmeasured.sendConnect link.now link.sender
      rw [← eq] at same
      exact rtts.unmeasured same
    · have same := Unmeasured.sendConnect link.now (link.sender.cancel (some timer.id))
      rw [← eq] at same
      exact (rtts.unmeasured (fresh timer)).unmeasured same
    · have same := Unmeasured.checkPing link.now (link.sender.cancel (some timer.id))
      rw [← eq] at same
      exact (rtts.unmeasured (fresh timer)).unmeasured same
    · exact rtts.unmeasured ⟨Iff.rfl, rfl, rfl⟩
  · obtain ⟨rfl, -⟩ := Prod.mk.inj eq
    exact rtts
  · obtain ⟨rfl, rfl⟩ := Prod.mk.inj eq
    obtain ⟨ver, body, message, stamped, -⟩ := inv.toSender flight (List.mem_of_getElem? found)
    obtain ⟨strm, outcome⟩ := PathControl.recvPacket_cases message arrived
    have before : SenderRtts delay { link.sender with strm } :=
      rtts.unmeasured ⟨Iff.rfl, rfl, rfl⟩
    generalize ({ link.sender with strm } : PathControl) = started at outcome before
    rcases outcome with ⟨rfl, rfl⟩ | ⟨-, -, ⟨ack, rfl, eq⟩ | ⟨ack, rfl, rfl, rfl⟩ |
      ⟨ping, rfl, eq⟩ | ⟨pong, rfl, -, updated⟩⟩
    · exact before
    · obtain ⟨asked, there, stamp⟩ := stamped
      obtain ⟨low, high⟩ := elapsed short there back
      rw [← stamp] at low high
      have after := before.onConnectAck long link.now low high
      rwa [← eq] at after
    · exact before.unmeasured (.recvSegAck ack started)
    · obtain ⟨rfl, -⟩ := Prod.mk.inj eq
      exact before.unmeasured ⟨Iff.rfl, rfl, rfl⟩
    · obtain ⟨asked, there, stamp⟩ := stamped
      obtain ⟨low, high⟩ := elapsed short there back
      rw [← stamp] at low high
      exact before.updateRtt long short low high updated
  · obtain ⟨rfl, -⟩ := Prod.mk.inj eq
    exact rtts

end SenderRtts

/-- **The round trip times of a connected sender are within the bounds of the network.** When a
round trip takes a millisecond or more, and the clock can tell how long, then in every run the
least and the smoothed round trip time of a connected path are possible round trip times, but
that the smoothed one may be ten milliseconds. -/
theorem rtts_bounded (delay : Delay) (long : 0 < delay.leastRtt)
    (short : delay.mostRtt < 2 ^ 29) (pid : UInt8) (senderUid receiverUid : UInt32)
    (paceMode : PaceMode) (events : List LinkEvent) (link : Link) (log : List SenderCall)
    (ran : (Link.machine delay).run (Link.start pid senderUid receiverUid paceMode) events =
      some (link, log)) (conned : link.sender.state = .conned) :
    (delay.leastRtt ≤ link.sender.minRtt.toNat ∧ link.sender.minRtt.toNat ≤ delay.mostRtt) ∧
      delay.leastRtt ≤ link.sender.rtt.toNat ∧ link.sender.rtt.toNat ≤ max delay.mostRtt 10 := by
  obtain ⟨-, rtts⟩ := Machine.run_invariant
    (fun link => LinkInv delay pid link ∧ SenderRtts delay link.sender)
    (fun _ _ _ _ holds handled =>
      ⟨holds.1.step handled, SenderRtts.step long short holds.1 holds.2 handled⟩)
    ⟨.start delay pid senderUid receiverUid paceMode, fun set => absurd rfl set,
      (fun conned => nomatch conned), (fun conned => nomatch conned)⟩ ran
  obtain ⟨set, high⟩ := rtts.minRtt conned
  exact ⟨⟨rtts.low set, high⟩, rtts.rtt conned⟩

/-- A path that is asked for in time, and pings. -/
theorem rtts_bounded_repeated : ∃ link log,
    (Link.machine ⟨20000000, 30000000⟩).run (Link.start 1 7 8 .withCongestion)
        (repeated ++ [.elapse 20000000, .atReceiver 2 none, .elapse 20000000, .atSender 1]) =
      some (link, log) ∧ 40 ≤ link.sender.minRtt.toNat ∧ link.sender.rtt.toNat ≤ 61 := by
  have defined : ((Link.machine ⟨20000000, 30000000⟩).run (Link.start 1 7 8 .withCongestion)
      (repeated ++ [.elapse 20000000, .atReceiver 2 none, .elapse 20000000, .atSender 1])).any
        fun result => result.1.sender.state = .conned := by
    decide +kernel
  obtain ⟨⟨link, log⟩, ran, conned⟩ := (Option.any_eq_true ..).mp defined
  have bounds := rtts_bounded ⟨20000000, 30000000⟩ (by decide) (by decide) 1 7 8 .withCongestion _
    link log ran (of_decide_eq_true conned)
  exact ⟨link, log, ran, bounds.1.1, bounds.2.2⟩

/-! ## The receiver -/

/-- The smoothed values of a receiver are within the bounds. -/
structure ReceiverRtts (delay : Delay) (path : PathReceiver) : Prop where
  rtt : path.rtt.toNat ≤ max delay.mostRtt 10
  rttVar : path.rttVar.toNat ≤ max delay.mostRtt 10

namespace ReceiverRtts

variable {delay : Delay} {path next : PathReceiver}

theorem same (rtts : ReceiverRtts delay path) (rtt : next.rtt = path.rtt)
    (rttVar : next.rttVar = path.rttVar) : ReceiverRtts delay next :=
  ⟨rtt ▸ rtts.rtt, rttVar ▸ rtts.rttVar⟩

/-- The variation is smoothed as well. -/
theorem varied {rttVar rtt sample : UInt32} {high : ℕ}
    (highVar : rttVar.toNat ≤ high) (highRtt : rtt.toNat ≤ high)
    (highSample : sample.toNat ≤ high) (ten : 10 ≤ high) :
    (if (rttVar * 3 + PathReceiver.suAbs rtt sample) / 4 < 10 then 10
      else (rttVar * 3 + PathReceiver.suAbs rtt sample) / 4).toNat ≤ high := by
  have apart : (PathReceiver.suAbs rtt sample).toNat ≤ high := by
    rw [PathReceiver.suAbs]
    split_ifs with more
    · rw [UInt32.toNat_sub_of_le _ _ (le_of_lt more)]
      omega
    · rw [UInt32.toNat_sub_of_le _ _ (not_lt.mp more)]
      omega
  generalize PathReceiver.suAbs rtt sample = difference at apart
  have value : ((rttVar * 3 + difference) / 4).toNat ≤
      (rttVar.toNat * 3 + difference.toNat) / 4 := by
    simp only [UInt32.toNat_div, UInt32.toNat_add, UInt32.toNat_mul, UInt32.reduceToNat]
    omega
  split_ifs
  · exact ten
  · omega

/-- A pong updates the smoothed values. -/
theorem updateRtt (rtts : ReceiverRtts delay path) {sample stored : UInt32}
    (high : sample.toNat ≤ delay.mostRtt)
    (updated : path.updateRtt sample stored = some next) : ReceiverRtts delay next := by
  have kept : (if sample > 5 then sample else 5).toNat ≤ max delay.mostRtt 10 := by
    split_ifs
    · exact le_max_of_le_left high
    · exact le_max_of_le_right (by decide)
  simp only [PathReceiver.updateRtt] at updated
  generalize (if sample > 5 then sample else 5) = keepRtt at updated kept
  have after : ReceiverRtts delay (path.smoothRtt keepRtt stored) :=
    ⟨smoothed_le rtts.rtt kept (le_max_right _ _),
      varied rtts.rttVar rtts.rtt kept (le_max_right _ _)⟩
  split_ifs at updated <;> exact Option.some.inj updated ▸ ⟨after.rtt, after.rttVar⟩

/-- Every event keeps the smoothed values within the bounds. -/
theorem step {pid : UInt8} {link next : Link} {event : LinkEvent} {out : List SenderCall}
    (inv : LinkInv delay pid link)
    (rtts : ReceiverRtts delay link.receiver)
    (handled : (Link.machine delay).step link event = some (next, out)) :
    ReceiverRtts delay next.receiver := by
  rcases Link.step_cases handled with ⟨_, -, -, rfl, -⟩ | ⟨_, _, -, -, eq⟩ | ⟨other, -, eq⟩ |
    ⟨_, _, _, -, -, -, -, eq⟩ | ⟨_, _, flight, ⟨path, calls⟩, -, found, back, arrived, eq⟩
  · exact rtts
  · obtain ⟨rfl, -⟩ := Prod.mk.inj eq
    exact rtts
  · obtain ⟨rfl, -⟩ := Prod.mk.inj eq
    cases other with
    | pingTimerExpired =>
        have answers := PathReceiver.answers_pingTimerExpired link.receiver (millis link.now)
        exact rtts.same answers.rtt answers.rttVar
    | consume | disconnect | stop => exact rtts.same rfl rfl
  · obtain ⟨rfl, -⟩ := Prod.mk.inj eq
    exact rtts
  · obtain ⟨rfl, -⟩ := Prod.mk.inj eq
    obtain ⟨body, message, stamped⟩ := inv.toReceiver flight (List.mem_of_getElem? found)
    rcases PathReceiver.recvPacket_cases message arrived with
      ⟨quiet, -⟩ | ⟨strm, ⟨_, -, eq⟩ | ⟨_, -, eq⟩ | ⟨pong, rfl, -, updated⟩⟩
    · exact rtts.same quiet.rtt quiet.rttVar
    · obtain ⟨rfl, -⟩ := Prod.mk.inj eq
      exact rtts.same rfl rfl
    · obtain ⟨rfl, -⟩ := Prod.mk.inj eq
      exact rtts.same rfl rfl
    · obtain ⟨asked, there, stamp⟩ := stamped
      have high := elapsed_le there back
      rw [← stamp] at high
      have before : ReceiverRtts delay { link.receiver with strm } := rtts.same rfl rfl
      exact before.updateRtt high updated

end ReceiverRtts

/-- **The receiver does not wait longer than the network makes it.** In every run, the time for
which a path receiver waits for what is missing is at most twice the greatest round trip time,
or twice ten milliseconds, and the time of protection. -/
theorem waits_bounded (delay : Delay) (pid : UInt8) (senderUid receiverUid : UInt32)
    (paceMode : PaceMode) (events : List LinkEvent) (link : Link) (log : List SenderCall)
    (ran : (Link.machine delay).run (Link.start pid senderUid receiverUid paceMode) events =
      some (link, log)) :
    link.receiver.getWaittingDuration.toNat ≤ 2 * max delay.mostRtt 10 + 50 := by
  obtain ⟨-, rtts⟩ := Machine.run_invariant
    (fun link => LinkInv delay pid link ∧ ReceiverRtts delay link.receiver)
    (fun _ _ _ _ holds handled =>
      ⟨holds.1.step handled, ReceiverRtts.step holds.1 holds.2 handled⟩)
    ⟨.start delay pid senderUid receiverUid paceMode, Nat.zero_le _,
      le_max_of_le_right (show (5 : UInt32).toNat ≤ 10 by decide)⟩ ran
  obtain ⟨rtt, rttVar⟩ := rtts
  simp only [PathReceiver.getWaittingDuration, protectionTime, UInt32.toNat_add,
    UInt32.reduceToNat]
  omega

/-- A segment arrives, and the receiver pings. -/
def pinged : List LinkEvent :=
  repeated ++ [.sender (.put ⟨0, 1, 0, 0, 1, 0, 0, 0, 0, 0, .empty⟩),
    .sender (.timeToSendPacket 1 false 0), .elapse 30000000, .atReceiver 3 none,
    .elapse 20000000, .sender (.timerExpired 2), .elapse 5000000, .atSender 1,
    .elapse 25000000, .atReceiver 5 none]

theorem waits_bounded_pinged : ∃ link log,
    (Link.machine ⟨20000000, 30000000⟩).run (Link.start 1 7 8 .withCongestion) pinged =
      some (link, log) ∧ link.receiver.getWaittingDuration.toNat ≤ 172 := by
  have defined : ((Link.machine ⟨20000000, 30000000⟩).run (Link.start 1 7 8 .withCongestion)
      pinged).isSome := by
    decide +kernel
  obtain ⟨⟨link, log⟩, ran⟩ := Option.isSome_iff_exists.mp defined
  exact ⟨link, log, ran,
    waits_bounded ⟨20000000, 30000000⟩ 1 7 8 .withCongestion pinged link log ran⟩

end MpVideo.EndToEnd
