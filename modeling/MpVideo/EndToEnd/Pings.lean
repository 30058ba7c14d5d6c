import MpVideo.EndToEnd.RoundTrips
import MpVideo.Sender.PathTimers

/-!
# The pings of a connected path

A connected path that was not stopped has exactly one check of its pings scheduled, at any time
of any run (`check_scheduled_once`): it never stops to ping, and no second chain of pings
begins, however many acknowledgements of the connection arrive.

The next check is due after a round trip. When the acknowledgement arrives in the millisecond
of its request, this is no time at all, and the clock of the simulator stands still
(`zero_rtt_stops_clock`).
-/

set_option autoImplicit false

namespace MpVideo.EndToEnd

open Wire Sender Receiver PathControl

/-- The check of the pings is scheduled for a connected path, and not before. -/
structure Pinging (path : PathControl) : Prop where
  numbered : path.Numbered
  unscheduled : path.state ≠ .conned → path.pingTimer = none
  waits : path.state = .conned → path.stop = false → ∃ due, path.Checks due

/-- The path has the same events in the same state. -/
structure SameEvents (path next : PathControl) : Prop extends
    Numbered.SameTimers path next where
  state : next.state = path.state
  stop : next.stop = path.stop

namespace Pinging

variable {path next : PathControl} {now : ℕ}

theorem of_same (pinging : Pinging path) (same : SameEvents path next) : Pinging next where
  numbered := pinging.numbered.of_same same.toSameTimers
  unscheduled apart := by
    rw [same.pingTimer]
    exact pinging.unscheduled (same.state ▸ apart)
  waits conned running := by
    obtain ⟨due, timer, member, check⟩ :=
      pinging.waits (same.state ▸ conned) (same.stop ▸ running)
    exact ⟨due, timer, same.timers ▸ member, check⟩

theorem sendConnect (pinging : Pinging path) (now : ℕ) : Pinging (path.sendConnect now).1 := by
  have state := (Unreported.sendConnect now path).2.2
  have pingTimer : (path.sendConnect now).1.pingTimer = path.pingTimer := by
    rcases sendConnect_cases now path with ⟨-, eq⟩ | ⟨-, eq⟩ | ⟨-, eq⟩ <;> rw [eq] <;>
      simp [cancel]
  refine ⟨pinging.numbered.sendConnect now, fun apart => ?_, fun conned running => ?_⟩
  · rw [pingTimer]
    exact pinging.unscheduled (state.not.mp apart)
  · rw [(sameQueue_sendConnect now path).stop] at running
    obtain ⟨due, checks⟩ := pinging.waits (state.mp conned) running
    exact ⟨due, checks.sendConnect pinging.numbered now⟩

/-- A scheduled request runs. -/
theorem cancel_request (pinging : Pinging path) {timer : Timer} (member : timer ∈ path.timers)
    (request : timer.action = .sendConnect) : Pinging (path.cancel (some timer.id)) where
  numbered := pinging.numbered.cancel _
  unscheduled := pinging.unscheduled
  waits conned running := by
    obtain ⟨due, checks⟩ := pinging.waits conned running
    exact ⟨due, checks.cancel pinging.numbered member (by rw [request]; decide)⟩

/-- The check of the pings runs, and is scheduled again. -/
theorem checkPing (pinging : Pinging path) {timer : Timer} (member : timer ∈ path.timers)
    (check : timer.action = .checkPing) (now : ℕ) :
    Pinging ((path.cancel (some timer.id)).checkPing now).1 := by
  have ping : path.pingTimer = some timer.id := (pinging.numbered.checks timer member).mpr check
  have expired : (path.cancel (some timer.id)).isExpired
      (path.cancel (some timer.id)).pingTimer = true := by
    change (path.cancel (some timer.id)).isExpired path.pingTimer = true
    rw [ping]
    exact isExpired_cancel _ path
  have state := (Unreported.checkPing now (path.cancel (some timer.id))).state
  refine ⟨(pinging.numbered.cancel _).checkPing now, fun apart => ?_, fun _ _ =>
    ⟨_, checks_checkPing expired now⟩⟩
  rw [state] at apart
  exact nomatch (pinging.unscheduled apart).symm.trans ping

theorem stopControl (pinging : Pinging path) :
    Pinging (PathControl.cancel path.pingTimer
      { path with toPathSender := path.toPathSender.stopPath }) where
  numbered :=
    have stopped : PathControl.Numbered { path with
        toPathSender := path.toPathSender.stopPath } :=
      pinging.numbered.of_same ⟨rfl, rfl, rfl, rfl⟩
    stopped.cancel _
  unscheduled := pinging.unscheduled
  waits conned running := by
    have stopped : path.toPathSender.stopPath.stop = true := by
      rw [PathSender.stopPath]
      split_ifs with already
      · exact already
      · rfl
    cases stopped.symm.trans running

theorem sameEvents_takeRtt (now : ℕ) (ack : SimConnectAck) (path : PathControl) :
    SameEvents path (path.takeRtt now ack) := by
  simp only [takeRtt, updateMinRtt]
  split_ifs <;> exact ⟨⟨rfl, rfl, rfl, rfl⟩, rfl, rfl⟩

theorem sameEvents_configure (path : PathControl) : SameEvents path path.configure.1 := by
  rw [configure]
  split_ifs <;> exact ⟨⟨rfl, rfl, rfl, rfl⟩, rfl, rfl⟩

/-- The first acknowledgement schedules the first check, after the time of a round trip. -/
theorem checks_settle (pinging : Pinging path) (apart : path.state ≠ .conned) (now : ℕ) :
    (path.settle now).1.Checks (now + path.rtt.toNat * millisecond) := by
  have same := sameEvents_configure path
  have expired : path.configure.1.isExpired path.configure.1.pingTimer = true := by
    rw [same.pingTimer, pinging.unscheduled apart]
    exact isExpired_none _
  have rtt : path.configure.1.rtt = path.rtt := by
    rw [configure]
    split_ifs <;> rfl
  have checks := checks_checkPing expired now
  rw [rtt] at checks
  exact checks

theorem onConnectAck (pinging : Pinging path) (now : ℕ) (ack : SimConnectAck) :
    Pinging (path.onConnectAck now ack).1 := by
  have taken := pinging.of_same (sameEvents_takeRtt now ack path)
  rw [PathControl.onConnectAck]
  split_ifs with apart
  · exact {
      numbered := ((taken.numbered.of_same (sameEvents_configure _).toSameTimers).checkPing
        now).of_same ⟨rfl, rfl, rfl, rfl⟩
      unscheduled := fun apart => absurd rfl apart
      waits := fun _ _ => ⟨_, taken.checks_settle apart now⟩ }
  · exact taken

theorem sameEvents_recvSegAck (ack : SimSegmentAck) (path : PathControl) :
    SameEvents path (path.recvSegAck ack) := by
  rw [recvSegAck]
  split_ifs <;> exact ⟨⟨rfl, rfl, rfl, rfl⟩, rfl, rfl⟩

theorem sameEvents_updateRtt {time stored : UInt32} {calls : List SenderCall}
    (updated : path.updateRtt time stored = some (next, calls)) : SameEvents path next := by
  have measured (keepRtt : UInt32) :
      SameEvents path ((path.updateMinRtt keepRtt).smoothRtt keepRtt stored) := by
    rw [updateMinRtt]
    split_ifs <;> exact ⟨⟨rfl, rfl, rfl, rfl⟩, rfl, rfl⟩
  simp only [updateRtt] at updated
  generalize (if time > 5 then time else 5) = keepRtt at updated
  obtain ⟨⟨timers, nextTimer, rxTimer, pingTimer⟩, state, stop⟩ := measured keepRtt
  split_ifs at updated <;> obtain ⟨rfl, -⟩ := Prod.mk.inj (Option.some.inj updated) <;>
    exact ⟨⟨timers, nextTimer, rxTimer, pingTimer⟩, state, stop⟩

theorem sameEvents_of_quiet {calls : List SenderCall} (quiet : Quiet path (next, calls)) :
    SameEvents path next := by
  have stop : next.stop = path.stop := quiet.stop
  obtain ⟨queue, rate, sRate, eq⟩ := quiet.kept
  dsimp only at eq
  subst eq
  exact ⟨⟨rfl, rfl, rfl, rfl⟩, rfl, stop⟩

end Pinging

/-- The check is scheduled at any time, and the clock has not passed an event. -/
structure Scheduled (link : Link) : Prop where
  pinging : Pinging link.sender
  later : link.sender.Later link.now

namespace Scheduled

variable {delay : Delay} {pid : UInt8} {link next : Link} {out : List SenderCall}

theorem of_same (scheduled : Scheduled link) {path : PathControl}
    (same : SameEvents link.sender path) : Pinging path ∧ path.Later link.now :=
  ⟨scheduled.pinging.of_same same, fun timer member => scheduled.later timer (same.timers ▸ member)⟩

/-- Whatever the sender does of its own accord. -/
theorem handle (scheduled : Scheduled link) (queue : link.sender.Holds LegalSegment)
    {event : ControlEvent} {path : PathControl} {calls : List SenderCall}
    (handled : link.sender.handle link.now event = some (path, calls)) :
    Pinging path ∧ path.Later link.now := by
  obtain ⟨pinging, later⟩ := scheduled
  rcases handle_cases queue handled with
    quiet | ⟨-, eq⟩ | ⟨timer, member, -, -, ⟨request, eq⟩ | ⟨check, eq⟩⟩ | ⟨-, -, -, -, rfl⟩
  · exact Scheduled.of_same ⟨pinging, later⟩ (Pinging.sameEvents_of_quiet quiet)
  · obtain ⟨rfl, -⟩ := Prod.mk.inj eq
    exact ⟨pinging.sendConnect link.now, later.sendConnect⟩
  · obtain ⟨rfl, -⟩ := Prod.mk.inj eq
    exact ⟨(pinging.cancel_request member request).sendConnect link.now,
      (later.cancel _).sendConnect⟩
  · obtain ⟨rfl, -⟩ := Prod.mk.inj eq
    exact ⟨pinging.checkPing member check link.now, (later.cancel _).checkPing⟩
  · have stopped : Later link.now
        { link.sender with toPathSender := link.sender.toPathSender.stopPath } := later
    exact ⟨pinging.stopControl, stopped.cancel _⟩

/-- A datagram arrives at the sender. -/
theorem recvPacket (scheduled : Scheduled link) {ver : UInt8} {body : SimBody}
    {bytes : List UInt8} (message : Message ver body bytes) {path : PathControl}
    {calls : List SenderCall}
    (arrived : link.sender.recvPacket link.now bytes = some (path, calls)) :
    Pinging path ∧ path.Later link.now := by
  obtain ⟨strm, outcome⟩ := recvPacket_cases message arrived
  have before : Pinging { link.sender with strm } ∧
      Later link.now { link.sender with strm } :=
    scheduled.of_same ⟨⟨rfl, rfl, rfl, rfl⟩, rfl, rfl⟩
  generalize ({ link.sender with strm } : PathControl) = started at outcome before
  obtain ⟨pinging, later⟩ := before
  have keeps {path : PathControl} (same : SameEvents started path) :
      Pinging path ∧ path.Later link.now :=
    ⟨pinging.of_same same, fun timer member => later timer (same.timers ▸ member)⟩
  rcases outcome with ⟨rfl, -⟩ | ⟨-, -, ⟨ack, rfl, eq⟩ | ⟨ack, rfl, rfl, -⟩ |
    ⟨ping, rfl, eq⟩ | ⟨pong, rfl, -, updated⟩⟩
  · exact ⟨pinging, later⟩
  · have acknowledged := pinging.onConnectAck link.now ack
    have taken : (started.takeRtt link.now ack).Later link.now := fun timer member =>
      later timer ((Pinging.sameEvents_takeRtt link.now ack started).timers ▸ member)
    have after : (started.onConnectAck link.now ack).1.Later link.now := by
      rw [PathControl.onConnectAck]
      split_ifs
      · have configured : (started.takeRtt link.now ack).configure.1.Later link.now :=
          fun timer member => taken timer
            ((Pinging.sameEvents_configure (started.takeRtt link.now ack)).timers ▸ member)
        exact configured.checkPing
      · exact taken
    rw [← eq] at acknowledged after
    exact ⟨acknowledged, after⟩
  · exact keeps (Pinging.sameEvents_recvSegAck ack started)
  · obtain ⟨rfl, -⟩ := Prod.mk.inj eq
    exact keeps ⟨⟨rfl, rfl, rfl, rfl⟩, rfl, rfl⟩
  · exact keeps (Pinging.sameEvents_updateRtt updated)

/-- Every event keeps the check scheduled. -/
theorem step (inv : LinkInv delay pid link) (scheduled : Scheduled link) {event : LinkEvent}
    (handled : (Link.machine delay).step link event = some (next, out)) : Scheduled next := by
  rcases Link.step_cases handled with ⟨duration, -, early, rfl, -⟩ |
    ⟨_, ⟨path, calls⟩, -, did, eq⟩ | ⟨_, -, eq⟩ |
    ⟨_, flight, ⟨path, calls⟩, -, found, -, arrived, eq⟩ | ⟨_, _, _, _, -, -, -, -, eq⟩
  · exact ⟨scheduled.pinging, early⟩
  · obtain ⟨rfl, -⟩ := Prod.mk.inj eq
    obtain ⟨pinging, later⟩ := scheduled.handle inv.queue did
    exact ⟨pinging, later⟩
  · obtain ⟨rfl, -⟩ := Prod.mk.inj eq
    exact ⟨scheduled.pinging, scheduled.later⟩
  · obtain ⟨rfl, -⟩ := Prod.mk.inj eq
    obtain ⟨ver, body, message, -, -⟩ := inv.toSender flight (List.mem_of_getElem? found)
    obtain ⟨pinging, later⟩ := scheduled.recvPacket message arrived
    exact ⟨pinging, later⟩
  · obtain ⟨rfl, -⟩ := Prod.mk.inj eq
    exact ⟨scheduled.pinging, scheduled.later⟩

theorem start (pid : UInt8) (senderUid receiverUid : UInt32) (paceMode : PaceMode) :
    Scheduled (Link.start pid senderUid receiverUid paceMode) where
  pinging := {
    numbered := {
      below := fun _ member => absurd member List.not_mem_nil
      nodup := List.nodup_nil
      checks := fun _ member => absurd member List.not_mem_nil
      pingTimer := fun _ ping => nomatch ping
      rxTimer := fun _ rx => nomatch rx }
    unscheduled := fun _ => rfl
    waits := fun conned => nomatch conned }
  later _ member := absurd member List.not_mem_nil

end Scheduled

/-- **A connected path pings for ever, in one chain.** In every run, however many
acknowledgements arrive, a connected path that was not stopped has exactly one check of its
pings scheduled, and the clock has not passed it. -/
theorem check_scheduled_once (delay : Delay) (pid : UInt8) (senderUid receiverUid : UInt32)
    (paceMode : PaceMode) (events : List LinkEvent) (link : Link) (log : List SenderCall)
    (ran : (Link.machine delay).run (Link.start pid senderUid receiverUid paceMode) events =
      some (link, log)) (conned : link.sender.state = .conned)
    (running : link.sender.stop = false) :
    ∃ timer, link.sender.timers.filter (·.action = .checkPing) = [timer] ∧
      link.now ≤ timer.due := by
  obtain ⟨-, pinging, later⟩ := Machine.run_invariant
    (fun link => LinkInv delay pid link ∧ Scheduled link)
    (fun _ _ _ _ holds handled => ⟨holds.1.step handled, holds.2.step holds.1 handled⟩)
    ⟨.start delay pid senderUid receiverUid paceMode,
      .start pid senderUid receiverUid paceMode⟩ ran
  obtain ⟨due, timer, member, check, rfl⟩ := pinging.waits conned running
  exact ⟨timer, pinging.numbered.filter_checks member check, later timer member⟩

theorem check_scheduled_once_pinged : ∃ link log,
    (Link.machine ⟨20000000, 30000000⟩).run (Link.start 1 7 8 .withCongestion) pinged =
      some (link, log) ∧
    ∃ timer, link.sender.timers.filter (·.action = .checkPing) = [timer] ∧
      link.now ≤ timer.due := by
  have defined : ((Link.machine ⟨20000000, 30000000⟩).run (Link.start 1 7 8 .withCongestion)
      pinged).any fun result =>
        result.1.sender.state = .conned ∧ result.1.sender.stop = false := by
    decide +kernel
  obtain ⟨⟨link, log⟩, ran, good⟩ := (Option.any_eq_true ..).mp defined
  obtain ⟨conned, running⟩ := of_decide_eq_true good
  exact ⟨link, log, ran, check_scheduled_once ⟨20000000, 30000000⟩ 1 7 8 .withCongestion pinged
    link log ran conned running⟩

/-! ## No time for a round trip -/

/-- A check is due now, and will be due again after no time. -/
structure Frozen (time answers : ℕ) (link : Link) : Prop where
  now : link.now = time
  conned : link.sender.state = .conned
  running : link.sender.stop = false
  rtt : link.sender.rtt = 0
  checks : link.sender.Checks time
  answers : ∀ flight ∈ link.toSender.drop answers, flight.sentAt = time

namespace Frozen

variable {delay : Delay} {pid : UInt8} {time answers : ℕ} {link next : Link}
  {out : List SenderCall}

/-- The receiver does something: what it sends is sent now. -/
theorem answered (frozen : Frozen time answers link) (result : PathReceiver × List PathCall) :
    Frozen time answers (link.answers result).1 where
  now := frozen.now
  conned := frozen.conned
  running := frozen.running
  rtt := frozen.rtt
  checks := frozen.checks
  answers flight member := by
    simp only [Link.answers, List.drop_append] at member
    rcases List.mem_append.mp member with old | new
    · exact frozen.answers flight old
    · obtain ⟨bytes, -, rfl⟩ := List.mem_map.mp (List.mem_of_mem_drop new)
      exact frozen.now

/-- The sender does something that neither stops it nor measures a round trip time. -/
theorem sent (frozen : Frozen time answers link) {path : PathControl} {calls : List SenderCall}
    (same : Unmeasured link.sender path) (running : path.stop = link.sender.stop)
    (checks : path.Checks time) : Frozen time answers (link.sends (path, calls)).1 where
  now := frozen.now
  conned := same.state.mpr frozen.conned
  running := running.trans frozen.running
  rtt := same.rtt.trans frozen.rtt
  checks := checks
  answers := frozen.answers

/-- Whatever the sender does of its own accord but stopping. -/
theorem handle (frozen : Frozen time answers link) (queue : link.sender.Holds LegalSegment)
    (pinging : Pinging link.sender) {event : ControlEvent} (goesOn : event ≠ .stop)
    {path : PathControl} {calls : List SenderCall}
    (handled : link.sender.handle link.now event = some (path, calls)) :
    Frozen time answers (link.sends (path, calls)).1 := by
  rcases handle_cases queue handled with
    quiet | ⟨-, eq⟩ | ⟨timer, member, -, due, ⟨request, eq⟩ | ⟨check, eq⟩⟩ | ⟨stop, -⟩
  · obtain ⟨other, scheduled, check⟩ := frozen.checks
    have same := Pinging.sameEvents_of_quiet quiet
    exact frozen.sent (.of_quiet quiet) same.stop ⟨other, same.timers ▸ scheduled, check⟩
  · have same := Unmeasured.sendConnect link.now link.sender
    have stop := (sameQueue_sendConnect link.now link.sender).stop
    have checks := frozen.checks.sendConnect pinging.numbered link.now
    rw [← eq] at same stop checks
    exact frozen.sent same stop checks
  · have same := Unmeasured.sendConnect link.now (link.sender.cancel (some timer.id))
    have stop := (sameQueue_sendConnect link.now (link.sender.cancel (some timer.id))).stop
    have checks := (frozen.checks.cancel pinging.numbered member (by rw [request]; decide)
      ).sendConnect (pinging.numbered.cancel _) link.now
    rw [← eq] at same stop checks
    exact frozen.sent ⟨same.state, same.rtt, same.minRtt⟩ stop checks
  · have ping : link.sender.pingTimer = some timer.id :=
      (pinging.numbered.checks timer member).mpr check
    have expired : (link.sender.cancel (some timer.id)).isExpired
        (link.sender.cancel (some timer.id)).pingTimer = true := by
      change (link.sender.cancel (some timer.id)).isExpired link.sender.pingTimer = true
      rw [ping]
      exact isExpired_cancel _ _
    have same := Unmeasured.checkPing link.now (link.sender.cancel (some timer.id))
    have stop := (sameQueue_checkPing link.now (link.sender.cancel (some timer.id))).stop
    have checks := checks_checkPing expired link.now
    have rtt : (link.sender.cancel (some timer.id)).rtt = 0 := frozen.rtt
    rw [rtt, frozen.now] at checks
    rw [frozen.now] at eq same stop
    rw [← eq] at same stop checks
    exact frozen.sent ⟨same.state, same.rtt, same.minRtt⟩ stop (by simpa using checks)
  · exact absurd stop goesOn

/-- Time stands still. -/
theorem step (positive : 0 < delay.least) (inv : LinkInv delay pid link)
    (scheduled : Scheduled link) (frozen : Frozen time answers link) {event : LinkEvent}
    (goesOn : event ≠ .sender .stop) (later : ∀ n, event = .atSender n → answers ≤ n)
    (handled : (Link.machine delay).step link event = some (next, out)) :
    Frozen time answers next := by
  rcases Link.step_cases handled with ⟨duration, -, early, rfl, -⟩ |
    ⟨control, ⟨path, calls⟩, rfl, did, eq⟩ | ⟨_, -, eq⟩ |
    ⟨n, flight, ⟨path, calls⟩, rfl, found, flown, -, eq⟩ | ⟨_, _, _, _, -, -, -, -, eq⟩
  · obtain ⟨timer, member, -, due⟩ := frozen.checks
    have still := early timer member
    have before := frozen.now
    have now : link.now + duration = time := by omega
    exact ⟨now, frozen.conned, frozen.running, frozen.rtt, frozen.checks, frozen.answers⟩
  · obtain ⟨rfl, -⟩ := Prod.mk.inj eq
    exact frozen.handle inv.queue scheduled.pinging (fun stop => goesOn (stop ▸ rfl)) did
  · obtain ⟨rfl, -⟩ := Prod.mk.inj eq
    exact frozen.answered _
  · obtain ⟨low, -⟩ := flown
    have place : (link.toSender.drop answers)[n - answers]? = some flight := by
      rw [List.getElem?_drop, Nat.add_sub_cancel' (later n rfl)]
      exact found
    have sentAt := frozen.answers flight (List.mem_of_getElem? place)
    have now := frozen.now
    omega
  · obtain ⟨rfl, -⟩ := Prod.mk.inj eq
    exact frozen.answered _

/-- The acknowledgement that connects a path in no time. -/
theorem of_connect (inv : LinkInv delay pid link) (scheduled : Scheduled link) {n : ℕ}
    (apart : link.sender.state ≠ .conned)
    (connects : (Link.machine delay).step link (.atSender n) = some (next, out))
    (conned : next.sender.state = .conned) (zero : next.sender.rtt = 0) :
    Frozen link.now next.toSender.length next := by
  rcases Link.step_cases connects with ⟨_, event, -⟩ | ⟨_, _, event, -⟩ | ⟨_, event, -⟩ |
    ⟨_, flight, ⟨path, calls⟩, -, found, -, arrived, eq⟩ | ⟨_, _, _, _, event, -⟩
  · cases event
  · cases event
  · cases event
  · obtain ⟨rfl, -⟩ := Prod.mk.inj eq
    obtain ⟨ver, body, message, -, -⟩ := inv.toSender flight (List.mem_of_getElem? found)
    obtain ⟨strm, outcome⟩ := recvPacket_cases message arrived
    have before : Pinging { link.sender with strm } :=
      scheduled.pinging.of_same ⟨⟨rfl, rfl, rfl, rfl⟩, rfl, rfl⟩
    have still : ({ link.sender with strm } : PathControl).state ≠ .conned := apart
    have stop : ({ link.sender with strm } : PathControl).stop = link.sender.stop := rfl
    generalize ({ link.sender with strm } : PathControl) = started at outcome before still stop
    rcases outcome with ⟨rfl, -⟩ | ⟨running, -, ⟨ack, rfl, eq⟩ | ⟨ack, rfl, rfl, -⟩ |
      ⟨ping, rfl, eq⟩ | ⟨pong, rfl, -, updated⟩⟩
    · exact absurd conned still
    · have taken := Pinging.sameEvents_takeRtt link.now ack started
      have unsettled : (started.takeRtt link.now ack).state ≠ .conned := taken.state ▸ still
      have settles : started.onConnectAck link.now ack =
          (started.takeRtt link.now ack).settle link.now := by
        rw [PathControl.onConnectAck]
        exact if_pos unsettled
      have checks := (before.of_same taken).checks_settle unsettled link.now
      have rtt := (Unmeasured.settle link.now (started.takeRtt link.now ack)).1
      have same := sameQueue_onConnectAck link.now ack started
      rw [← settles, ← eq] at checks rtt
      rw [← eq] at same
      have none : (started.takeRtt link.now ack).rtt = 0 := rtt.symm.trans zero
      rw [none] at checks
      exact ⟨rfl, conned, same.stop.trans (stop.trans running), zero, by simpa using checks,
        fun flight member => absurd member (by simp)⟩
    · exact absurd conned (by rw [(Pinging.sameEvents_recvSegAck ack started).state]; exact still)
    · obtain ⟨rfl, -⟩ := Prod.mk.inj eq
      exact absurd conned still
    · exact absurd conned (by rw [(Pinging.sameEvents_updateRtt updated).state]; exact still)
  · cases event

end Frozen

/-- **When a path is connected within a millisecond, the clock of the simulator stands still.**
However a run goes on from there, as long as the path is not stopped and no datagram arrives
at this very time that the receiver had sent before, no time passes. -/
theorem zero_rtt_stops_clock (delay : Delay) (positive : 0 < delay.least) (pid : UInt8)
    (senderUid receiverUid : UInt32) (paceMode : PaceMode) (events more : List LinkEvent) (n : ℕ)
    (link next last : Link) (log out added : List SenderCall)
    (ran : (Link.machine delay).run (Link.start pid senderUid receiverUid paceMode) events =
      some (link, log))
    (apart : link.sender.state ≠ .conned)
    (connects : (Link.machine delay).step link (.atSender n) = some (next, out))
    (conned : next.sender.state = .conned) (zero : next.sender.rtt = 0)
    (onwards : (Link.machine delay).run next more = some (last, added))
    (goesOn : ∀ event ∈ more, event ≠ .sender .stop ∧
      ∀ m, event = .atSender m → next.toSender.length ≤ m) :
    last.now = link.now := by
  obtain ⟨inv, scheduled⟩ := Machine.run_invariant
    (fun link => LinkInv delay pid link ∧ Scheduled link)
    (fun _ _ _ _ holds handled => ⟨holds.1.step handled, holds.2.step holds.1 handled⟩)
    ⟨.start delay pid senderUid receiverUid paceMode,
      .start pid senderUid receiverUid paceMode⟩ ran
  have frozen : Frozen link.now next.toSender.length next :=
    .of_connect inv scheduled apart connects conned zero
  have along : (Link.machine delay).Along (fun _ event => event ≠ .sender .stop ∧
      ∀ m, event = .atSender m → next.toSender.length ≤ m) next more :=
    Machine.along_of_events next goesOn
  have final := Machine.run_along_invariant
    (fun link' => LinkInv delay pid link' ∧ Scheduled link' ∧
      Frozen link.now next.toSender.length link')
    (fun _ _ _ _ holds allowed handled =>
      ⟨holds.1.step handled, holds.2.1.step holds.1 handled,
        holds.2.2.step positive holds.1 holds.2.1 allowed.1 allowed.2 handled⟩)
    along ⟨inv.step connects, scheduled.step inv connects, frozen⟩ onwards
  exact final.2.2.now

/-- A connection whose acknowledgement is about to arrive after four hundred microseconds. -/
def shortConnect : List LinkEvent :=
  [.sender .connect, .elapse 200000, .atReceiver 0 none, .elapse 200000]

/-- Three pings, and the clock is let go on. -/
def shortPings : List LinkEvent :=
  [.sender (.timerExpired 1), .elapse 0, .sender (.timerExpired 2), .sender (.timerExpired 3)]

/-- A round trip of four hundred microseconds, and three pings. -/
theorem zero_rtt_stops_clock_short : ∃ link last first second,
    (Link.machine ⟨200000, 200000⟩).run (Link.start 1 7 8 .withCongestion) shortConnect =
        some (link, first) ∧
      (Link.machine ⟨200000, 200000⟩).run link (.atSender 0 :: shortPings) =
        some (last, second) ∧
      last.now = link.now ∧ last.toReceiver.length = 5 := by
  let delay : Delay := ⟨200000, 200000⟩
  let machine := Link.machine delay
  have defined : (machine.run (Link.start 1 7 8 .withCongestion)
      (shortConnect ++ (.atSender 0 :: shortPings))).any fun result =>
        result.1.toReceiver.length = 5 := by
    decide +kernel
  obtain ⟨⟨last, log⟩, all, length⟩ := (Option.any_eq_true ..).mp defined
  obtain ⟨link, first, second, ran, later, -⟩ := Machine.run_append.mp all
  obtain ⟨next, out, added, connects, onwards, -⟩ := Machine.run_cons.mp later
  have before : (machine.run (Link.start 1 7 8 .withCongestion) shortConnect).all fun result =>
      result.1.sender.state ≠ .conned := by
    decide +kernel
  have after : (machine.run (Link.start 1 7 8 .withCongestion) (shortConnect ++ [.atSender 0])).all
      fun result => result.1.sender.state = .conned ∧ result.1.sender.rtt = 0 := by
    decide +kernel
  have single : machine.run link [.atSender 0] = some (next, out ++ []) :=
    Machine.run_cons.mpr ⟨next, out, [], connects, rfl, rfl⟩
  have reached := Machine.run_trans ran single
  rw [ran] at before
  rw [reached] at after
  obtain ⟨conned, zero⟩ := of_decide_eq_true after
  refine ⟨link, last, first, second, ran, later, ?_, of_decide_eq_true length⟩
  refine zero_rtt_stops_clock delay (by decide) 1 7 8 .withCongestion shortConnect shortPings 0
    link next last _ out added ran (of_decide_eq_true before) connects conned zero onwards ?_
  intro event member
  simp only [shortPings, List.mem_cons, List.not_mem_nil, or_false] at member
  rcases member with rfl | rfl | rfl | rfl <;> exact ⟨by simp, by simp⟩

end MpVideo.EndToEnd
