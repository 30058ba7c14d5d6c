import MpVideo.EndToEnd.Link

/-!
# The connection of a path

A path reports itself as usable when the first acknowledgement of its connection arrives, and
never again, whatever the network loses, repeats and reorders, and however often the
connection is asked for. By then the receiver has the id of the path (`reported_once`).
-/

set_option autoImplicit false

namespace MpVideo.EndToEnd

open Wire Sender Receiver

/-- The path that a call reports as usable. -/
def reported : SenderCall → Option UInt8
  | .notifyPathUsable pid => some pid
  | _ => none

/-- The path went on without its connection: it did not report itself. -/
structure Unreported (path : PathControl) (result : PathControl × List SenderCall) : Prop where
  state : result.1.state = path.state
  controller : result.1.controller = path.controller
  calls : result.2.filterMap reported = []

namespace Unreported

variable {path next : PathControl} {calls : List SenderCall}

theorem sendMsg (body : SimBody) (path : PathControl) : Unreported path (path.sendMsg body) := by
  refine ⟨rfl, rfl, ?_⟩
  simp only [PathControl.sendMsg, PathControl.sendToNetwork]
  split_ifs <;> rfl

theorem of_quiet (quiet : PathControl.Quiet path (next, calls)) :
    Unreported path (next, calls) := by
  obtain ⟨queue, rate, sRate, eq⟩ := quiet.kept
  dsimp only at eq
  subst eq
  refine ⟨rfl, rfl, List.filterMap_eq_nil_iff.mpr fun call member => ?_⟩
  rcases quiet.calls call member with ⟨-, -, -, -, rfl⟩ | ⟨-, -, -, rfl⟩ <;> rfl

theorem checkPing (now : ℕ) (path : PathControl) : Unreported path (path.checkPing now) := by
  rw [PathControl.checkPing_eq]
  split_ifs
  · exact ⟨rfl, rfl, (sendMsg _ path).calls⟩
  · exact ⟨rfl, rfl, rfl⟩

theorem updateRtt {time stored : UInt32}
    (updated : path.updateRtt time stored = some (next, calls)) :
    Unreported path (next, calls) := by
  have calls (average max : UInt32) (path : PathControl) :
      (path.rttCalls average max).filterMap reported = [] := by
    rw [PathControl.rttCalls]
    split_ifs <;> rfl
  have state (keepRtt : UInt32) :
      ((path.updateMinRtt keepRtt).smoothRtt keepRtt stored).state = path.state ∧
      ((path.updateMinRtt keepRtt).smoothRtt keepRtt stored).controller = path.controller := by
    rw [PathControl.updateMinRtt]
    split_ifs <;> exact ⟨rfl, rfl⟩
  simp only [PathControl.updateRtt] at updated
  split_ifs at updated <;> obtain ⟨rfl, rfl⟩ := Prod.mk.inj (Option.some.inj updated) <;>
    exact ⟨(state _).1, (state _).2, calls _ _ _⟩

theorem recvSegAck (ack : SimSegmentAck) (path : PathControl) :
    Unreported path (path.recvSegAck ack, []) := by
  rw [PathControl.recvSegAck]
  split_ifs <;> exact ⟨rfl, rfl, rfl⟩

/-- The calls of a request are datagrams. -/
theorem sendConnect (now : ℕ) (path : PathControl) :
    (path.sendConnect now).2.filterMap reported = [] ∧
      (path.sendConnect now).1.controller = path.controller ∧
      ((path.sendConnect now).1.state = .conned ↔ path.state = .conned) := by
  have scheduled (path : PathControl) : (path.scheduleRequest now).controller = path.controller ∧
      (path.scheduleRequest now).state = .conning := ⟨rfl, rfl⟩
  rcases PathControl.sendConnect_cases now path with ⟨open_, eq⟩ | ⟨conned, eq⟩ | ⟨discon, eq⟩ <;>
    rw [eq]
  · dsimp only
    refine ⟨(sendMsg _ path).calls, (scheduled _).1.trans (sendMsg _ path).controller, ?_⟩
    rw [(scheduled _).2]
    rcases open_ with state | state <;> simp [state]
  · exact ⟨rfl, rfl, Iff.rfl⟩
  · exact ⟨rfl, rfl, Iff.rfl⟩

end Unreported

/-- The first acknowledgement of the connection reports the path, and no other one does. -/
theorem reported_onConnectAck (now : ℕ) (ack : SimConnectAck) (path : PathControl) :
    (path.onConnectAck now ack).1.state = .conned ∧
      (path.onConnectAck now ack).2.filterMap reported =
        if path.state = .conned then [] else [path.pid] := by
  have taken : (path.takeRtt now ack).state = path.state ∧
      (path.takeRtt now ack).pid = path.pid := by
    simp only [PathControl.takeRtt, PathControl.updateMinRtt]
    split_ifs <;> exact ⟨rfl, rfl⟩
  rw [PathControl.onConnectAck]
  simp only [taken.1]
  generalize path.takeRtt now ack = started at taken
  by_cases conned : path.state = .conned
  · rw [if_neg (not_not.mpr conned), if_pos conned]
    exact ⟨taken.1.trans conned, rfl⟩
  · have configured : started.configure.2.filterMap reported = [] := by
      rw [PathControl.configure]
      split_ifs <;> rfl
    have pings := Unreported.checkPing now started.configure.1
    have pid : (started.configure.1.checkPing now).1.pid = path.pid :=
      ((PathControl.sameQueue_checkPing now _).pid.trans
        (PathControl.sameQueue_configure started).pid).trans taken.2
    have calls : (started.settle now).2 = started.configure.2 ++
        ((started.configure.1.checkPing now).2 ++
          [.notifyPathUsable (started.configure.1.checkPing now).1.pid]) := rfl
    rw [if_pos conned, if_neg conned, calls]
    refine ⟨rfl, ?_⟩
    simp only [List.filterMap_append, configured, pings.calls, List.nil_append, pid]
    rfl

/-! ## Agreement -/

/-- A path was reported if and only if it is connected, and then the receiver has its id. -/
structure Agreed (pid : UInt8) (link : Link) (log : List SenderCall) : Prop where
  log_eq : log.filterMap reported = if link.sender.state = .conned then [pid] else []
  receiver : link.sender.state = .conned → link.receiver.pid = pid

variable {delay : Delay} {pid : UInt8} {link next : Link} {out log : List SenderCall}

/-- The receiver keeps its id, or takes that of the path. -/
theorem LinkInv.receiver_pid (inv : LinkInv delay pid link) {event : LinkEvent}
    (handled : (Link.machine delay).step link event = some (next, out)) :
    next.receiver.pid = link.receiver.pid ∨ next.receiver.pid = pid := by
  rcases Link.step_cases handled with ⟨_, -, -, rfl, -⟩ | ⟨_, result, -, -, eq⟩ |
    ⟨other, -, eq⟩ | ⟨_, _, result, -, -, -, -, eq⟩ |
    ⟨_, _, flight, ⟨path, calls⟩, -, found, -, arrived, eq⟩
  · exact .inl rfl
  · obtain ⟨rfl, -⟩ := Prod.mk.inj eq
    exact .inl rfl
  · obtain ⟨rfl, -⟩ := Prod.mk.inj eq
    cases other with
    | pingTimerExpired =>
        exact .inl (PathReceiver.answers_pingTimerExpired link.receiver (millis link.now)).pid
    | consume | disconnect | stop => exact .inl rfl
  · obtain ⟨rfl, -⟩ := Prod.mk.inj eq
    exact .inl rfl
  · obtain ⟨rfl, -⟩ := Prod.mk.inj eq
    obtain ⟨body, message, -⟩ := inv.toReceiver flight (List.mem_of_getElem? found)
    rcases PathReceiver.recvPacket_cases message arrived with
      ⟨quiet, -⟩ | ⟨strm, ⟨_, -, eq⟩ | ⟨_, -, eq⟩ | ⟨_, -, -, updated⟩⟩
    · exact .inl quiet.pid
    · obtain ⟨rfl, -⟩ := Prod.mk.inj eq
      exact .inr rfl
    · obtain ⟨rfl, -⟩ := Prod.mk.inj eq
      exact .inl rfl
    · have same := PathReceiver.updateRtt_pid updated
      exact .inl same

/-- A step at the sender that does not report the path. -/
theorem Agreed.unreported (agreed : Agreed pid link log)
    (state : next.sender.state = .conned ↔ link.sender.state = .conned)
    (calls : out.filterMap reported = [])
    (receiver : next.receiver.pid = link.receiver.pid ∨ next.receiver.pid = pid) :
    Agreed pid next (log ++ out) where
  log_eq := by
    rw [List.filterMap_append, calls, List.append_nil, agreed.log_eq]
    exact if_congr state.symm rfl rfl
  receiver conned := receiver.elim (fun same => same.trans (agreed.receiver (state.mp conned))) id

theorem Agreed.sends (agreed : Agreed pid link log) {before path : PathControl}
    {calls : List SenderCall} (unreported : Unreported before (path, calls))
    (same : before.state = link.sender.state) :
    Agreed pid (link.sends (path, calls)).1 (log ++ calls) := by
  refine agreed.unreported ?_ unreported.calls (.inl rfl)
  rw [← same, ← unreported.state]
  rfl

/-- Every event keeps the agreement. -/
theorem Agreed.step (inv : LinkInv delay pid link) (agreed : Agreed pid link log)
    {event : LinkEvent} (handled : (Link.machine delay).step link event = some (next, out)) :
    Agreed pid next (log ++ out) := by
  have receiver := inv.receiver_pid handled
  rcases Link.step_cases handled with ⟨_, -, -, rfl, rfl⟩ | ⟨_, ⟨path, calls⟩, -, did, eq⟩ |
    ⟨_, -, eq⟩ | ⟨_, flight, ⟨path, calls⟩, -, found, -, arrived, eq⟩ | ⟨_, _, _, _, -, -, -, -, eq⟩
  · exact agreed.unreported Iff.rfl rfl receiver
  · obtain ⟨rfl, rfl⟩ := Prod.mk.inj eq
    have requests (before : PathControl) (same : before.state = link.sender.state)
        (eq : (path, out) = before.sendConnect link.now) :
        Agreed pid (link.sends (path, out)).1 (log ++ out) := by
      obtain ⟨silent, -, state⟩ := Unreported.sendConnect link.now before
      rw [← eq] at silent state
      exact agreed.unreported (same ▸ state) silent (.inl rfl)
    rcases PathControl.handle_cases inv.queue did with
      quiet | ⟨-, eq⟩ | ⟨timer, -, -, -, ⟨-, eq⟩ | ⟨-, eq⟩⟩ | ⟨-, -, -, rfl, rfl⟩
    · exact agreed.sends (.of_quiet quiet) rfl
    · exact requests link.sender rfl eq
    · exact requests (link.sender.cancel (some timer.id)) rfl eq
    · have unreported := Unreported.checkPing link.now (link.sender.cancel (some timer.id))
      rw [← eq] at unreported
      exact agreed.sends unreported rfl
    · exact agreed.unreported Iff.rfl rfl receiver
  · obtain ⟨rfl, rfl⟩ := Prod.mk.inj eq
    exact agreed.unreported Iff.rfl rfl receiver
  · obtain ⟨rfl, rfl⟩ := Prod.mk.inj eq
    obtain ⟨ver, body, message, -, acknowledged⟩ :=
      inv.toSender flight (List.mem_of_getElem? found)
    obtain ⟨strm, ⟨rfl, rfl⟩ | ⟨-, -, ⟨ack, rfl, eq⟩ | ⟨ack, rfl, rfl, rfl⟩ | ⟨ping, rfl, eq⟩ |
      ⟨pong, rfl, -, updated⟩⟩⟩ := PathControl.recvPacket_cases message arrived
    · exact agreed.unreported Iff.rfl rfl receiver
    · obtain ⟨conned, silent⟩ := reported_onConnectAck link.now ack { link.sender with strm }
      rw [← eq] at conned silent
      have now_conned : (link.sends (path, out)).1.sender.state = .conned := conned
      refine ⟨Eq.trans ?_ (if_pos now_conned).symm, fun _ => acknowledged rfl⟩
      rw [List.filterMap_append, agreed.log_eq, silent]
      split_ifs with before
      · rfl
      · exact congrArg (fun pid => [pid]) inv.pid_eq
    · exact agreed.sends (.recvSegAck ack { link.sender with strm }) rfl
    · have unreported := Unreported.sendMsg (.pong ping) { link.sender with strm }
      rw [← eq] at unreported
      exact agreed.sends unreported rfl
    · exact agreed.sends (.updateRtt updated) rfl
  · obtain ⟨rfl, rfl⟩ := Prod.mk.inj eq
    exact agreed.unreported Iff.rfl rfl receiver

/-- **A path is reported as usable once, and both ends agree on its id.** In every run, however
often the connection is asked for and whatever is lost, repeated and overtaken, the path is
reported exactly if it is connected, once, and the receiver of a connected path has its id. -/
theorem reported_once (delay : Delay) (pid : UInt8) (senderUid receiverUid : UInt32)
    (paceMode : PaceMode) (events : List LinkEvent) (link : Link) (log : List SenderCall)
    (ran : (Link.machine delay).run (Link.start pid senderUid receiverUid paceMode) events =
      some (link, log)) :
    log.filterMap reported = (if link.sender.state = .conned then [pid] else []) ∧
      (link.sender.state = .conned → link.receiver.pid = pid) := by
  obtain ⟨-, agreed⟩ := Machine.run_log_invariant
    (fun link log => LinkInv delay pid link ∧ Agreed pid link log)
    (fun _ _ _ _ _ holds handled => ⟨holds.1.step handled, holds.2.step holds.1 handled⟩)
    [] ⟨.start delay pid senderUid receiverUid paceMode, rfl, fun conned => nomatch conned⟩ ran
  exact ⟨agreed.log_eq, agreed.receiver⟩

/-- The first request is lost, and the acknowledgement of the second one arrives twice. -/
def repeated : List LinkEvent :=
  [.sender .connect, .elapse 500000000, .sender (.timerExpired 0), .elapse 20000000,
    .atReceiver 1 none, .elapse 30000000, .atSender 0, .atSender 0]

theorem reported_once_repeated : ∃ link log,
    (Link.machine ⟨20000000, 30000000⟩).run (Link.start 1 7 8 .withCongestion) repeated =
      some (link, log) ∧ log.filterMap reported = [1] ∧ link.receiver.pid = 1 := by
  have defined : ((Link.machine ⟨20000000, 30000000⟩).run (Link.start 1 7 8 .withCongestion)
      repeated).any fun result => result.1.sender.state = .conned := by
    decide +kernel
  obtain ⟨⟨link, log⟩, ran, conned⟩ := (Option.any_eq_true ..).mp defined
  have conned : link.sender.state = .conned := of_decide_eq_true conned
  obtain ⟨calls, agreed⟩ := reported_once _ 1 7 8 .withCongestion repeated link log ran
  rw [if_pos conned] at calls
  exact ⟨link, log, ran, calls, agreed conned⟩

end MpVideo.EndToEnd
