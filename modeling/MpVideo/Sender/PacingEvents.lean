import Mathlib.Data.Rat.Floor
import MpVideo.Lib.EventQueue
import MpVideo.Lib.Machine
import MpVideo.Lib.Rounding
import MpVideo.Sender.PathSender

/-!
# The events of own pacing

In own pacing a path sender schedules `PacingSendSegment` for itself: `put` does it when the
pacing does not run, and each event that sends a segment schedules the next one. Here the
path is put together with the queue of events of the simulator, which holds the events of
everything else as well. `m_pacing_` is the id of the last event that was scheduled, and
`Stop` leaves the event in the queue.

`m_pacing_running_` says whether an event is pending in every state, there is never more
than one, and there is one as long as segments wait (`wakeUp_not_lost`). The path with one
flag for the event of `MpVideo.Sender.PathSender` does the same (`step_follows`).
-/

set_option autoImplicit false

namespace MpVideo.Sender

open Wire Rounding

/-- What is scheduled: the `PacingSendSegment` of the path, or something else. -/
inductive Scheduled where
  | pacingSendSegment
  | other (number : ℕ)
  deriving DecidableEq

/-- A path with the queue of events. The flag `pacing` of the path is not used. -/
structure ScheduledPath (Q ι : Type) where
  path : PathSender
  rate : UInt32
  /-- `m_pacing_`, after the first event was scheduled. -/
  mPacing : Option ι := none
  events : Q

namespace ScheduledPath

variable {Q ι : Type}

/-- `len*8/(rate_*1.2)` in doubles. -/
def nextSeconds (len rate : UInt32) : ℚ :=
  round 53 ((len.toNat : ℚ) * 8 / round 53 ((rate.toNat : ℚ) * round 53 (12 / 10)))

/-- `StartPacing`. -/
def startPacing (queue : EventQueue Q ι Scheduled) (s : ScheduledPath Q ι) :
    ScheduledPath Q ι :=
  if s.path.stop then s
  else if s.path.pacingRunning then s
  else
    let (mPacing, events) := queue.schedule 0 .pacingSendSegment s.events
    { s with path := { s.path with pacingRunning := true }, mPacing := some mPacing, events }

/-- `put`. -/
def put (queue : EventQueue Q ι Scheduled) (seg : SimSegment) (s : ScheduledPath Q ι) :
    ScheduledPath Q ι × Bool :=
  if s.path.stop then (s, false)
  else
    let path := s.path
    let seg := { seg with packetId := path.packetSeed, transportSeq := path.transSeq }
    let path := { path with
      packetSeed := path.packetSeed + 1
      transSeq := path.transSeq + 1
      len := path.len + PathSender.segmentLen seg
      pendingLen := path.pendingLen + PathSender.segmentLen seg
      buf := path.buf.insert path.transSeq seg }
    let s := { s with path }
    (if path.paceMode = .noWebrtc then s.startPacing queue else s, true)

/-- `PacingSendSegment`. The time to the next event is not defined without a rate. -/
def pacingSendSegment (queue : EventQueue Q ι Scheduled) (now : UInt32) (firstTs : Int64)
    (s : ScheduledPath Q ι) : Option (ScheduledPath Q ι × List (List UInt8)) :=
  if s.mPacing.all (queue.isExpired s.events) then
    match s.path.getFirstSegment with
    | (some seg, path) =>
        if s.rate = 0 then none
        else
          let (path, datagrams) := path.sendSegment now firstTs seg
          let next := nextSeconds (PathSender.segmentLen seg) s.rate
          let (mPacing, events) := queue.schedule next .pacingSendSegment s.events
          some ({ s with path, mPacing := some mPacing, events }, datagrams)
    | (none, path) => some ({ s with path := { path with pacingRunning := false } }, [])
  else some (s, [])

/-- What happens to a path and to the queue of events. -/
inductive Happening (ι : Type) where
  | put (seg : SimSegment)
  /-- An event of the queue runs. -/
  | run (id : ι) (now : UInt32) (firstTs : Int64)
  | stop
  /-- Something else is scheduled. -/
  | schedule (delay : ℚ) (number : ℕ)

/-- What happens next, with the datagrams that the path sends. Only an event that is pending
can run. -/
def handle (queue : EventQueue Q ι Scheduled) (s : ScheduledPath Q ι) :
    Happening ι → Option (ScheduledPath Q ι × List (List UInt8))
  | .put seg => some ((s.put queue seg).1, [])
  | .run id now firstTs =>
      match queue.pending s.events id with
      | none => none
      | some .pacingSendSegment =>
          pacingSendSegment queue now firstTs { s with events := queue.start id s.events }
      | some (.other _) => some ({ s with events := queue.start id s.events }, [])
  | .stop => some ({ s with path := s.path.stopPath }, [])
  | .schedule delay number =>
      some ({ s with events := (queue.schedule delay (.other number) s.events).2 }, [])

/-- A path and the queue of events as a machine. -/
def machine (queue : EventQueue Q ι Scheduled) :
    Machine (ScheduledPath Q ι) (Happening ι) (List UInt8) := ⟨handle queue⟩

/-- A path in own pacing with a rate to which nothing has been put yet. -/
structure Idle (queue : EventQueue Q ι Scheduled) (s : ScheduledPath Q ι) : Prop where
  paceMode : s.path.paceMode = .noWebrtc
  rate : 0 < s.rate
  buf : s.path.buf = .empty
  pacingRunning : s.path.pacingRunning = false
  events : ¬ queue.Waits s.events .pacingSendSegment

/-- The event of the pacing is the one of `m_pacing_`, `m_pacing_running_` says that there is
one, and there is one while segments wait. -/
structure Paced (queue : EventQueue Q ι Scheduled) (event : Option ι) (s : ScheduledPath Q ι) :
    Prop where
  paceMode : s.path.paceMode = .noWebrtc
  rate : 0 < s.rate
  pending : queue.PendingAs s.events .pacingSendSegment event
  running : s.path.pacingRunning = event.isSome
  mPacing : ∀ id, event = some id → s.mPacing = some id
  waits : s.path.stop = false → s.path.buf.entries ≠ [] → event.isSome = true

variable {queue : EventQueue Q ι Scheduled} {s next : ScheduledPath Q ι} {event : Option ι}
  {id : ι} {out : List (List UInt8)}

theorem Idle.paced (idle : Idle queue s) : Paced queue none s where
  paceMode := idle.paceMode
  rate := idle.rate
  pending := fun id => iff_of_false (fun found => idle.events ⟨id, found⟩) (by simp)
  running := idle.pacingRunning
  mPacing := fun id absent => by simp at absent
  waits := fun _ some => absurd (by rw [idle.buf]; rfl) some

/-! ## Steps -/

/-- After `StartPacing` on a running path an event is pending, whatever was put before. -/
theorem startPacing_paced (lawful : queue.Lawful) (running : s.path.stop = false)
    (paceMode : s.path.paceMode = .noWebrtc) (rate : 0 < s.rate)
    (pending : queue.PendingAs s.events .pacingSendSegment event)
    (flag : s.path.pacingRunning = event.isSome)
    (mPacing : ∀ id, event = some id → s.mPacing = some id) :
    ∃ event', Paced queue event' (s.startPacing queue) := by
  rw [startPacing, if_neg (by simp [running])]
  split_ifs with already
  · exact ⟨event, paceMode, rate, pending, flag, mPacing, fun _ _ => flag ▸ already⟩
  · have nothing : event = none := by
      rw [← Option.not_isSome_iff_eq_none, ← flag]
      exact already
    subst nothing
    exact ⟨some _, paceMode, rate, pending.schedule lawful 0, rfl, fun _ same => same,
      fun _ _ => rfl⟩

theorem Paced.put (paced : Paced queue event s) (lawful : queue.Lawful) (seg : SimSegment) :
    ∃ event', Paced queue event' (s.put queue seg).1 := by
  rw [ScheduledPath.put]
  split_ifs with stopped
  · exact ⟨event, paced⟩
  · have running : s.path.stop = false := by simpa using stopped
    dsimp only
    rw [if_pos paced.paceMode]
    exact startPacing_paced lawful running paced.paceMode paced.rate paced.pending
      paced.running paced.mPacing

/-- The event of the pacing finds `m_pacing_` expired when it runs. -/
theorem Paced.expired (paced : Paced queue (some id) s) (lawful : queue.Lawful) :
    s.mPacing.all (queue.isExpired (queue.start id s.events)) = true := by
  rw [paced.mPacing id rfl, Option.all_some, lawful.expired]
  exact lawful.started s.events id

/-- **An event of the pacing sends the first segment and schedules the next event.** -/
theorem Paced.sends (paced : Paced queue (some id) s) (lawful : queue.Lawful)
    {entry : UInt16 × SimSegment} {rest : List (UInt16 × SimSegment)}
    (queued : s.path.buf.entries = entry :: rest) (now : UInt32) (firstTs : Int64) :
    ∃ next datagram id', pacingSendSegment queue now firstTs
        { s with events := queue.start id s.events } = some (next, [datagram]) ∧
      Paced queue (some id') next ∧ next.path.buf = s.path.buf.erase entry.1 ∧
      next.path.stop = s.path.stop := by
  have rate : s.rate ≠ 0 := paced.rate.ne'
  obtain ⟨sendTs, strm, sent⟩ := PathSender.sendSegment_eq now firstTs entry.2
    (s.path.take entry.1 entry.2)
  rw [pacingSendSegment, if_pos (paced.expired lawful), PathSender.getFirstSegment]
  simp only [queued, if_neg rate, sent]
  exact ⟨_, _, _, rfl, ⟨paced.paceMode, paced.rate,
    (paced.pending.start lawful).schedule lawful _, paced.running, fun _ same => same,
    fun _ _ => rfl⟩, rfl, rfl⟩

/-- **An event of the pacing that finds nothing clears the flag.** -/
theorem Paced.rests (paced : Paced queue (some id) s) (lawful : queue.Lawful)
    (queued : s.path.buf.entries = []) (now : UInt32) (firstTs : Int64) :
    ∃ next, pacingSendSegment queue now firstTs
        { s with events := queue.start id s.events } = some (next, []) ∧
      Paced queue none next := by
  rw [pacingSendSegment, if_pos (paced.expired lawful), PathSender.getFirstSegment]
  simp only [queued]
  exact ⟨_, rfl, paced.paceMode, paced.rate, paced.pending.start lawful, rfl,
    fun _ absent => by simp at absent, fun _ some => absurd queued some⟩

theorem Paced.pacingSendSegment (paced : Paced queue (some id) s) (lawful : queue.Lawful)
    (now : UInt32) (firstTs : Int64) :
    ∃ next out event', ScheduledPath.pacingSendSegment queue now firstTs
        { s with events := queue.start id s.events } = some (next, out) ∧
      Paced queue event' next := by
  cases queued : s.path.buf.entries with
  | nil =>
      obtain ⟨next, ran, after⟩ := paced.rests lawful queued now firstTs
      exact ⟨next, [], none, ran, after⟩
  | cons entry rest =>
      obtain ⟨next, datagram, id', ran, after, -⟩ := paced.sends lawful queued now firstTs
      exact ⟨next, [datagram], some id', ran, after⟩

theorem Paced.stop (paced : Paced queue event s) :
    Paced queue event { s with path := s.path.stopPath } := by
  rw [PathSender.stopPath]
  split_ifs with stopped
  · exact paced
  · exact ⟨paced.paceMode, paced.rate, paced.pending, paced.running, paced.mPacing,
      fun running => absurd running (by simp)⟩

/-- **Whatever happens, the event of the pacing is not lost.** -/
theorem Paced.step (paced : Paced queue event s) (lawful : queue.Lawful)
    {happening : Happening ι} (stepped : (machine queue).step s happening = some (next, out)) :
    ∃ event', Paced queue event' next := by
  change handle queue s happening = _ at stepped
  cases happening with
  | put seg =>
      obtain ⟨rfl, -⟩ := Prod.mk.inj (Option.some.inj stepped)
      exact paced.put lawful seg
  | run id now firstTs =>
      rw [handle] at stepped
      cases found : queue.pending s.events id with
      | none => simp [found] at stepped
      | some action =>
          rw [found] at stepped
          cases action with
          | pacingSendSegment =>
              obtain rfl := (paced.pending id).mp found
              obtain ⟨next', out', event', sent, after⟩ :=
                paced.pacingSendSegment lawful now firstTs
              obtain ⟨rfl, -⟩ := Prod.mk.inj (Option.some.inj (sent.symm.trans stepped))
              exact ⟨event', after⟩
          | other number =>
              obtain ⟨rfl, -⟩ := Prod.mk.inj (Option.some.inj stepped)
              exact ⟨event, paced.paceMode, paced.rate,
                paced.pending.start_other lawful (by simp) found, paced.running, paced.mPacing,
                paced.waits⟩
  | stop =>
      obtain ⟨rfl, -⟩ := Prod.mk.inj (Option.some.inj stepped)
      exact ⟨event, paced.stop⟩
  | schedule delay number =>
      obtain ⟨rfl, -⟩ := Prod.mk.inj (Option.some.inj stepped)
      exact ⟨event, paced.paceMode, paced.rate,
        paced.pending.schedule_other lawful (by simp) delay, paced.running, paced.mPacing,
        paced.waits⟩

/-- Whatever has happened, the event of the pacing is not lost. -/
theorem run_paced (lawful : queue.Lawful) (idle : Idle queue s) {happenings : List (Happening ι)}
    {last : ScheduledPath Q ι} (ran : (machine queue).run s happenings = some (last, out)) :
    ∃ event, Paced queue event last :=
  Machine.run_invariant (fun s => ∃ event, Paced queue event s)
    (fun _ _ _ _ ⟨_, paced⟩ stepped => paced.step lawful stepped) ⟨none, idle.paced⟩ ran

/-- **No wake-up is lost in own pacing.** In every state of every run `m_pacing_running_` is
set exactly if a pacing event is pending, at most one is pending, and one is pending whenever
the path runs and segments wait. -/
theorem wakeUp_not_lost (lawful : queue.Lawful) (idle : Idle queue s)
    {happenings : List (Happening ι)} {last : ScheduledPath Q ι}
    (ran : (machine queue).run s happenings = some (last, out)) :
    (last.path.pacingRunning = true ↔ queue.Waits last.events .pacingSendSegment) ∧
      (∀ id id', queue.pending last.events id = some .pacingSendSegment →
        queue.pending last.events id' = some .pacingSendSegment → id = id') ∧
      (last.path.stop = false → last.path.buf.entries ≠ [] →
        queue.Waits last.events .pacingSendSegment) := by
  obtain ⟨event, paced⟩ := run_paced lawful idle ran
  refine ⟨?_, ?_, ?_⟩
  · rw [paced.running]
    exact paced.pending.waits_iff.symm
  · exact fun id id' => paced.pending.unique
  · intro running some
    exact paced.pending.waits_iff.mpr (paced.waits running some)

/-- A path in own pacing as it is constructed, in a simulation without events. -/
def created : ScheduledPath (Agenda Scheduled) ℕ where
  path := { pid := 1, uid := 1, paceMode := .noWebrtc }
  rate := 1000000
  events := .empty

theorem created_idle : Idle Agenda.queue created where
  paceMode := rfl
  rate := by decide
  buf := rfl
  pacingRunning := rfl
  events := by
    rintro ⟨id, found⟩
    cases found

/-- A segment without data. -/
def bareSegment : SimSegment := ⟨0, 1, 0, 0, 1, 0, 0, 0, 0, 0, .empty⟩

/-- Two segments are put, the first one is sent, something else is scheduled and runs, and
the path is stopped. -/
theorem wakeUp_not_lost_agenda : ∃ last out, (machine Agenda.queue).run created
      [.put bareSegment, .put bareSegment, .run 0 0 0, .schedule 1 7, .run 2 0 0, .stop] =
        some (last, out) ∧ last.path.pacingRunning = true ∧
      Agenda.queue.Waits last.events .pacingSendSegment := by
  have ran : ∃ last out, (machine Agenda.queue).run created
      [.put bareSegment, .put bareSegment, .run 0 0 0, .schedule 1 7, .run 2 0 0, .stop] =
        some (last, out) ∧ last.path.pacingRunning = true := ⟨_, _, rfl, rfl⟩
  obtain ⟨last, out, ran, flag⟩ := ran
  exact ⟨last, out, ran, flag,
    (wakeUp_not_lost Agenda.queue_lawful created_idle ran).1.mp flag⟩

/-! ## What can happen -/

/-- **Every operation of the path is defined**, and so is every event that is pending. -/
theorem Paced.defined (paced : Paced queue event s) (lawful : queue.Lawful)
    (happening : Happening ι)
    (pending : ∀ id now firstTs, happening = .run id now firstTs →
      (queue.pending s.events id).isSome = true) :
    ∃ next out, (machine queue).step s happening = some (next, out) := by
  change ∃ next out, handle queue s happening = some (next, out)
  cases happening with
  | put seg => exact ⟨_, _, rfl⟩
  | run id now firstTs =>
      obtain ⟨action, found⟩ := Option.isSome_iff_exists.mp (pending id now firstTs rfl)
      rw [handle, found]
      cases action with
      | pacingSendSegment =>
          obtain rfl := (paced.pending id).mp found
          obtain ⟨next, out, _, sent, -⟩ := paced.pacingSendSegment lawful now firstTs
          exact ⟨next, out, sent⟩
      | other number => exact ⟨_, _, rfl⟩
  | stop => exact ⟨_, _, rfl⟩
  | schedule delay number => exact ⟨_, _, rfl⟩

/-! ## One flag for the event -/

/-- The path with one flag for its event. -/
def flagged (s : ScheduledPath Q ι) : PathSender :=
  { s.path with pacing := s.path.pacingRunning }

/-- What happens to a path with one flag for its event. -/
inductive FlagEvent where
  | put (seg : SimSegment)
  | pacingSendSegment (now : UInt32) (firstTs : Int64)
  | stop

/-- The path with one flag for its event, as a machine. -/
def flagMachine : Machine PathSender FlagEvent (List UInt8) where
  step path
    | .put seg => some ((path.put seg).1, [])
    | .pacingSendSegment now firstTs => some (path.pacingSendSegment now firstTs)
    | .stop => some (path.stopPath, [])

theorem flagged_startPacing (s : ScheduledPath Q ι) :
    (s.startPacing queue).flagged = s.flagged.startPacing := by
  rw [startPacing, PathSender.startPacing]
  by_cases stopped : s.path.stop = true
  · rw [if_pos stopped, if_pos (show s.flagged.stop = true ∨ _ from .inl stopped)]
  · rw [if_neg stopped]
    by_cases already : s.path.pacingRunning = true
    · rw [if_pos already, if_pos (show _ ∨ s.flagged.pacingRunning = true from .inr already)]
    · have idle : ¬ (s.flagged.stop = true ∨ s.flagged.pacingRunning = true) :=
        not_or.mpr ⟨stopped, already⟩
      rw [if_neg already, if_neg idle]
      rfl

theorem flagged_put (seg : SimSegment) (s : ScheduledPath Q ι) :
    (s.put queue seg).1.flagged = (s.flagged.put seg).1 := by
  rw [put, PathSender.put]
  by_cases stopped : s.path.stop = true
  · rw [if_pos stopped, if_pos (show s.flagged.stop = true from stopped)]
  · rw [if_neg stopped, if_neg (show ¬ s.flagged.stop = true from stopped)]
    dsimp only
    by_cases own : s.path.paceMode = .noWebrtc
    · rw [if_pos own, if_pos (show s.flagged.paceMode = .noWebrtc from own)]
      exact flagged_startPacing _
    · rw [if_neg own, if_neg (show ¬ s.flagged.paceMode = .noWebrtc from own)]
      rfl

theorem flagged_stopPath (s : ScheduledPath Q ι) :
    ({ s with path := s.path.stopPath } : ScheduledPath Q ι).flagged = s.flagged.stopPath := by
  rw [flagged, PathSender.stopPath, PathSender.stopPath]
  by_cases stopped : s.path.stop = true
  · rw [if_pos stopped, if_pos (show s.flagged.stop = true from stopped)]
    rfl
  · rw [if_neg stopped, if_neg (show ¬ s.flagged.stop = true from stopped)]
    rfl

/-- The event of the pacing does what it does on a path with one flag. -/
theorem Paced.flagged_pacingSendSegment (paced : Paced queue (some id) s)
    (lawful : queue.Lawful) {now : UInt32} {firstTs : Int64}
    (sent : ScheduledPath.pacingSendSegment queue now firstTs
      { s with events := queue.start id s.events } = some (next, out)) :
    s.flagged.pacingSendSegment now firstTs = (next.flagged, out) := by
  have flag : s.path.pacingRunning = true := paced.running
  rw [ScheduledPath.pacingSendSegment, if_pos (paced.expired lawful),
    PathSender.getFirstSegment] at sent
  rw [PathSender.pacingSendSegment, if_pos (show s.flagged.pacing = true from flag),
    PathSender.getFirstSegment]
  cases queued : s.path.buf.entries with
  | nil =>
      simp only [queued, Option.some.injEq, Prod.mk.injEq] at sent
      obtain ⟨rfl, rfl⟩ := sent
      simp only [flagged, queued]
  | cons entry rest =>
      simp only [queued, if_neg paced.rate.ne', Option.some.injEq, Prod.mk.injEq] at sent
      obtain ⟨rfl, rfl⟩ := sent
      simp only [flagged, queued]
      rfl

/-- **Each step is a step of the path with one flag**, or none of its steps. -/
theorem Paced.step_follows (paced : Paced queue event s) (lawful : queue.Lawful)
    {happening : Happening ι} (stepped : (machine queue).step s happening = some (next, out)) :
    ∃ events, flagMachine.run s.flagged events = some (next.flagged, out) := by
  change handle queue s happening = _ at stepped
  have one : ∀ {path : PathSender} {event : FlagEvent},
      flagMachine.step s.flagged event = some (path, out) →
        flagMachine.run s.flagged [event] = some (path, out) :=
    fun stepped => Machine.run_cons.mpr ⟨_, out, [], stepped, rfl, List.append_nil out⟩
  cases happening with
  | put seg =>
      obtain ⟨rfl, rfl⟩ := Prod.mk.inj (Option.some.inj stepped)
      refine ⟨[.put seg], one ?_⟩
      rw [flagged_put]
      rfl
  | run id now firstTs =>
      rw [handle] at stepped
      cases found : queue.pending s.events id with
      | none => simp [found] at stepped
      | some action =>
          rw [found] at stepped
          cases action with
          | pacingSendSegment =>
              obtain rfl := (paced.pending id).mp found
              refine ⟨[.pacingSendSegment now firstTs], one ?_⟩
              exact congrArg some (paced.flagged_pacingSendSegment lawful stepped)
          | other number =>
              obtain ⟨rfl, rfl⟩ := Prod.mk.inj (Option.some.inj stepped)
              exact ⟨[], rfl⟩
  | stop =>
      obtain ⟨rfl, rfl⟩ := Prod.mk.inj (Option.some.inj stepped)
      refine ⟨[.stop], one ?_⟩
      rw [flagged_stopPath]
      rfl
  | schedule delay number =>
      obtain ⟨rfl, rfl⟩ := Prod.mk.inj (Option.some.inj stepped)
      exact ⟨[], rfl⟩

/-- **Every run sends the datagrams of a run of the path with one flag.** -/
theorem Paced.run_follows (paced : Paced queue event s) (lawful : queue.Lawful)
    {happenings : List (Happening ι)} {last : ScheduledPath Q ι}
    (ran : (machine queue).run s happenings = some (last, out)) :
    ∃ events, flagMachine.run s.flagged events = some (last.flagged, out) := by
  induction happenings generalizing s event out with
  | nil =>
      obtain ⟨rfl, rfl⟩ := Prod.mk.inj (Option.some.inj ran)
      exact ⟨[], rfl⟩
  | cons happening rest ih =>
      obtain ⟨next, first, more, stepped, onwards, rfl⟩ := Machine.run_cons.mp ran
      obtain ⟨events, followed⟩ := paced.step_follows lawful stepped
      obtain ⟨event', after⟩ := paced.step lawful stepped
      obtain ⟨later, followedLater⟩ := ih after onwards
      exact ⟨events ++ later, Machine.run_trans followed followedLater⟩

/-! ## The queue empties -/

/-- **Segments that wait are sent by the events of the pacing alone**, one by each. -/
theorem Paced.empties (paced : Paced queue event s) (lawful : queue.Lawful)
    (running : s.path.stop = false) (now : UInt32) (firstTs : Int64) :
    ∃ (ids : List ι) (last : ScheduledPath Q ι) (out : List (List UInt8)),
      (machine queue).run s (ids.map (.run · now firstTs)) = some (last, out) ∧
      last.path.buf = .empty ∧ out.length = s.path.buf.size := by
  induction waiting : s.path.buf.entries.length generalizing s event with
  | zero =>
      have none : s.path.buf = .empty :=
        SortedMap.entries_eq_nil_iff.mp (List.length_eq_zero_iff.mp waiting)
      exact ⟨[], s, [], rfl, none, waiting.symm⟩
  | succ count ih =>
      have some : s.path.buf.entries ≠ [] := by
        intro none
        rw [none] at waiting
        cases waiting
      obtain ⟨id, rfl⟩ := Option.isSome_iff_exists.mp (paced.waits running some)
      obtain ⟨entry, rest, queued⟩ := List.exists_cons_of_ne_nil some
      obtain ⟨next, datagram, id', sent, after, buf, stop⟩ :=
        paced.sends lawful queued now firstTs
      have stepped : (machine queue).step s (.run id now firstTs) = .some (next, [datagram]) := by
        change handle queue s (.run id now firstTs) = _
        rw [handle, (paced.pending id).mpr rfl]
        exact sent
      have front : s.path.buf.find? entry.1 = .some entry.2 :=
        SortedMap.find?_eq_some_iff.mpr (queued ▸ List.mem_cons_self)
      have fewer := (SortedMap.entries_perm_erase front).length_eq
      rw [← buf, List.length_cons, waiting] at fewer
      obtain ⟨ids, last, out, ran, empty, all⟩ :=
        ih after (stop.trans running) (Nat.succ.inj fewer).symm
      refine ⟨id :: ids, last, [datagram] ++ out, ?_, empty, ?_⟩
      · exact Machine.run_cons.mpr ⟨next, [datagram], out, stepped, ran, rfl⟩
      · rw [List.length_append, all, SortedMap.size, SortedMap.size, waiting,
          ← Nat.succ.inj fewer, List.length_singleton, Nat.add_comm]

end ScheduledPath

end MpVideo.Sender
