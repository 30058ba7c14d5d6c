import MpVideo.Lib.Machine
import MpVideo.Schedule.Lookups
import MpVideo.Sender.MultipathSender

/-!
# Paths that a scheduler can look up

A scheduler asks the sender for a path by its id (`getPathInfo`), and uses what it gets
without a check. The sender finds the paths in `usable_path_`. `NotifyPathUsable` registers
a path with the scheduler before it enters that map.

So the paths that a scheduler knows are usable between the calls (`Session.Sound`), and
every lookup finds its path, except in one place: when EDCLD has split a frame before and
a further path becomes usable, it looks that path up while it is registered
(`resolves_iff`).
-/

set_option autoImplicit false

namespace MpVideo.Sender

open Schedule

/-- `GetPathInfo`. -/
def MultipathSender.getPathInfo (pid : UInt8) (sender : MultipathSender) : Option PathSender :=
  sender.usablePath.find? pid

/-- A call of `GetPathInfo`, with the paths that the scheduler knows. -/
structure Lookup where
  pid : UInt8
  pids : List UInt8
  path : Option PathSender

/-- A path that the scheduler knows is found. -/
def Lookup.Resolves (lookup : Lookup) : Prop := lookup.pid ∈ lookup.pids → lookup.path ≠ none

/-- The lookups of a list of paths. The scheduler uses each path at once, so nothing is
looked up after a path that is not found. -/
def MultipathSender.lookUp (sender : MultipathSender) (pids : List UInt8) :
    List UInt8 → List Lookup
  | [] => []
  | pid :: rest =>
      match sender.getPathInfo pid with
      | none => [{ pid, pids, path := none }]
      | some path => { pid, pids, path := some path } :: lookUp sender pids rest

/-- A sender with its scheduler. -/
structure Session where
  sender : MultipathSender
  scheduler : Scheduler

/-- What happens to a session. What the scheduler reads from the paths is part of the
input, and so are the calls of `PacketSchedule` that it makes. -/
inductive SessionEvent where
  | registerPath (paceMode : PaceMode)
  | notifyPathUsable (pid : UInt8) (rate : UInt8 → UInt32)
  | sendVideo (now : Int64) (frame : Frame) (rate : UInt8 → UInt32) (cost : UInt8 → ℚ)
      (calls : Calls)

namespace Session

/-- The session goes on if all paths were found. Using a path that was not is
undefined. -/
def goOn (lookups : List Lookup) (session : Session) : Option Session × List Lookup :=
  (if lookups.all fun lookup => lookup.path.isSome then some session else none, lookups)

/-- `NotifyPathUsable` with `AddAvailablePath`, which comes after the path left
`syn_path_` and before it enters `usable_path_`. -/
def notifyPathUsable (pid : UInt8) (rate : UInt8 → UInt32) (session : Session) :
    Option Session × List Lookup :=
  match session.sender.synPath.find? pid with
  | none => (some session, [])
  | some _ =>
      let sender := { session.sender with synPath := session.sender.synPath.erase pid }
      let (scheduler, pids) := session.scheduler.registerPath pid rate
      goOn (sender.lookUp scheduler.pids pids)
        { sender := session.sender.notifyPathUsable pid, scheduler }

/-- `SendVideo` with `SchedulePendingBuf`. -/
def sendVideo (now : Int64) (frame : Frame) (rate : UInt8 → UInt32) (cost : UInt8 → ℚ)
    (calls : Calls) (session : Session) : Option Session × List Lookup :=
  if session.sender.stop then (some session, [])
  else
    let sender := session.sender.sendVideo now frame
    let packets := sender.pendingInfo.1
    if packets.entries = [] then (some { session with sender }, [])
    else
      let scheduler := session.scheduler
      goOn (sender.lookUp scheduler.pids (scheduler.lookups rate cost packets))
        { sender := calls.foldl (fun sender call => sender.packetSchedule call.1 call.2) sender
          scheduler := scheduler.afterFrame rate now.toUInt64.toUInt32 packets }

/-- An event. -/
def step (session : Session) : SessionEvent → Option Session × List Lookup
  | .registerPath paceMode =>
      (some { session with sender := session.sender.registerPath paceMode }, [])
  | .notifyPathUsable pid rate => session.notifyPathUsable pid rate
  | .sendVideo now frame rate cost calls => session.sendVideo now frame rate cost calls

/-- A session with a new sender and a new scheduler. -/
def fresh (uid : UInt32) (implementation : Implementation) : Session :=
  { sender := { uid }, scheduler := { implementation } }

/-- A path becomes usable for the first time while the scheduler looks paths up when one
is registered. -/
def JoinsLate (session : Session) : SessionEvent → Prop
  | .notifyPathUsable pid _ => session.scheduler.Rebuilds ∧
      session.sender.synPath.find? pid ≠ none ∧ session.sender.getPathInfo pid = none
  | _ => False

end Session

/-- Sessions put out the lookups. A session that used a path it did not find is over. -/
def sessionMachine : Machine (Option Session) SessionEvent Lookup where
  step session event := some (session.elim (none, []) fun session => session.step event)

/-! ## Lookups -/

namespace MultipathSender

variable {sender : MultipathSender}

/-- Lookups of known paths resolve if and only if all these paths are there. -/
theorem lookUp_resolves_iff {pids list : List UInt8} (known : ∀ pid ∈ list, pid ∈ pids) :
    (∀ lookup ∈ sender.lookUp pids list, lookup.Resolves) ↔
      ∀ pid ∈ list, sender.getPathInfo pid ≠ none := by
  induction list with
  | nil =>
      exact iff_of_true (fun _ member => absurd member List.not_mem_nil)
        (fun _ member => absurd member List.not_mem_nil)
  | cons pid rest ih =>
      have first := known pid List.mem_cons_self
      rw [lookUp, List.forall_mem_cons]
      cases found : sender.getPathInfo pid with
      | none =>
          refine iff_of_false (fun resolves => ?_) fun both => both.1 rfl
          exact resolves _ List.mem_cons_self first rfl
      | some path =>
          rw [List.forall_mem_cons, ih fun other member => known other
            (List.mem_cons_of_mem _ member)]
          exact and_congr_left' (iff_of_true (fun _ => Option.some_ne_none path)
            (Option.some_ne_none path))

/-- The usable paths are the same. -/
def SameUsable (sender next : MultipathSender) : Prop :=
  ∀ pid, next.getPathInfo pid ≠ none ↔ sender.getPathInfo pid ≠ none

theorem usablePath_sendVideo (now : Int64) (frame : Frame) (sender : MultipathSender) :
    (sender.sendVideo now frame).usablePath = sender.usablePath := by
  obtain ⟨firstTs, noted⟩ := noteFirstTs_eq now sender
  rw [sendVideo]
  split_ifs
  · rfl
  · simp only [noted]
    exact (enqueue_paths _ _).1

theorem sameUsable_packetSchedule (scheduleId : UInt32) (pid : UInt8)
    (sender : MultipathSender) : SameUsable sender (sender.packetSchedule scheduleId pid) := by
  intro other
  rw [packetSchedule]
  cases sender.pendingBuf.find? scheduleId with
  | none => exact Iff.rfl
  | some seg =>
      cases found : sender.usablePath.find? pid with
      | none =>
          simp only [found]
          exact Iff.rfl
      | some path =>
          simp only [found, getPathInfo, SortedMap.find?_set]
          split_ifs with same
          · rw [same, found]
            simp
          · exact Iff.rfl

theorem sameUsable_calls (calls : Calls) (sender : MultipathSender) :
    SameUsable sender
      (calls.foldl (fun sender call => sender.packetSchedule call.1 call.2) sender) := by
  induction calls generalizing sender with
  | nil => exact fun _ => Iff.rfl
  | cons call rest ih =>
      exact fun pid => (ih _ pid).trans (sameUsable_packetSchedule call.1 call.2 sender pid)

end MultipathSender

/-! ## Sessions -/

namespace Session

/-- The paths that the scheduler knows are usable. -/
structure Sound (session : Session) : Prop where
  scheduler : session.scheduler.Sound
  usable : ∀ pid ∈ session.scheduler.pids, session.sender.getPathInfo pid ≠ none

variable {session next : Session} {event : SessionEvent}

theorem goOn_eq_some {lookups : List Lookup}
    (goes : (goOn lookups session).1 = some next) : next = session := by
  rw [goOn] at goes
  split_ifs at goes
  exact (Option.some.inj goes).symm

theorem Sound.notifyPathUsable (sound : session.Sound) {pid : UInt8} {rate : UInt8 → UInt32}
    (goes : (session.notifyPathUsable pid rate).1 = some next) : next.Sound := by
  rw [Session.notifyPathUsable] at goes
  cases waits : session.sender.synPath.find? pid with
  | none =>
      rw [waits] at goes
      obtain rfl := Option.some.inj goes
      exact sound
  | some path =>
      simp only [waits] at goes
      obtain rfl := goOn_eq_some goes
      refine ⟨sound.scheduler.registerPath pid rate, ?_⟩
      intro other known
      rw [Scheduler.registerPath_pids, Scheduler.mem_addPid] at known
      rw [MultipathSender.getPathInfo, MultipathSender.notifyPathUsable, waits]
      dsimp only
      rw [SortedMap.find?_insert]
      split_ifs with same
      · exact Option.some_ne_none _
      · exact sound.usable other (known.resolve_left same)

theorem Sound.sendVideo (sound : session.Sound) {now : Int64} {frame : Frame}
    {rate : UInt8 → UInt32} {cost : UInt8 → ℚ} {calls : Calls}
    (goes : (session.sendVideo now frame rate cost calls).1 = some next) : next.Sound := by
  have kept : ∀ pid ∈ session.scheduler.pids,
      (session.sender.sendVideo now frame).getPathInfo pid ≠ none := by
    intro pid known
    rw [MultipathSender.getPathInfo, MultipathSender.usablePath_sendVideo]
    exact sound.usable pid known
  rw [Session.sendVideo] at goes
  dsimp only at goes
  split_ifs at goes
  · obtain rfl := Option.some.inj goes
    exact sound
  · obtain rfl := Option.some.inj goes
    exact ⟨sound.scheduler, kept⟩
  · obtain rfl := goOn_eq_some goes
    refine ⟨sound.scheduler.afterFrame rate _ _, ?_⟩
    intro pid known
    rw [Scheduler.afterFrame_pids] at known
    exact (MultipathSender.sameUsable_calls calls _ pid).mpr (kept pid known)

theorem Sound.step (sound : session.Sound) (goes : (session.step event).1 = some next) :
    next.Sound := by
  cases event with
  | registerPath paceMode =>
      obtain rfl := Option.some.inj goes
      exact ⟨sound.scheduler, sound.usable⟩
  | notifyPathUsable pid rate => exact sound.notifyPathUsable goes
  | sendVideo now frame rate cost calls => exact sound.sendVideo goes

/-- **A frame finds every path that it looks up.** -/
theorem Sound.sendVideo_resolves (sound : session.Sound) (now : Int64) (frame : Frame)
    (rate : UInt8 → UInt32) (cost : UInt8 → ℚ) (calls : Calls) :
    ∀ lookup ∈ (session.sendVideo now frame rate cost calls).2, lookup.Resolves := by
  rw [Session.sendVideo]
  dsimp only
  split_ifs
  · exact fun _ member => absurd member List.not_mem_nil
  · exact fun _ member => absurd member List.not_mem_nil
  · have known : ∀ pid ∈ session.scheduler.lookups rate cost
        (session.sender.sendVideo now frame).pendingInfo.1, pid ∈ session.scheduler.pids :=
      fun pid member => sound.scheduler.lookups_registered member
    refine (MultipathSender.lookUp_resolves_iff known).mpr ?_
    intro pid member
    rw [MultipathSender.getPathInfo, MultipathSender.usablePath_sendVideo]
    exact sound.usable pid (known pid member)

/-- **A path that becomes usable makes a lookup fail if and only if it joins late.** -/
theorem Sound.notifyPathUsable_resolves_iff (sound : session.Sound) (pid : UInt8)
    (rate : UInt8 → UInt32) :
    (∀ lookup ∈ (session.notifyPathUsable pid rate).2, lookup.Resolves) ↔
      ¬ session.JoinsLate (.notifyPathUsable pid rate) := by
  rw [Session.notifyPathUsable]
  cases waits : session.sender.synPath.find? pid with
  | none =>
      refine iff_of_true (fun _ member => absurd member List.not_mem_nil) ?_
      exact fun late => late.2.1 waits
  | some path =>
      have pids : (session.scheduler.registerPath pid rate).1.pids =
          (session.scheduler.addPid pid).pids := Scheduler.registerPath_pids pid rate _
      rcases Scheduler.registerPath_lookups pid rate session.scheduler with
        ⟨still, none⟩ | ⟨rebuilds, all⟩
      · refine iff_of_true ?_ fun late => still late.1
        simp only [goOn, none]
        exact fun _ member => absurd member List.not_mem_nil
      · have added := sound.scheduler.addPid pid
        have known : ∀ other ∈ (session.scheduler.registerPath pid rate).2,
            other ∈ (session.scheduler.registerPath pid rate).1.pids := by
          intro other member
          rw [all] at member
          rw [pids]
          exact (List.mem_append.mp member).elim id (Scheduler.mem_usable added.distinct)
        simp only [goOn]
        rw [MultipathSender.lookUp_resolves_iff known]
        constructor
        · intro found late
          refine found pid ?_ late.2.2
          rw [all]
          exact List.mem_append_left _ (Scheduler.mem_addPid.mpr (.inl rfl))
        · intro notLate other member
          have isKnown := known other member
          rw [pids, Scheduler.mem_addPid] at isKnown
          rcases isKnown with rfl | old
          · exact fun absent => notLate ⟨rebuilds, by rw [waits]; exact Option.some_ne_none path,
              absent⟩
          · exact sound.usable other old

end Session

/-- A session that is not over is sound. -/
def SoundIfRunning (session : Option Session) : Prop :=
  ∀ running, session = some running → running.Sound

theorem soundIfRunning_step {session next : Option Session} {event : SessionEvent}
    {lookups : List Lookup} (sound : SoundIfRunning session)
    (stepped : sessionMachine.step session event = some (next, lookups)) :
    SoundIfRunning next := by
  obtain ⟨rfl, -⟩ := Prod.mk.inj (Option.some.inj stepped)
  cases session with
  | none => exact fun _ ended => nomatch ended
  | some session => exact fun running goes => (sound session rfl).step goes

/-- No path joins late. -/
def InTime (session : Option Session) (event : SessionEvent) : Prop :=
  ∀ running, session = some running → ¬ running.JoinsLate event

/-- **The lookups of a step resolve if and only if no path joins late.** -/
theorem step_resolves_iff {session next : Option Session} {event : SessionEvent}
    {lookups : List Lookup} (sound : SoundIfRunning session)
    (stepped : sessionMachine.step session event = some (next, lookups)) :
    (∀ lookup ∈ lookups, lookup.Resolves) ↔ InTime session event := by
  obtain ⟨-, rfl⟩ := Prod.mk.inj (Option.some.inj stepped)
  cases session with
  | none =>
      exact iff_of_true (fun _ member => absurd member List.not_mem_nil)
        (fun _ ended => nomatch ended)
  | some session =>
      have only : InTime (some session) event ↔ ¬ session.JoinsLate event :=
        ⟨fun inTime => inTime session rfl, fun inTime running same =>
          Option.some.inj same ▸ inTime⟩
      rw [only]
      have isSound := sound session rfl
      cases event with
      | registerPath paceMode =>
          exact iff_of_true (fun _ member => absurd member List.not_mem_nil) not_false
      | notifyPathUsable pid rate => exact isSound.notifyPathUsable_resolves_iff pid rate
      | sendVideo now frame rate cost calls =>
          exact iff_of_true (isSound.sendVideo_resolves now frame rate cost calls) not_false

/-- **Every lookup of a scheduler in a run finds its path if and only if no path joins
late**, whatever the scheduler is. -/
theorem resolves_iff (uid : UInt32) (implementation : Implementation)
    (events : List SessionEvent) :
    (∀ last lookups, sessionMachine.run (some (.fresh uid implementation)) events =
        some (last, lookups) → ∀ lookup ∈ lookups, lookup.Resolves) ↔
      sessionMachine.Along InTime (some (.fresh uid implementation)) events := by
  have sound : SoundIfRunning (some (Session.fresh uid implementation)) := by
    rintro running ⟨⟩
    exact ⟨⟨List.nodup_nil, fun _ member => absurd member (SortedSet.not_mem_empty _)⟩,
      fun _ member => absurd member List.not_mem_nil⟩
  exact Machine.outputs_good_iff (fun _ _ => ⟨_, _, rfl⟩)
    (fun _ _ _ _ holds stepped => soundIfRunning_step holds stepped)
    (fun _ _ _ _ holds stepped => step_resolves_iff holds stepped) sound

/-- A frame of two segments. -/
def twoSegments : Frame where
  payloadType := 0
  ftype := 0
  data := List.replicate 1001 0
  short := by decide +kernel

/-- A third path becomes usable after the first frame. -/
def thirdJoins : List SessionEvent :=
  let rate : UInt8 → UInt32 := fun _ => 1000000
  [.registerPath .withCongestion, .registerPath .withCongestion, .registerPath .withCongestion,
    .notifyPathUsable 1 rate, .notifyPathUsable 2 rate,
    .sendVideo 1000 twoSegments rate (fun _ => 0) [(1, 1), (2, 2)], .notifyPathUsable 3 rate]

/-- EDCLD does not find the third path. -/
theorem thirdJoins_unresolved : ∃ last lookups,
    sessionMachine.run (some (.fresh 7 .edcld)) thirdJoins = some (last, lookups) ∧
      ∃ lookup ∈ lookups, ¬ lookup.Resolves := by
  have seen : ((sessionMachine.run (some (.fresh 7 .edcld)) thirdJoins).map fun result =>
      result.2.map fun lookup => (lookup.pid, lookup.pids, lookup.path.isSome)) =
        some [(1, [1, 2], true), (2, [1, 2], true), (1, [1, 2], true), (2, [1, 2], true),
          (1, [1, 2, 3], true), (2, [1, 2, 3], true), (3, [1, 2, 3], false)] := by decide +kernel
  obtain ⟨⟨last, lookups⟩, ran, all⟩ := Option.map_eq_some_iff.mp seen
  have third : (3, [1, 2, 3], false) ∈
      lookups.map fun lookup => (lookup.pid, lookup.pids, lookup.path.isSome) := by
    rw [all]
    decide
  obtain ⟨⟨pid, pids, path⟩, member, same⟩ := List.mem_map.mp third
  obtain ⟨rfl, rest⟩ := Prod.mk.inj same
  obtain ⟨rfl, absent⟩ := Prod.mk.inj rest
  refine ⟨last, lookups, ran, _, member, ?_⟩
  have known : (3 : UInt8) ∈ [1, 2, 3] := by decide
  exact fun resolves => resolves known (Option.not_isSome_iff_eq_none.mp (by simp [absent]))

end MpVideo.Sender
