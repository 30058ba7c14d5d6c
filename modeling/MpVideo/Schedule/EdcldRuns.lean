import MpVideo.Lib.Machine
import MpVideo.Schedule.EdcldShares

/-!
# Runs of the EDCLD schedulers

Paths come and go between the frames, in any order. A run remembers the paths that had a
positive rate when the tables were built last, and whether a frame was split yet. Frames
that go to one path as a whole do not use the tables.

What one event does decides whether the split stays whole (`Observed.Whole.step_iff`). So
it is whole in every state of a run exactly if the tables are only built from tables from
which they can be (`split_whole_iff`). A third path after the first frame breaks that
(`lateThird_exceeds`).
-/

set_option autoImplicit false

namespace MpVideo.Schedule

open EdcldTables

/-- A scheduler, with the paths that had a positive rate when the tables were built last,
and whether a frame was split. -/
structure Observed where
  tables : EdcldTables
  built : List UInt8 := []
  split : Bool := false

/-- What happens to a scheduler. -/
inductive EdcldEvent where
  | incomingPackets (sqrt : ℚ → ℚ) (readings : Readings) (now : UInt32) (packets : Packets)
      (size : UInt32)
  | registerPath (pid : UInt8) (readings : Readings)
  | unregisterPath (pid : UInt8) (readings : Readings)

namespace Observed

/-- The paths that are remembered when a frame comes in. -/
def builtBy (readings : Readings) (packets : Packets) (observed : Observed) : List UInt8 :=
  if ¬ Unsplit observed.tables.pids packets ∧ observed.tables.lastTs = 0 then
    ratedPaths readings observed.tables.pids
  else observed.built

/-- An event, with the function for a frame. The calls of `PacketSchedule` are the
output. -/
def step (incomingPackets : Frame) (observed : Observed) :
    EdcldEvent → Option (Observed × Calls)
  | .incomingPackets sqrt readings now packets size =>
      (incomingPackets sqrt readings now packets size observed.tables).map
        fun (tables, calls) =>
          ({ tables
             built := observed.builtBy readings packets
             split := observed.split || ¬ Unsplit observed.tables.pids packets }, calls)
  | .registerPath pid readings =>
      (observed.tables.registerPath pid readings).map fun tables =>
        ({ observed with
            tables
            built := if tables.lastTs ≠ 0 then ratedPaths readings tables.pids
              else observed.built }, [])
  | .unregisterPath pid readings =>
      (observed.tables.unregisterPath pid readings).map fun tables =>
        ({ observed with tables, built := ratedPaths readings tables.pids }, [])

/-- The split is whole once a frame was split. -/
def Whole (observed : Observed) : Prop :=
  observed.split = true → observed.tables.SplitWhole observed.built

/-- The condition on an event: if the tables are built and the split counts from then on,
they are such that building makes it whole. -/
def StaysWhole (observed : Observed) : EdcldEvent → Prop
  | .incomingPackets _ readings _ packets _ =>
      ¬ Unsplit observed.tables.pids packets → observed.tables.lastTs = 0 →
        observed.tables.Buildable readings
  | .registerPath pid readings =>
      observed.tables.lastTs ≠ 0 → (observed.tables.addPid pid).clearCost.Buildable readings
  | .unregisterPath pid readings =>
      observed.split = true → (observed.tables.removePid pid).clearCost.Buildable readings

/-- What holds in every run. There is no time of the last frame before a frame was split. -/
structure Sound (observed : Observed) : Prop where
  tables : observed.tables.Sound
  lastTs : observed.split = false → observed.tables.lastTs = 0

end Observed

/-- A scheduler with its function for a frame. -/
def edcldMachine (incomingPackets : Frame) : Machine Observed EdcldEvent (UInt32 × UInt8) :=
  ⟨Observed.step incomingPackets⟩

namespace Observed

variable {whole : List UInt8 → Packets → Option Calls} {observed next : Observed}
  {event : EdcldEvent} {calls : Calls}

/-- The time of the last frame tells that a frame was split. -/
theorem Sound.split_of_lastTs (sound : observed.Sound) (later : observed.tables.lastTs ≠ 0) :
    observed.split = true := by
  by_contra noSplit
  exact later (sound.lastTs (Bool.eq_false_iff.mpr noSplit))

theorem Sound.step (sound : observed.Sound)
    (stepped : (edcldMachine (incomingPackets whole)).step observed event =
      some (next, calls)) : next.Sound := by
  obtain ⟨tables, unsplitTs⟩ := sound
  cases event with
  | incomingPackets sqrt readings now packets size =>
      obtain ⟨result, came, same⟩ := Option.map_eq_some_iff.mp stepped
      obtain rfl := (Prod.mk.inj same).1
      rcases incomingPackets_cases tables.nonneg came with
        ⟨unsplit, _, _, kept⟩ | ⟨split, -, ⟨first, builds⟩ | ⟨later, moves⟩⟩
      · refine ⟨?_, ?_⟩
        · rw [kept]
          exact ⟨tables.distinct, tables.costKeys, tables.nonneg, tables.atLeast⟩
        · intro noSplit
          rw [kept]
          exact unsplitTs (Bool.or_eq_false_iff.mp noSplit).1
      · refine ⟨tables.build builds, ?_⟩
        intro noSplit
        simp [split] at noSplit
      · refine ⟨tables.move moves, ?_⟩
        intro noSplit
        simp [split] at noSplit
  | registerPath pid readings =>
      obtain ⟨result, registered, same⟩ := Option.map_eq_some_iff.mp stepped
      obtain rfl := (Prod.mk.inj same).1
      obtain ⟨lastTs, ⟨-, added⟩ | ⟨-, builds⟩⟩ := registerPath_cases registered
      · exact ⟨added ▸ tables.addPid pid, fun noSplit => lastTs.trans (unsplitTs noSplit)⟩
      · exact ⟨(tables.addPid pid).clearCost.build builds,
          fun noSplit => lastTs.trans (unsplitTs noSplit)⟩
  | unregisterPath pid readings =>
      obtain ⟨result, unregistered, same⟩ := Option.map_eq_some_iff.mp stepped
      obtain rfl := (Prod.mk.inj same).1
      obtain ⟨lastTs, builds⟩ := unregisterPath_cases unregistered
      exact ⟨(tables.removePid pid).clearCost.build builds,
        fun noSplit => lastTs.trans (unsplitTs noSplit)⟩

/-- A frame keeps the split whole, unless it is the first one that is split. -/
theorem Whole.frame_iff (sound : observed.Sound) (isWhole : observed.Whole)
    {sqrt : ℚ → ℚ} {readings : Readings} {now size : UInt32} {packets : Packets}
    (stepped : (edcldMachine (incomingPackets whole)).step observed
      (.incomingPackets sqrt readings now packets size) = some (next, calls)) :
    next.Whole ↔ observed.StaysWhole (.incomingPackets sqrt readings now packets size) := by
  obtain ⟨result, came, same⟩ := Option.map_eq_some_iff.mp stepped
  obtain rfl := (Prod.mk.inj same).1
  rcases incomingPackets_cases sound.tables.nonneg came with
    ⟨unsplit, _, _, kept⟩ | ⟨split, -, ⟨first, builds⟩ | ⟨later, moves⟩⟩
  · refine iff_of_true ?_ fun split => absurd unsplit split
    intro wasSplit
    have old := isWhole (by simpa [unsplit] using wasSplit)
    rw [kept, builtBy, if_neg (fun both => both.1 unsplit)]
    exact ⟨old.sameKeys, old.keys, old.nonneg, old.total⟩
  · have remembered : observed.builtBy readings packets =
        ratedPaths readings observed.tables.pids := if_pos ⟨split, first⟩
    rw [Whole, remembered]
    simp only [split, not_false_eq_true, decide_true, Bool.or_true, forall_const]
    rw [builds.splitWhole_iff sound.tables]
    exact ⟨fun buildable _ _ => buildable, fun stays => stays split first⟩
  · refine iff_of_true ?_ fun _ first => absurd first later
    intro _
    rw [builtBy, if_neg (fun both => later both.2)]
    exact (isWhole (sound.split_of_lastTs later)).move moves

/-- A path that is registered keeps the split whole, unless the tables are built. -/
theorem Whole.registerPath_iff (sound : observed.Sound) (isWhole : observed.Whole)
    {pid : UInt8} {readings : Readings}
    (stepped : (edcldMachine (incomingPackets whole)).step observed
      (.registerPath pid readings) = some (next, calls)) :
    next.Whole ↔ observed.StaysWhole (.registerPath pid readings) := by
  obtain ⟨result, registered, same⟩ := Option.map_eq_some_iff.mp stepped
  obtain rfl := (Prod.mk.inj same).1
  obtain ⟨lastTs, ⟨first, added⟩ | ⟨later, builds⟩⟩ := registerPath_cases registered
  · refine iff_of_true ?_ fun later => absurd first later
    intro wasSplit
    have old := isWhole wasSplit
    obtain ⟨pids, addedPid⟩ := addPid_eq pid observed.tables
    rw [if_neg (not_not.mpr (lastTs.trans first)), added, addedPid]
    exact ⟨old.sameKeys, old.keys, old.nonneg, old.total⟩
  · have remembered : ratedPaths readings result.pids =
        ratedPaths readings (observed.tables.addPid pid).clearCost.pids := by
      rw [builds.pids]
    rw [Whole, if_pos (by rwa [lastTs]), remembered,
      builds.splitWhole_iff (sound.tables.addPid pid).clearCost]
    exact ⟨fun buildable _ => buildable (sound.split_of_lastTs later),
      fun stays _ => stays later⟩

/-- A path that is unregistered makes the tables be built. -/
theorem Whole.unregisterPath_iff (sound : observed.Sound) {pid : UInt8} {readings : Readings}
    (stepped : (edcldMachine (incomingPackets whole)).step observed
      (.unregisterPath pid readings) = some (next, calls)) :
    next.Whole ↔ observed.StaysWhole (.unregisterPath pid readings) := by
  obtain ⟨result, unregistered, same⟩ := Option.map_eq_some_iff.mp stepped
  obtain rfl := (Prod.mk.inj same).1
  obtain ⟨-, builds⟩ := unregisterPath_cases unregistered
  have remembered : ratedPaths readings result.pids =
      ratedPaths readings (observed.tables.removePid pid).clearCost.pids := by
    rw [builds.pids]
  rw [Whole, remembered, builds.splitWhole_iff (sound.tables.removePid pid).clearCost]
  exact Iff.rfl

/-- **The condition decides whether an event leads from a whole split to a whole split.** -/
theorem Whole.step_iff (sound : observed.Sound) (isWhole : observed.Whole)
    (stepped : (edcldMachine (incomingPackets whole)).step observed event =
      some (next, calls)) : next.Whole ↔ observed.StaysWhole event := by
  cases event with
  | incomingPackets sqrt readings now packets size => exact isWhole.frame_iff sound stepped
  | registerPath pid readings => exact isWhole.registerPath_iff sound stepped
  | unregisterPath pid readings => exact Whole.unregisterPath_iff sound stepped

end Observed

/-- A scheduler that nothing has happened to. -/
def Observed.fresh (w : ℚ) : Observed := { tables := { w } }

theorem Observed.sound_fresh (w : ℚ) : (Observed.fresh w).Sound :=
  ⟨⟨List.nodup_nil, fun _ member => absurd member List.not_mem_nil,
    fun _ member => absurd member List.not_mem_nil, .inl rfl⟩, fun _ => rfl⟩

theorem edcldMachine_whole_iff (whole : List UInt8 → Packets → Option Calls) (w : ℚ)
    (events : List EdcldEvent) :
    (∀ n last calls, (edcldMachine (incomingPackets whole)).run (.fresh w) (events.take n) =
        some (last, calls) → last.Whole) ↔
      (edcldMachine (incomingPackets whole)).Along (fun observed event =>
        ((edcldMachine (incomingPackets whole)).step observed event).isSome →
          observed.StaysWhole event) (.fresh w) events := by
  refine Machine.reached_good_iff (fun _ _ _ _ sound stepped => sound.step stepped)
    (fun _ _ _ _ sound isWhole stepped => isWhole.step_iff sound stepped)
    (Observed.sound_fresh w) ?_
  intro split
  cases split

/-- **In every run of both schedulers, the split is whole in every state after a split
frame if and only if** the tables are never built from others than they can be. -/
theorem split_whole_iff (w : ℚ) (events : List EdcldEvent) :
    ((∀ n last calls, (edcldMachine EDCLDSchedule.incomingPackets).run (.fresh w)
          (events.take n) = some (last, calls) → last.Whole) ↔
        (edcldMachine EDCLDSchedule.incomingPackets).Along (fun observed event =>
          ((edcldMachine EDCLDSchedule.incomingPackets).step observed event).isSome →
            observed.StaysWhole event) (.fresh w) events) ∧
      ((∀ n last calls, (edcldMachine EDCLDScheduleV1.incomingPackets).run (.fresh w)
          (events.take n) = some (last, calls) → last.Whole) ↔
        (edcldMachine EDCLDScheduleV1.incomingPackets).Along (fun observed event =>
          ((edcldMachine EDCLDScheduleV1.incomingPackets).step observed event).isSome →
            observed.StaysWhole event) (.fresh w) events) :=
  ⟨edcldMachine_whole_iff roundRobin w events,
    edcldMachine_whole_iff EDCLDScheduleV1.toFirstPath w events⟩

/-- Two paths, a frame of two packets, and a third path. -/
def lateThird : List EdcldEvent :=
  let readings : Readings := fun _ => { rtt := 50, rate := 1000000, pendingLen := 0 }
  [.registerPath 1 readings, .registerPath 2 readings,
    .incomingPackets id readings 1000 twoPackets 2060, .registerPath 3 readings]

/-- **The split of a path that comes late**: the old shares stay, and with the share of
the third path they add up to more than the whole. -/
theorem lateThird_exceeds :
    (∃ last calls, (edcldMachine EDCLDSchedule.incomingPackets).run (.fresh (1 / 2)) lateThird =
        some (last, calls) ∧ last.split = true ∧ last.tables.psiTable.total id = 4 / 3 ∧
          ¬ last.Whole) ∧
      ∃ last calls, (edcldMachine EDCLDScheduleV1.incomingPackets).run (.fresh (1 / 2))
        lateThird = some (last, calls) ∧ last.split = true ∧
          last.tables.psiTable.total id = 4 / 3 ∧ ¬ last.Whole := by
  have exceeds : ∀ last : Observed, last.split = true → last.tables.psiTable.total id = 4 / 3 →
      ¬ last.Whole := by
    intro last split total isWhole
    have one := (isWhole split).total
    rw [total] at one
    exact absurd one (by norm_num)
  have first : ((edcldMachine EDCLDSchedule.incomingPackets).run (.fresh (1 / 2)) lateThird).map
      (fun result => (result.1.split, result.1.tables.psiTable.total id)) =
        some (true, 4 / 3) := by decide +kernel
  have second : ((edcldMachine EDCLDScheduleV1.incomingPackets).run (.fresh (1 / 2))
      lateThird).map (fun result => (result.1.split, result.1.tables.psiTable.total id)) =
        some (true, 4 / 3) := by decide +kernel
  obtain ⟨⟨last, calls⟩, ran, seen⟩ := Option.map_eq_some_iff.mp first
  obtain ⟨⟨last', calls'⟩, ran', seen'⟩ := Option.map_eq_some_iff.mp second
  obtain ⟨split, total⟩ := Prod.mk.inj seen
  obtain ⟨split', total'⟩ := Prod.mk.inj seen'
  exact ⟨⟨last, calls, ran, split, total, exceeds last split total⟩,
    last', calls', ran', split', total', exceeds last' split' total'⟩

end MpVideo.Schedule
