import MpVideo.Lib.SortedSet
import MpVideo.Schedule.EdcldShares

/-!
# What the schedulers look up

The implementations of `Schedule` read the paths through `GetPathInfo`, for which they
keep the path ids in `pids_`. `RoundRobinSchedule` reads nothing, and the others read
nothing for a frame that is not split. EDCLD also reads the paths of its cost table, and
it reads all paths when one is registered after the first split frame.

What is read is part of the input: the rates, and the costs that EDCLD computes from them.
The paths that are looked up are always registered (`Scheduler.Sound.lookups_registered`,
`Scheduler.registerPath_lookups`).
-/

set_option autoImplicit false

namespace MpVideo.Schedule

/-- The loop over `pids_` that reads each path once. -/
def lookPids (pids : List UInt8) (packets : Packets) : List UInt8 :=
  if Unsplit pids packets then [] else pids

/-- The same loop, and after it a loop for each packet over the paths with a rate. -/
def lookCosts (rate : UInt8 → UInt32) (pids : List UInt8) (packets : Packets) : List UInt8 :=
  if Unsplit pids packets then []
  else pids ++ packets.keys.flatMap fun _ => (collectRates rate pids).1.keys

namespace BalanceCostSchedule

/-- The lookups of `BalanceCostSchedule::IncomingPackets`. -/
def lookups : (UInt8 → UInt32) → List UInt8 → Packets → List UInt8 := lookCosts

end BalanceCostSchedule

namespace MinQueueSchedule

/-- The lookups of `MinQueueSchedule::IncomingPackets`. -/
def lookups : (UInt8 → UInt32) → List UInt8 → Packets → List UInt8 := lookCosts

end MinQueueSchedule

namespace ScaleSchedule

/-- The lookups of `ScaleSchedule::IncomingPackets`. -/
def lookups : List UInt8 → Packets → List UInt8 := lookPids

end ScaleSchedule

namespace SFLSchedule

/-- The lookups of `SFLSchedule::IncomingPackets`. -/
def lookups : List UInt8 → Packets → List UInt8 := lookPids

end SFLSchedule

namespace WaterFillingSchedule

/-- The lookups of `WaterFillingSchedule::IncomingPackets`. -/
def lookups : List UInt8 → Packets → List UInt8 := lookPids

end WaterFillingSchedule

namespace WrrSchedule

/-- The lookups of `WrrSchedule::IncomingPackets`. -/
def lookups : List UInt8 → Packets → List UInt8 := lookPids

end WrrSchedule

namespace EDCLDSchedule

/-- The paths with a rate, which are looked up again when they enter the tables. -/
def usable (rate : UInt8 → UInt32) (pids : List UInt8) : List UInt8 :=
  (collectRates rate pids).1.keys

/-- `best_pid` and `worst_pid`: the first path with the lowest cost and the first one
with the highest. -/
def extremes (cost : UInt8 → ℚ) : List UInt8 → List UInt8
  | [] => []
  | first :: rest =>
      [rest.foldl (fun best pid => if cost pid < cost best then pid else best) first,
        rest.foldl (fun worst pid => if cost pid > cost worst then pid else worst) first]

/-- The lookups of `EDCLDSchedule::IncomingPackets`. -/
def lookups (rate : UInt8 → UInt32) (cost : UInt8 → ℚ) (lastTs : UInt32)
    (costTable : SortedSet UInt8) (pids : List UInt8) (packets : Packets) : List UInt8 :=
  if Unsplit pids packets then []
  else if lastTs = 0 then pids ++ usable rate pids
  else costTable.elems ++ extremes cost costTable.elems

end EDCLDSchedule

/-- The implementations of `Schedule`. -/
inductive Implementation where
  | balanceCost | edcld | minQueue | roundRobin | scale | sfl | waterFilling | wrr
  deriving DecidableEq

/-- A scheduler. `last_ts_` and the keys of `cost_table_` are members of `EDCLDSchedule`;
the others leave them as they are. -/
structure Scheduler where
  implementation : Implementation
  pids : List UInt8 := []
  lastTs : UInt32 := 0
  costTable : SortedSet UInt8 := .empty

namespace Scheduler

/-- What `IncomingPackets` looks up, in order. -/
def lookups (rate : UInt8 → UInt32) (cost : UInt8 → ℚ) (packets : Packets)
    (scheduler : Scheduler) : List UInt8 :=
  let pids := scheduler.pids
  match scheduler.implementation with
  | .balanceCost => BalanceCostSchedule.lookups rate pids packets
  | .edcld => EDCLDSchedule.lookups rate cost scheduler.lastTs scheduler.costTable pids packets
  | .minQueue => MinQueueSchedule.lookups rate pids packets
  | .roundRobin => []
  | .scale => ScaleSchedule.lookups pids packets
  | .sfl => SFLSchedule.lookups pids packets
  | .waterFilling => WaterFillingSchedule.lookups pids packets
  | .wrr => WrrSchedule.lookups pids packets

/-- The scheduler after `IncomingPackets`. -/
def afterFrame (rate : UInt8 → UInt32) (now : UInt32) (packets : Packets)
    (scheduler : Scheduler) : Scheduler :=
  if scheduler.implementation = .edcld ∧ ¬ Unsplit scheduler.pids packets then
    { scheduler with
      lastTs := now
      costTable :=
        if scheduler.lastTs = 0 then
          (EDCLDSchedule.usable rate scheduler.pids).foldl (fun set pid => set.insert pid)
            scheduler.costTable
        else scheduler.costTable }
  else scheduler

/-- `Schedule::RegisterPath`. -/
def addPid (pid : UInt8) (scheduler : Scheduler) : Scheduler :=
  if pid ∈ scheduler.pids then scheduler else { scheduler with pids := scheduler.pids ++ [pid] }

/-- `RegisterPath`, with what it looks up. -/
def registerPath (pid : UInt8) (rate : UInt8 → UInt32) (scheduler : Scheduler) :
    Scheduler × List UInt8 :=
  let scheduler := scheduler.addPid pid
  if scheduler.implementation = .edcld ∧ scheduler.lastTs ≠ 0 then
    let usable := EDCLDSchedule.usable rate scheduler.pids
    ({ scheduler with costTable := usable.foldl (fun set pid => set.insert pid) .empty },
      scheduler.pids ++ usable)
  else (scheduler, [])

/-! ## Registered paths only -/

/-- The paths of the cost table are registered. -/
structure Sound (scheduler : Scheduler) : Prop where
  distinct : scheduler.pids.Nodup
  costTable : ∀ pid ∈ scheduler.costTable, pid ∈ scheduler.pids

theorem mem_lookPids {pids : List UInt8} {packets : Packets} {pid : UInt8}
    (member : pid ∈ lookPids pids packets) : pid ∈ pids := by
  rw [lookPids] at member
  split_ifs at member
  · exact absurd member List.not_mem_nil
  · exact member

theorem mem_usable {rate : UInt8 → UInt32} {pids : List UInt8} (distinct : pids.Nodup)
    {pid : UInt8} (member : pid ∈ EDCLDSchedule.usable rate pids) : pid ∈ pids :=
  ((mem_keys_collectRates distinct).mp member).1

theorem mem_lookCosts {rate : UInt8 → UInt32} {pids : List UInt8} (distinct : pids.Nodup)
    {packets : Packets} {pid : UInt8} (member : pid ∈ lookCosts rate pids packets) :
    pid ∈ pids := by
  rw [lookCosts] at member
  split_ifs at member
  · exact absurd member List.not_mem_nil
  · rcases List.mem_append.mp member with all | compared
    · exact all
    · obtain ⟨_, -, isUsable⟩ := List.mem_flatMap.mp compared
      exact mem_usable distinct isUsable

/-- A choice among paths is one of them. -/
theorem foldl_choice_mem {better : UInt8 → UInt8 → Prop} [DecidableRel better]
    (first : UInt8) (rest : List UInt8) :
    rest.foldl (fun chosen pid => if better pid chosen then pid else chosen) first ∈
      first :: rest := by
  induction rest generalizing first with
  | nil => exact List.mem_cons_self
  | cons pid rest ih =>
      rw [List.foldl_cons]
      rcases List.mem_cons.mp (ih (if better pid first then pid else first)) with chosen | later
      · rw [chosen]
        split_ifs
        · exact List.mem_cons_of_mem _ List.mem_cons_self
        · exact List.mem_cons_self
      · exact List.mem_cons_of_mem _ (List.mem_cons_of_mem _ later)

theorem mem_extremes {cost : UInt8 → ℚ} {pids : List UInt8} {pid : UInt8}
    (member : pid ∈ EDCLDSchedule.extremes cost pids) : pid ∈ pids := by
  cases pids with
  | nil => exact member
  | cons first rest =>
      rcases List.mem_cons.mp member with rfl | isWorst
      · exact foldl_choice_mem first rest
      · obtain rfl := List.mem_singleton.mp isWorst
        exact foldl_choice_mem first rest

variable {scheduler : Scheduler}

/-- **A frame makes the scheduler look up registered paths only.** -/
theorem Sound.lookups_registered (sound : scheduler.Sound) {rate : UInt8 → UInt32}
    {cost : UInt8 → ℚ} {packets : Packets} {pid : UInt8}
    (member : pid ∈ scheduler.lookups rate cost packets) : pid ∈ scheduler.pids := by
  rw [lookups] at member
  cases same : scheduler.implementation with
  | balanceCost | minQueue =>
      rw [same] at member
      exact mem_lookCosts sound.distinct member
  | roundRobin =>
      rw [same] at member
      exact absurd member List.not_mem_nil
  | scale | sfl | waterFilling | wrr =>
      rw [same] at member
      exact mem_lookPids member
  | edcld =>
      simp only [same, EDCLDSchedule.lookups] at member
      split_ifs at member
      · exact absurd member List.not_mem_nil
      · exact (List.mem_append.mp member).elim id (mem_usable sound.distinct)
      · rcases List.mem_append.mp member with inTable | isExtreme
        · exact sound.costTable pid inTable
        · exact sound.costTable pid (mem_extremes isExtreme)

theorem afterFrame_pids (rate : UInt8 → UInt32) (now : UInt32) (packets : Packets)
    (scheduler : Scheduler) : (scheduler.afterFrame rate now packets).pids = scheduler.pids := by
  rw [afterFrame]
  split_ifs <;> rfl

theorem Sound.afterFrame (sound : scheduler.Sound) (rate : UInt8 → UInt32) (now : UInt32)
    (packets : Packets) : (scheduler.afterFrame rate now packets).Sound := by
  refine ⟨(afterFrame_pids rate now packets scheduler).symm ▸ sound.distinct, ?_⟩
  rw [afterFrame_pids, Scheduler.afterFrame]
  split_ifs
  · intro pid member
    rcases SortedSet.mem_foldl_insert.mp member with isUsable | inTable
    · exact mem_usable sound.distinct isUsable
    · exact sound.costTable pid inTable
  · exact sound.costTable
  · exact sound.costTable

theorem Sound.addPid (sound : scheduler.Sound) (pid : UInt8) : (scheduler.addPid pid).Sound := by
  rw [Scheduler.addPid]
  split_ifs with registered
  · exact sound
  · refine ⟨?_, fun other inTable => List.mem_append_left _ (sound.costTable other inTable)⟩
    exact List.nodup_append'.mpr ⟨sound.distinct, List.nodup_singleton pid,
      List.disjoint_singleton.mpr registered⟩

theorem mem_addPid {pid other : UInt8} :
    other ∈ (scheduler.addPid pid).pids ↔ other = pid ∨ other ∈ scheduler.pids := by
  rw [addPid]
  split_ifs with registered
  · exact (or_iff_right_of_imp fun same => same ▸ registered).symm
  · rw [List.mem_append, List.mem_singleton, or_comm]

/-- The scheduler looks paths up while one is registered. -/
def Rebuilds (scheduler : Scheduler) : Prop :=
  scheduler.implementation = .edcld ∧ scheduler.lastTs ≠ 0

theorem addPid_eq (pid : UInt8) (scheduler : Scheduler) :
    ∃ pids, scheduler.addPid pid = { scheduler with pids } := by
  rw [addPid]
  split_ifs
  · exact ⟨scheduler.pids, rfl⟩
  · exact ⟨_, rfl⟩

theorem registerPath_pids (pid : UInt8) (rate : UInt8 → UInt32) (scheduler : Scheduler) :
    (scheduler.registerPath pid rate).1.pids = (scheduler.addPid pid).pids := by
  rw [registerPath]
  dsimp only
  split_ifs <;> rfl

/-- **What a scheduler looks up when a path is registered**: nothing, or all paths, the
new one included. -/
theorem registerPath_lookups (pid : UInt8) (rate : UInt8 → UInt32) (scheduler : Scheduler) :
    (¬ scheduler.Rebuilds ∧ (scheduler.registerPath pid rate).2 = []) ∨
      (scheduler.Rebuilds ∧ (scheduler.registerPath pid rate).2 =
        (scheduler.addPid pid).pids ++
          EDCLDSchedule.usable rate (scheduler.addPid pid).pids) := by
  obtain ⟨pids, added⟩ := addPid_eq pid scheduler
  have same : ((scheduler.addPid pid).implementation = .edcld ∧
      (scheduler.addPid pid).lastTs ≠ 0) ↔ scheduler.Rebuilds := by
    rw [added]
    exact Iff.rfl
  by_cases rebuilds : scheduler.Rebuilds
  · exact .inr ⟨rebuilds, congrArg Prod.snd (if_pos (same.mpr rebuilds))⟩
  · exact .inl ⟨rebuilds, congrArg Prod.snd (if_neg (mt same.mp rebuilds))⟩

theorem Sound.registerPath (sound : scheduler.Sound) (pid : UInt8) (rate : UInt8 → UInt32) :
    (scheduler.registerPath pid rate).1.Sound := by
  have added := sound.addPid pid
  refine ⟨(registerPath_pids pid rate scheduler).symm ▸ added.distinct, ?_⟩
  rw [registerPath_pids, Scheduler.registerPath]
  dsimp only
  split_ifs
  · intro other member
    refine mem_usable added.distinct ((SortedSet.mem_foldl_insert.mp member).resolve_right ?_)
    exact SortedSet.not_mem_empty other
  · exact added.costTable

end Scheduler

/-! ## The tables of EDCLD -/

namespace EdcldTables

/-- What matters for the lookups. -/
def scheduler (tables : EdcldTables) : Scheduler where
  implementation := .edcld
  pids := tables.pids
  lastTs := tables.lastTs
  costTable := ⟨tables.costTable.keys, tables.costTable.keys_sorted⟩

/-- The keys of the cost table that is built. -/
theorem Builds.costTable_eq {readings : Readings} {tables next : EdcldTables}
    (builds : Builds readings tables next) :
    next.scheduler.costTable =
      (EDCLDSchedule.usable (storedRate readings) tables.pids).foldl
        (fun set pid => set.insert pid) tables.scheduler.costTable := by
  apply SortedSet.ext_mem
  intro pid
  rw [SortedSet.mem_foldl_insert, or_comm]
  refine (builds.cost pid).trans (or_congr_right ?_)
  rw [ratios, SortedMap.keys_mapVal, EDCLDSchedule.usable]

theorem scheduler_eq {tables : EdcldTables} {pids : List UInt8} {lastTs : UInt32}
    {costTable : SortedSet UInt8} (samePids : tables.pids = pids)
    (sameTs : tables.lastTs = lastTs) (sameTable : tables.scheduler.costTable = costTable) :
    tables.scheduler = { implementation := .edcld, pids, lastTs, costTable } := by
  subst samePids sameTs sameTable
  rfl

/-- **Frames of EDCLD are frames of the scheduler.** -/
theorem scheduler_incomingPackets {sqrt : ℚ → ℚ} {readings : Readings} {now size : UInt32}
    {packets : Packets} {tables next : EdcldTables} {calls : Calls} (sound : tables.Sound)
    (came : EDCLDSchedule.incomingPackets sqrt readings now packets size tables =
      some (next, calls)) :
    next.scheduler = tables.scheduler.afterFrame (storedRate readings) now packets := by
  rw [Scheduler.afterFrame]
  rcases incomingPackets_cases sound.nonneg came with
    ⟨unsplit, _, _, kept⟩ | ⟨split, lastTs, ⟨first, builds⟩ | ⟨later, moves⟩⟩
  · rw [if_neg fun both => both.2 unsplit, kept]
    rfl
  · rw [if_pos ⟨rfl, split⟩]
    refine scheduler_eq builds.pids lastTs ?_
    exact builds.costTable_eq.trans (if_pos first).symm
  · rw [if_pos ⟨rfl, split⟩]
    refine scheduler_eq moves.pids lastTs ?_
    exact (SortedSet.ext_mem moves.costKeys).trans (if_neg later).symm

/-- **Registering with EDCLD is registering with the scheduler.** -/
theorem scheduler_registerPath {pid : UInt8} {readings : Readings} {tables next : EdcldTables}
    (registered : tables.registerPath pid readings = some next) :
    next.scheduler = (tables.scheduler.registerPath pid (storedRate readings)).1 := by
  have added : (tables.addPid pid).scheduler = tables.scheduler.addPid pid := by
    rw [addPid, Scheduler.addPid]
    by_cases known : pid ∈ tables.pids
    · rw [if_pos known]
      exact (if_pos known).symm
    · rw [if_neg known]
      exact (if_neg known).symm
  have pids : (tables.addPid pid).pids = (tables.scheduler.addPid pid).pids :=
    congrArg Scheduler.pids added
  have sameTs : (tables.scheduler.addPid pid).lastTs = tables.lastTs := by
    obtain ⟨pids, isAdded⟩ := Scheduler.addPid_eq pid tables.scheduler
    rw [isAdded]
    rfl
  have edcld : (tables.scheduler.addPid pid).implementation = .edcld :=
    congrArg Scheduler.implementation added.symm
  rw [Scheduler.registerPath]
  dsimp only
  obtain ⟨lastTs, ⟨first, rfl⟩ | ⟨later, builds⟩⟩ := registerPath_cases registered
  · rw [if_neg fun both => both.2 (sameTs.trans first)]
    exact added
  · rw [if_pos ⟨edcld, by rwa [sameTs]⟩, ← pids]
    rw [scheduler_eq builds.pids lastTs builds.costTable_eq, Scheduler.mk.injEq]
    exact ⟨edcld.symm, rfl, sameTs.symm, rfl⟩

end EdcldTables

end MpVideo.Schedule
