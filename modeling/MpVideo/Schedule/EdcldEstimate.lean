import MpVideo.Lib.Smoothing
import MpVideo.Schedule.EdcldTables

/-!
# The arrival rate that EDCLD estimates

`UpdateCostAndPsiTable` smooths the arrival rate in its loop over the paths, so a frame
advances `smooth_rate_` once for each path of `cost_table_`, and the residual rates of the
paths are computed from different estimates.

A frame advances the estimate by exactly one step, and every residual rate is the one of
the estimate in the quadratic, if and only if there is one path or further steps change
nothing (`oneEstimate_iff`).
-/

set_option autoImplicit false

namespace MpVideo.Schedule

open Smoothing

namespace EdcldTables

/-- The arrival rate of a frame of `len` bytes after `T` milliseconds. -/
def arrivalRate (T len : UInt32) : ℚ := len.toNat * 8 * 1000 / T.toNat

/-- What a frame is to do with the estimate: one step of smoothing, and residual rates
that belong to the estimate of the quadratic. -/
structure OneEstimate (readings : Readings) (T len : UInt32) (tables : EdcldTables)
    (loop : CostLoop) : Prop where
  smoothRate : loop.tables.smoothRate = smoothed T len tables.smoothRate
  residual : ∀ pid S, loop.sTable.find? pid = some S →
    ∃ psi, tables.psiTable.find? pid = some psi ∧
      S = (readings pid).rate.toUInt32.toNat - psi * loop.tables.smoothRate

variable {readings : Readings} {T len : UInt32}

theorem smoothed_eq (elapsed : T ≠ 0) : smoothed T len = smooth coeff (arrivalRate T len) := by
  funext smoothRate
  rw [smoothed, if_neg elapsed]
  rfl

theorem coeff_part : 0 < coeff ∧ coeff < 1 := by
  constructor <;> norm_num [coeff]

/-- **The loop smooths once for each path.** -/
theorem updateCosts_smoothRate {list : List (UInt8 × ℚ)} {loop last : CostLoop}
    (updated : updateCosts readings T len list loop = some last) :
    last.tables.smoothRate = (smoothed T len)^[list.length] loop.tables.smoothRate ∧
      last.tables.psiTable = loop.tables.psiTable := by
  induction list generalizing loop with
  | nil =>
      obtain rfl := Option.some.inj updated
      exact ⟨rfl, rfl⟩
  | cons entry rest ih =>
      rw [updateCosts] at updated
      split at updated
      · cases updated
      · dsimp only at updated
        split at updated
        · cases updated
        · obtain ⟨rate, psi⟩ := ih updated
          exact ⟨rate, psi⟩

/-- With a fixed estimate every residual rate belongs to it. -/
theorem updateCosts_residual {estimate : ℚ} {list : List (UInt8 × ℚ)} {loop last : CostLoop}
    (fixed : ∀ n < list.length,
      (smoothed T len)^[n + 1] loop.tables.smoothRate = estimate)
    (residual : ∀ pid S, loop.sTable.find? pid = some S →
      ∃ psi, loop.tables.psiTable.find? pid = some psi ∧
        S = (readings pid).rate.toUInt32.toNat - psi * estimate)
    (updated : updateCosts readings T len list loop = some last) :
    ∀ pid S, last.sTable.find? pid = some S →
      ∃ psi, loop.tables.psiTable.find? pid = some psi ∧
        S = (readings pid).rate.toUInt32.toNat - psi * estimate := by
  induction list generalizing loop with
  | nil =>
      obtain rfl := Option.some.inj updated
      exact residual
  | cons entry rest ih =>
      rw [updateCosts] at updated
      split at updated
      · cases updated
      · next tempPsi psi =>
          dsimp only at updated
          split at updated
          · cases updated
          · have here : smoothed T len loop.tables.smoothRate = estimate :=
              fixed 0 (Nat.succ_pos _)
            intro pid S found
            refine ih ?_ ?_ updated pid S found
            · intro n inside
              exact fixed (n + 1) (Nat.succ_lt_succ inside)
            · intro pid S found
              rw [SortedMap.find?_insert] at found
              split_ifs at found with same
              · subst same
                cases old : loop.sTable.find? entry.1 with
                | some value =>
                    rw [old, Option.getD_some, Option.some.injEq] at found
                    exact found ▸ residual entry.1 value old
                | none =>
                    rw [old, Option.getD_none, Option.some.injEq, here] at found
                    exact ⟨tempPsi, psi, found.symm⟩
              · exact residual pid S found

theorem moveShare_smoothRate {sqrt : ℚ → ℚ} {best worst : UInt8} {loop : CostLoop}
    {next : EdcldTables} (moved : moveShare sqrt readings best worst loop = some next) :
    next.smoothRate = loop.tables.smoothRate := by
  rw [moveShare] at moved
  dsimp only at moved
  split at moved
  · split at moved
    · cases moved
    · obtain ⟨delta, -, rfl⟩ := Option.map_eq_some_iff.mp moved
      rfl
  · cases moved

/-- **A frame has one estimate if and only if** there is one path, there was no estimate, or
the estimate was the arrival rate of the frame. -/
theorem oneEstimate_iff {sqrt : ℚ → ℚ} {now : UInt32} {tables next : EdcldTables}
    (elapsed : now - tables.lastTs ≠ 0)
    (updated : tables.updateCostAndPsiTable sqrt readings now len = some next) :
    ∃ loop, updateCosts readings (now - tables.lastTs) len tables.costTable.entries { tables } =
        some loop ∧
      next.smoothRate = loop.tables.smoothRate ∧
      (OneEstimate readings (now - tables.lastTs) len tables loop ↔
        tables.costTable.size = 1 ∨ tables.smoothRate = 0 ∨
          tables.smoothRate = arrivalRate (now - tables.lastTs) len) := by
  obtain ⟨loop, looped, chosen⟩ := Option.bind_eq_some_iff.mp updated
  obtain ⟨⟨best, worst⟩, found, moved⟩ := Option.bind_eq_some_iff.mp chosen
  obtain ⟨rate, -⟩ := updateCosts_smoothRate looped
  have some : tables.costTable.entries ≠ [] := by
    intro none
    rw [none] at looped
    obtain rfl := Option.some.inj looped
    rw [bestAndWorst, none] at found
    cases found
  obtain ⟨n, count⟩ := Nat.exists_eq_succ_of_ne_zero
    (Nat.ne_of_gt (List.length_pos_iff.mpr some))
  have one : tables.costTable.size = 1 ↔ n = 0 := by
    rw [SortedMap.size, count]
    omega
  rw [count, smoothed_eq elapsed] at rate
  have steps : (smooth coeff (arrivalRate (now - tables.lastTs) len))^[n + 1] tables.smoothRate =
      smooth coeff (arrivalRate (now - tables.lastTs) len) tables.smoothRate ↔ _ :=
    iterate_smooth_eq_iff coeff_part.1 coeff_part.2 n tables.smoothRate
  refine ⟨loop, looped, ?_, ?_⟩
  · exact moveShare_smoothRate moved
  · rw [one]
    constructor
    · intro estimate
      apply steps.mp
      rw [← rate, estimate.smoothRate, smoothed_eq elapsed]
    · intro condition
      have step := rate.trans (steps.mpr condition)
      refine ⟨by rw [smoothed_eq elapsed]; exact step, ?_⟩
      refine updateCosts_residual ?_ (fun pid S found => ?_) looped
      · intro m inside
        rw [smoothed_eq elapsed, step]
        rw [count] at inside
        refine (iterate_smooth_eq_iff coeff_part.1 coeff_part.2 m tables.smoothRate).mpr ?_
        exact condition.imp_left (by omega)
      · cases found

/-- Two paths with equal readings, and an estimate. -/
def twoPaths (smoothRate : ℚ) : EdcldTables where
  w := 1 / 2
  pids := [1, 2]
  lastTs := 1000
  costTable := ⟨[(1, 50), (2, 50)], by decide⟩
  psiTable := halves
  averagePacketLen := 1030
  packetCounter := 2
  smoothRate := smoothRate

/-- A rate of one megabit per second, and no queue. -/
def idleReadings : Readings := fun _ => { rtt := 50, rate := 1000000, pendingLen := 0 }

/-- The first estimate of two paths. -/
theorem oneEstimate_first :
    ∃ loop, updateCosts idleReadings 1000 2060 (twoPaths 0).costTable.entries
        { tables := twoPaths 0 } = some loop ∧
      OneEstimate idleReadings 1000 2060 (twoPaths 0) loop := by
  have updated : ((twoPaths 0).updateCostAndPsiTable id idleReadings 2000 2060).isSome := by
    decide +kernel
  obtain ⟨next, isNext⟩ := Option.isSome_iff_exists.mp updated
  obtain ⟨loop, looped, -, estimate⟩ := oneEstimate_iff (by decide) isNext
  exact ⟨loop, looped, estimate.mpr (.inr (.inl rfl))⟩

/-- **A second path is a second step**: the rate falls from 32960 to 16480 bits per second,
and the estimate is advanced twice. -/
theorem twoPaths_twoSteps :
    ∃ next loop, (twoPaths 32960).updateCostAndPsiTable id idleReadings 2000 2060 = some next ∧
      updateCosts idleReadings 1000 2060 (twoPaths 32960).costTable.entries
        { tables := twoPaths 32960 } = some loop ∧
      ¬ OneEstimate idleReadings 1000 2060 (twoPaths 32960) loop := by
  have updated : ((twoPaths 32960).updateCostAndPsiTable id idleReadings 2000 2060).isSome := by
    decide +kernel
  have looped : (updateCosts idleReadings 1000 2060 (twoPaths 32960).costTable.entries
      { tables := twoPaths 32960 }).map (fun loop => loop.tables.smoothRate) =
        some (smoothed 1000 2060 (smoothed 1000 2060 32960)) := by
    decide +kernel
  obtain ⟨next, isNext⟩ := Option.isSome_iff_exists.mp updated
  obtain ⟨loop, isLoop, rate⟩ := Option.map_eq_some_iff.mp looped
  refine ⟨next, loop, isNext, isLoop, fun estimate => ?_⟩
  have same := estimate.smoothRate.symm.trans rate
  change smoothed 1000 2060 32960 = _ at same
  exact absurd same (by decide +kernel)

end EdcldTables

end MpVideo.Schedule
