import Mathlib.Algebra.Order.Field.Basic
import Mathlib.Data.Real.Basic
import Mathlib.Tactic.FieldSimp
import Mathlib.Tactic.LinearCombination
import Mathlib.Tactic.Linarith
import Mathlib.Tactic.NormNum
import Mathlib.Tactic.Ring

/-!
# The balance equation of EDCLD

The quadratic that `UpdateCostAndPsiTable` of `edcldschedule.cc` and `edcld_v1.cc`
solves, with the names of the source. All numbers are exact, in any ordered field.

The costs of the best and the worst path are equal exactly at the roots of the
quadratic that the comment in the source derives (`balanced_iff_root`). The program
computes the middle coefficient as `lambda - (2 - k * s_s)`, where the comment has
the product of the two. A root of what it computes balances the costs only if it is
zero or the product and the difference happen to be the same number
(`balanced_iff_of_root`).
-/

set_option autoImplicit false

namespace MpVideo.Schedule

variable {K : Type} [Field K]

/-- What the cost of a path depends on: delay, rate, queue and residual service rate. -/
structure CostTerms (K : Type) where
  D : K
  B : K
  Q : K
  S : K

/-- The coefficients of a quadratic. -/
structure Coefficients (K : Type) where
  a : K
  b : K
  c : K

/-- A root of the quadratic. -/
def Coefficients.Root (coefficients : Coefficients K) (x : K) : Prop :=
  coefficients.a * x ^ 2 + coefficients.b * x + coefficients.c = 0

/-- The number `k` of the source. -/
def costGap (w L : K) (best worst : CostTerms K) : K :=
  (best.D - worst.D) / ((1 - w) * L) +
    w / ((1 - w) * L) * (best.Q / best.B - worst.Q / worst.B)

/-- The coefficients that `UpdateCostAndPsiTable` computes, the same in both schedulers. -/
def balanceCoefficients (w L lambda : K) (best worst : CostTerms K) : Coefficients K :=
  let k := costGap w L best worst
  let s_s := worst.S - best.S
  { a := -k * lambda * lambda
    b := lambda - ((2 : ℕ) - k * s_s)
    c := s_s + k * worst.S * best.S }

namespace EDCLDSchedule

/-- The coefficients in `EDCLDSchedule::UpdateCostAndPsiTable`. -/
def coefficients : K → K → K → CostTerms K → CostTerms K → Coefficients K :=
  balanceCoefficients

end EDCLDSchedule

namespace EDCLDScheduleV1

/-- The coefficients in `EDCLDScheduleV1::UpdateCostAndPsiTable`. -/
def coefficients : K → K → K → CostTerms K → CostTerms K → Coefficients K :=
  balanceCoefficients

end EDCLDScheduleV1

/-! ## Costs -/

/-- The cost of a path whose residual service rate is `s`. -/
def CostTerms.costAt (w L : K) (path : CostTerms K) (s : K) : K :=
  path.D + (1 - w) * L / s + w * path.Q / path.B

/-- Moving the share `x` from the worst to the best path makes their costs equal. -/
def Balanced (w L lambda : K) (best worst : CostTerms K) (x : K) : Prop :=
  best.costAt w L (best.S - x * lambda) = worst.costAt w L (worst.S + x * lambda)

/-- The coefficients that the comment in the source derives. -/
def derivedCoefficients (w L lambda : K) (best worst : CostTerms K) : Coefficients K :=
  let k := costGap w L best worst
  { a := -k * lambda ^ 2
    b := lambda * ((2 : ℕ) - k * (worst.S - best.S))
    c := worst.S - best.S + k * worst.S * best.S }

section Costs

variable {w L lambda x : K} {best worst : CostTerms K}

/-- The equation for `k` in the comment. -/
theorem balanced_iff_costGap (share : 1 - w ≠ 0) (packet : L ≠ 0) :
    Balanced w L lambda best worst x ↔
      costGap w L best worst =
        1 / (worst.S + x * lambda) - 1 / (best.S - x * lambda) := by
  have nonzero : (1 - w) * L ≠ 0 := mul_ne_zero share packet
  have difference : best.costAt w L (best.S - x * lambda) -
      worst.costAt w L (worst.S + x * lambda) = (1 - w) * L * (costGap w L best worst -
        (1 / (worst.S + x * lambda) - 1 / (best.S - x * lambda))) := by
    have delays : (1 - w) * L * costGap w L best worst = best.D - worst.D +
        w * (best.Q / best.B - worst.Q / worst.B) := by
      rw [costGap]
      field_simp
    rw [mul_sub, delays, CostTerms.costAt, CostTerms.costAt]
    ring
  rw [Balanced, ← sub_eq_zero, difference, mul_eq_zero, sub_eq_zero]
  exact or_iff_right nonzero

/-- **The costs are balanced at the roots of the derived quadratic.** -/
theorem balanced_iff_root (share : 1 - w ≠ 0) (packet : L ≠ 0)
    (worstServed : worst.S + x * lambda ≠ 0) (bestServed : best.S - x * lambda ≠ 0) :
    Balanced w L lambda best worst x ↔
      (derivedCoefficients w L lambda best worst).Root x := by
  rw [balanced_iff_costGap share packet, div_sub_div _ _ worstServed bestServed,
    eq_div_iff (mul_ne_zero worstServed bestServed), Coefficients.Root, derivedCoefficients]
  constructor
  · intro cleared
    linear_combination cleared
  · intro root
    linear_combination root

/-- At a root of the computed quadratic, the derived one is off by the error in `b`. -/
theorem derived_root_iff (root : (balanceCoefficients w L lambda best worst).Root x) :
    (derivedCoefficients w L lambda best worst).Root x ↔
      x = 0 ∨ (2 - costGap w L best worst * (worst.S - best.S)) * (lambda + 1) = lambda := by
  rw [Coefficients.Root, balanceCoefficients] at root
  rw [Coefficients.Root, derivedCoefficients, ← sub_eq_zero (b := lambda), ← mul_eq_zero]
  constructor
  · intro derived
    linear_combination derived - root
  · intro difference
    linear_combination difference + root

end Costs

/-- **A root of the computed quadratic balances the costs if and only if** it is zero, or
`lambda` times `2 - k * (S_worst - S_best)` is `lambda` minus that number. -/
theorem balanced_iff_of_root [LinearOrder K] [IsStrictOrderedRing K] {w L lambda x : K}
    {best worst : CostTerms K} (share : w < 1) (packet : 0 < L)
    (root : (EDCLDSchedule.coefficients w L lambda best worst).Root x ∨
      (EDCLDScheduleV1.coefficients w L lambda best worst).Root x)
    (worstServed : worst.S + x * lambda ≠ 0) (bestServed : best.S - x * lambda ≠ 0) :
    Balanced w L lambda best worst x ↔
      x = 0 ∨ (2 - costGap w L best worst * (worst.S - best.S)) * (lambda + 1) = lambda := by
  rw [balanced_iff_root (sub_ne_zero.mpr (ne_of_gt share)) (ne_of_gt packet) worstServed
    bestServed]
  exact derived_root_iff (or_self_iff.mp root)

/-- A path of 35 bits per second with an empty queue, whose residual rate is 30. -/
def idleBest (K : Type) [Field K] : CostTerms K := ⟨10, 35, 0, 30⟩

/-- A path like it, with 2 bits per second less. -/
def idleWorst (K : Type) [Field K] : CostTerms K := ⟨10, 33, 0, 28⟩

/-- The root for the two paths, at 10 bits per second. -/
theorem idle_root :
    (EDCLDSchedule.coefficients (1 / 2) 8 10 (idleBest ℝ) (idleWorst ℝ)).Root (1 / 4) := by
  norm_num [Coefficients.Root, EDCLDSchedule.coefficients, balanceCoefficients, costGap, idleBest,
    idleWorst]

theorem idle_balanced_iff : Balanced (1 / 2) 8 10 (idleBest ℝ) (idleWorst ℝ) (1 / 4) ↔
    (1 / 4 : ℝ) = 0 ∨
      (2 - costGap (1 / 2) 8 (idleBest ℝ) (idleWorst ℝ) * (28 - 30)) * (10 + 1) = (10 : ℝ) :=
  balanced_iff_of_root (by norm_num) (by norm_num) (.inl idle_root)
    (by norm_num [idleWorst]) (by norm_num [idleBest])

/-- The costs of the two paths differ at that root. -/
theorem idle_unbalanced :
    ((EDCLDSchedule.coefficients (1 / 2) 8 10 (idleBest ℝ) (idleWorst ℝ)).Root (1 / 4) ∧
      (EDCLDScheduleV1.coefficients (1 / 2) 8 10 (idleBest ℝ) (idleWorst ℝ)).Root (1 / 4)) ∧
    (idleWorst ℝ).S + 1 / 4 * 10 ≠ 0 ∧ (idleBest ℝ).S - 1 / 4 * 10 ≠ 0 ∧
      ¬ Balanced (1 / 2) 8 10 (idleBest ℝ) (idleWorst ℝ) (1 / 4) := by
  refine ⟨⟨idle_root, idle_root⟩, ?_, ?_, ?_⟩ <;>
  norm_num [Balanced, CostTerms.costAt, idleBest, idleWorst]

end MpVideo.Schedule
