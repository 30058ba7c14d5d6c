import Mathlib.Algebra.Order.Field.Basic
import Mathlib.Algebra.Order.AbsoluteValue.Basic
import Mathlib.Logic.Function.Iterate
import Mathlib.Tactic.Linarith
import Mathlib.Tactic.Ring

/-!
# Exponential smoothing

A smoothed value moves towards each sample by a fixed part of the distance. The value zero
means that there was no sample yet, and the first sample is taken as it is.

With the same sample again and again the value stays where one step left it exactly when it
was unset or was the sample already (`iterate_smooth_eq_iff`).
-/

set_option autoImplicit false

namespace Smoothing

section Field

variable {K : Type} [Field K] [DecidableEq K]

/-- The smoothed value after a sample. -/
def smooth (coeff sample value : K) : K :=
  if value = 0 then sample else (1 - coeff) * value + coeff * sample

variable {coeff sample value : K}

theorem smooth_sub (set : value ≠ 0) :
    smooth coeff sample value - sample = (1 - coeff) * (value - sample) := by
  rw [smooth, if_neg set]
  ring

/-- An unset value and the sample itself become the sample. -/
theorem smooth_of_settled (settled : value = 0 ∨ value = sample) :
    smooth coeff sample value = sample := by
  rcases settled with rfl | rfl
  · exact if_pos rfl
  · rw [smooth]
    split_ifs
    · rfl
    · ring

theorem iterate_smooth_settled (settled : value = 0 ∨ value = sample) (n : Nat) :
    (smooth coeff sample)^[n + 1] value = sample := by
  rw [Function.iterate_succ_apply, smooth_of_settled settled]
  exact Function.iterate_fixed (smooth_of_settled (.inr rfl)) n

end Field

section Order

variable {K : Type} [Field K] [LinearOrder K] [IsStrictOrderedRing K] {coeff sample value : K}

/-- The distance from the sample gets smaller. -/
theorem abs_smooth_lt (positive : 0 < coeff) (part : coeff < 1) (away : value ≠ sample) :
    |smooth coeff sample value - sample| < |value - sample| := by
  have apart : 0 < |value - sample| := abs_pos.mpr (sub_ne_zero.mpr away)
  by_cases unset : value = 0
  · rw [smooth_of_settled (.inl unset), sub_self, abs_zero]
    exact apart
  · rw [smooth_sub unset, abs_mul, abs_of_pos (sub_pos.mpr part)]
    nlinarith

/-- After any number of steps the distance is not larger. -/
theorem abs_iterate_smooth_le (positive : 0 < coeff) (part : coeff < 1) (n : Nat) (value : K) :
    |(smooth coeff sample)^[n] value - sample| ≤ |value - sample| := by
  induction n generalizing value with
  | zero => exact le_rfl
  | succ n ih =>
      rw [Function.iterate_succ_apply]
      by_cases there : value = sample
      · rw [smooth_of_settled (.inr there), there]
        exact ih sample
      · exact (ih _).trans (abs_smooth_lt positive part there).le

/-- **Further steps leave the value of the first one if and only if** there are none, the
value was unset, or it was the sample. -/
theorem iterate_smooth_eq_iff (positive : 0 < coeff) (part : coeff < 1) (n : Nat) (value : K) :
    (smooth coeff sample)^[n + 1] value = smooth coeff sample value ↔
      n = 0 ∨ value = 0 ∨ value = sample := by
  constructor
  · intro same
    by_contra none
    push Not at none
    obtain ⟨several, set, away⟩ := none
    obtain ⟨m, rfl⟩ := Nat.exists_eq_succ_of_ne_zero several
    have still : smooth coeff sample value ≠ sample := by
      intro there
      have product : smooth coeff sample value - sample = (1 - coeff) * (value - sample) :=
        smooth_sub set
      rw [there, sub_self, eq_comm, mul_eq_zero] at product
      exact product.elim (ne_of_gt (sub_pos.mpr part)) (sub_ne_zero.mpr away)
    have nearer := (abs_iterate_smooth_le positive part m
      (smooth coeff sample (smooth coeff sample value))).trans_lt
        (abs_smooth_lt positive part still)
    rw [← Function.iterate_succ_apply, ← Function.iterate_succ_apply, same] at nearer
    exact lt_irrefl _ nearer
  · rintro (rfl | settled)
    · rfl
    · rw [iterate_smooth_settled settled, smooth_of_settled settled]

end Order

end Smoothing
