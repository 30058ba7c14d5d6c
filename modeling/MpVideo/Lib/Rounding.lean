import Mathlib.Algebra.Order.Floor.Ring
import Mathlib.Algebra.Order.Floor.Semifield
import Mathlib.Data.Int.Log
import Mathlib.Tactic.FieldSimp
import Mathlib.Tactic.Linarith
import Mathlib.Tactic.NormNum
import Mathlib.Tactic.Ring

/-!
# Rounding to significant bits

A number is representable with `p` bits if it is a natural number below `2 ^ p`
times a power of two. Rounding chooses the nearest such number, and half-way the one
with an even mantissa, as binary floating point does within its range of exponents.

What users of the rounding need is that it is monotone (`round_mono`), leaves the
representable numbers alone (`round_of_representable`), and has no others as results
(`representable_round`). Fractions of small numbers are far enough from the next
half-integer to be rounded like exact ones (`half_le_round_div_iff`,
`floor_round_div_add_half`). Negative numbers are not considered.
-/

set_option autoImplicit false

universe u

namespace Rounding

variable {K : Type u} [Field K] [LinearOrder K]

/-! ## The nearest integer -/

section

variable [FloorRing K]

/-- The nearest integer, half-way the even one. -/
def nearestEven (x : K) : ℤ :=
  if x - ⌊x⌋ < 1 / 2 then ⌊x⌋
  else if 1 / 2 < x - ⌊x⌋ then ⌊x⌋ + 1
  else if ⌊x⌋ % 2 = 0 then ⌊x⌋
  else ⌊x⌋ + 1

theorem floor_le_nearestEven (x : K) : ⌊x⌋ ≤ nearestEven x := by
  rw [nearestEven]
  split_ifs <;> omega

theorem nearestEven_le_floor (x : K) : nearestEven x ≤ ⌊x⌋ + 1 := by
  rw [nearestEven]
  split_ifs <;> omega

end

variable [IsStrictOrderedRing K] [FloorRing K]

@[simp] theorem nearestEven_intCast (n : ℤ) : nearestEven (n : K) = n := by
  rw [nearestEven, Int.floor_intCast, sub_self, if_pos one_half_pos]

theorem nearestEven_mono {x y : K} (le : x ≤ y) : nearestEven x ≤ nearestEven y := by
  cases lt_or_eq_of_le (Int.floor_mono le) with
  | inl less =>
      calc nearestEven x ≤ ⌊x⌋ + 1 := nearestEven_le_floor x
        _ ≤ ⌊y⌋ := less
        _ ≤ nearestEven y := floor_le_nearestEven y
  | inr same =>
      have parts : x - ⌊x⌋ ≤ y - ⌊y⌋ := by
        rw [same]
        exact sub_le_sub_right le _
      rw [nearestEven, nearestEven, same] at *
      split_ifs <;> first | omega | (exfalso; linarith)

/-! ## Significant bits -/

/-- The distance between neighbouring numbers with `p` bits at the size of `x`. -/
def unit (p : ℕ) (x : K) : K := 2 ^ (Int.log 2 x + 1 - p)

/-- The nearest number with `p` significant bits. -/
def round (p : ℕ) (x : K) : K := nearestEven (x / unit p x) * unit p x

/-- A number with `p` significant bits. -/
def Representable (p : ℕ) (x : K) : Prop := ∃ (a : ℕ) (e : ℤ), a < 2 ^ p ∧ x = a * 2 ^ e

theorem unit_pos (p : ℕ) (x : K) : 0 < unit p x := zpow_pos two_pos _

@[simp] theorem round_zero (p : ℕ) : round p (0 : K) = 0 := by
  have zero : nearestEven (0 : K) = 0 := by simpa using nearestEven_intCast (K := K) 0
  rw [round, zero_div, zero, Int.cast_zero, zero_mul]

/-- The bits of a number, as powers of two in its unit. -/
theorem two_zpow_eq (p : ℕ) (x : K) (n : ℤ) :
    (2 : K) ^ (Int.log 2 x + 1 - p + n) = 2 ^ n * unit p x := by
  rw [unit, zpow_add₀ (ne_of_gt two_pos), mul_comm]

theorem le_div_unit {p : ℕ} {x : K} (positive : 0 < x) : (2 : K) ^ ((p : ℤ) - 1) ≤ x / unit p x := by
  rw [le_div_iff₀ (unit_pos p x), ← two_zpow_eq]
  have below := Int.zpow_log_le_self (b := 2) Nat.one_lt_two positive
  simpa using below

theorem div_unit_lt (p : ℕ) (x : K) : x / unit p x < (2 : K) ^ (p : ℤ) := by
  rw [div_lt_iff₀ (unit_pos p x), ← two_zpow_eq]
  have above := Int.lt_zpow_succ_log_self (b := 2) Nat.one_lt_two x
  simpa using above

/-- **A representable number is a whole number of its units**, and is not changed. -/
theorem round_of_representable {p : ℕ} {x : K} (representable : Representable p x) :
    round p x = x := by
  obtain ⟨a, e, small, rfl⟩ := representable
  rcases Nat.eq_zero_or_pos a with rfl | some
  · simp
  · have positive : (0 : K) < a * 2 ^ e := mul_pos (Nat.cast_pos.mpr some) (zpow_pos two_pos e)
    have mantissa : (a : K) < 2 ^ p := by exact_mod_cast small
    have less : Int.log 2 ((a : K) * 2 ^ e) < p + e := by
      apply (Int.lt_zpow_iff_log_lt (b := 2) Nat.one_lt_two positive).mp
      rw [Nat.cast_ofNat, zpow_add₀ two_ne_zero, zpow_natCast]
      exact mul_lt_mul_of_pos_right mantissa (zpow_pos two_pos e)
    obtain ⟨k, gap⟩ := Int.eq_ofNat_of_zero_le
      (show 0 ≤ e - (Int.log 2 ((a : K) * 2 ^ e) + 1 - p) by omega)
    have whole : (a : K) * 2 ^ e / unit p ((a : K) * 2 ^ e) = ((a * 2 ^ k : ℤ) : K) := by
      rw [unit, div_eq_iff (zpow_ne_zero _ two_ne_zero)]
      push_cast
      rw [mul_assoc, ← zpow_natCast, ← zpow_add₀ two_ne_zero]
      congr 2
      omega
    rw [round, whole, nearestEven_intCast, ← whole, div_mul_cancel₀ _ (ne_of_gt (unit_pos _ _))]

/-- Rounding stays within the binary order of magnitude. -/
theorem round_bounds {p : ℕ} [NeZero p] {x : K} (positive : 0 < x) :
    (2 : K) ^ Int.log 2 x ≤ round p x ∧ round p x ≤ 2 ^ (Int.log 2 x + 1) := by
  obtain ⟨q, rfl⟩ := Nat.exists_eq_add_one_of_ne_zero (NeZero.ne p)
  have lower := nearestEven_mono (le_div_unit (p := q + 1) positive)
  have upper := nearestEven_mono (le_of_lt (div_unit_lt (q + 1) x))
  have powers : ∀ n : ℕ, nearestEven ((2 : K) ^ (n : ℤ)) = 2 ^ n := by
    intro n
    have cast : (2 : K) ^ (n : ℤ) = ((2 ^ n : ℤ) : K) := by rw [zpow_natCast]; push_cast; rfl
    rw [cast, nearestEven_intCast]
  have low : ((q + 1 : ℕ) : ℤ) - 1 = q := by push_cast; ring
  rw [low, powers] at lower
  rw [powers] at upper
  have one : (2 : K) ^ Int.log 2 x = 2 ^ (q : ℤ) * unit (q + 1) x := by
    rw [← two_zpow_eq]
    congr 1
    push_cast
    ring
  have two : (2 : K) ^ (Int.log 2 x + 1) = 2 ^ ((q + 1 : ℕ) : ℤ) * unit (q + 1) x := by
    rw [← two_zpow_eq]
    congr 1
    ring
  rw [one, two, round]
  constructor
  · refine mul_le_mul_of_nonneg_right ?_ (le_of_lt (unit_pos _ _))
    exact_mod_cast lower
  · refine mul_le_mul_of_nonneg_right ?_ (le_of_lt (unit_pos _ _))
    exact_mod_cast upper

/-- **Rounding is monotone.** -/
theorem round_mono {p : ℕ} [NeZero p] {x y : K} (nonneg : 0 ≤ x) (le : x ≤ y) :
    round p x ≤ round p y := by
  rcases eq_or_lt_of_le nonneg with rfl | positive
  · rcases eq_or_lt_of_le le with rfl | above
    · exact le_refl _
    · rw [round_zero]
      exact le_trans (le_of_lt (zpow_pos two_pos _)) (round_bounds above).1
  · cases lt_or_eq_of_le (Int.log_mono_right (b := 2) positive le) with
    | inl less =>
        calc round p x ≤ 2 ^ (Int.log 2 x + 1) := (round_bounds positive).2
          _ ≤ 2 ^ Int.log 2 y := zpow_le_zpow_right₀ one_le_two less
          _ ≤ round p y := (round_bounds (lt_of_lt_of_le positive le)).1
    | inr same =>
        have units : unit p x = unit p y := by rw [unit, unit, same]
        rw [round, round, units]
        refine mul_le_mul_of_nonneg_right ?_ (le_of_lt (unit_pos p y))
        exact_mod_cast nearestEven_mono (div_le_div_of_nonneg_right le (le_of_lt (unit_pos p y)))

theorem round_nonneg {p : ℕ} [NeZero p] {x : K} (nonneg : 0 ≤ x) : 0 ≤ round p x := by
  simpa using round_mono (p := p) (le_refl 0) nonneg

/-- A power of two above the mantissas is representable by a smaller mantissa. -/
theorem representable_of_le {p : ℕ} [NeZero p] {a : ℕ} (small : a ≤ 2 ^ p) (e : ℤ) :
    Representable p ((a : K) * 2 ^ e) := by
  rcases Nat.lt_or_eq_of_le small with less | rfl
  · exact ⟨a, e, less, rfl⟩
  · obtain ⟨q, rfl⟩ := Nat.exists_eq_add_one_of_ne_zero (NeZero.ne p)
    refine ⟨2 ^ q, e + 1, Nat.pow_lt_pow_right Nat.one_lt_two (Nat.lt_succ_self q), ?_⟩
    push_cast
    rw [zpow_add_one₀ (ne_of_gt two_pos), pow_succ]
    ring

/-- **The result of rounding is representable.** -/
theorem representable_round {p : ℕ} [NeZero p] {x : K} (nonneg : 0 ≤ x) :
    Representable p (round p x) := by
  have upper := nearestEven_mono (le_of_lt (div_unit_lt p x))
  have cast : (2 : K) ^ (p : ℤ) = ((2 ^ p : ℤ) : K) := by rw [zpow_natCast]; push_cast; rfl
  have lower := nearestEven_mono (div_nonneg nonneg (le_of_lt (unit_pos p x)))
  have zero : nearestEven (0 : K) = 0 := by simpa using nearestEven_intCast (K := K) 0
  rw [cast, nearestEven_intCast] at upper
  rw [zero] at lower
  obtain ⟨a, mantissa⟩ := Int.eq_ofNat_of_zero_le lower
  rw [round, mantissa, unit, Int.cast_natCast]
  refine representable_of_le ?_ _
  rw [mantissa] at upper
  exact_mod_cast upper

/-- A natural number with few bits is not changed. -/
theorem round_of_lt {p n : ℕ} (small : n < 2 ^ p) : round p (n : K) = n :=
  round_of_representable ⟨n, 0, small, by rw [zpow_zero, mul_one]⟩

/-! ## Rounding by adding a half -/

theorem abs_nearestEven_sub_le (x : K) : |(nearestEven x : K) - x| ≤ 1 / 2 := by
  have below := Int.floor_le x
  have above := Int.lt_floor_add_one x
  rw [abs_le, nearestEven]
  split_ifs <;> push_cast <;> constructor <;> linarith

/-- **The error is at most half a unit**, so small against the number. -/
theorem abs_round_sub_le {p : ℕ} {x : K} (nonneg : 0 ≤ x) : |round p x - x| ≤ x / 2 ^ p := by
  rcases eq_or_lt_of_le nonneg with rfl | positive
  · simp
  · have unitPos := unit_pos p x
    have scaled : round p x - x = (nearestEven (x / unit p x) - x / unit p x) * unit p x := by
      rw [round, sub_mul, div_mul_cancel₀ x (ne_of_gt unitPos)]
    have size : 2 ^ p * (unit p x / 2) ≤ x := by
      have many := (le_div_iff₀ unitPos).mp (le_div_unit (p := p) positive)
      rw [zpow_sub_one₀ two_ne_zero, zpow_natCast] at many
      linarith
    rw [scaled, abs_mul, abs_of_pos unitPos, le_div_iff₀ (pow_pos two_pos p)]
    have half := mul_le_mul_of_nonneg_right (abs_nearestEven_sub_le (x / unit p x))
      (le_of_lt unitPos)
    have wide : (0 : K) < 2 ^ p := pow_pos two_pos p
    nlinarith

/-- **The quotient of two rounded numbers is as close to the exact one** as four units in the
last place. -/
theorem abs_round_div_round_sub_le {p : ℕ} [NeZero p] (many : 3 ≤ p) {x y : K} (nonneg : 0 ≤ x)
    (positive : 0 < y) :
    |round p (round p x / round p y) - x / y| ≤ 4 * (x / y) / 2 ^ p := by
  obtain ⟨u, isUnit⟩ : ∃ u : K, u = 1 / 2 ^ p := ⟨_, rfl⟩
  have wide : (0 : K) < 2 ^ p := pow_pos two_pos p
  have uPos : 0 < u := isUnit ▸ one_div_pos.mpr wide
  have uSmall : u ≤ 1 / 8 := by
    rw [isUnit]
    refine one_div_le_one_div_of_le (by norm_num) ?_
    calc (8 : K) = 2 ^ 3 := by norm_num
      _ ≤ 2 ^ p := pow_le_pow_right₀ one_le_two many
  have relative : ∀ z : K, 0 ≤ z → z * (1 - u) ≤ round p z ∧ round p z ≤ z * (1 + u) := by
    intro z zNonneg
    have error := abs_le.mp (abs_round_sub_le (p := p) zNonneg)
    rw [show z / 2 ^ p = z * u by rw [isUnit]; ring] at error
    constructor <;> linarith
  obtain ⟨xLow, xHigh⟩ := relative x nonneg
  obtain ⟨yLow, yHigh⟩ := relative y positive.le
  have yPos : 0 < round p y := lt_of_lt_of_le (mul_pos positive (by linarith)) yLow
  obtain ⟨t, isQuotient⟩ : ∃ t : K, t = x / y := ⟨_, rfl⟩
  obtain ⟨q, isRounded⟩ : ∃ q : K, q = round p x / round p y := ⟨_, rfl⟩
  have tNonneg : 0 ≤ t := isQuotient ▸ div_nonneg nonneg positive.le
  have qNonneg : 0 ≤ q := isRounded ▸ div_nonneg (round_nonneg nonneg) yPos.le
  have whole : x = t * y := by rw [isQuotient, div_mul_cancel₀ _ (ne_of_gt positive)]
  have rounded : round p x = q * round p y := by
    rw [isRounded, div_mul_cancel₀ _ (ne_of_gt yPos)]
  have high : q * (1 - u) ≤ t * (1 + u) := by
    refine le_of_mul_le_mul_right ?_ positive
    calc q * (1 - u) * y = q * (y * (1 - u)) := by ring
      _ ≤ q * round p y := mul_le_mul_of_nonneg_left yLow qNonneg
      _ ≤ x * (1 + u) := rounded ▸ xHigh
      _ = t * (1 + u) * y := by rw [whole]; ring
  have low : t * (1 - u) ≤ q * (1 + u) := by
    refine le_of_mul_le_mul_right ?_ positive
    calc t * (1 - u) * y = x * (1 - u) := by rw [whole]; ring
      _ ≤ q * round p y := rounded ▸ xLow
      _ ≤ q * (y * (1 + u)) := mul_le_mul_of_nonneg_left yHigh qNonneg
      _ = q * (1 + u) * y := by ring
  obtain ⟨below, above⟩ := relative q qNonneg
  have target : 4 * t / 2 ^ p = 4 * t * u := by rw [isUnit]; ring
  rw [← isRounded, ← isQuotient, target, abs_le]
  constructor
  · have step : t * (1 - u) * (1 - u) ≤ q * (1 - u) * (1 + u) := by
      nlinarith [mul_le_mul_of_nonneg_right low (show 0 ≤ 1 - u by linarith)]
    have room : t * (1 - 4 * u) * (1 + u) ≤ t * (1 - u) * (1 - u) := by
      nlinarith [mul_nonneg tNonneg uPos.le, mul_nonneg tNonneg (sq_nonneg u)]
    have enough : t * (1 - 4 * u) ≤ q * (1 - u) :=
      le_of_mul_le_mul_right (room.trans step) (by linarith)
    linarith
  · have step : q * (1 + u) * (1 - u) ≤ t * (1 + u) * (1 + u) := by
      nlinarith [mul_le_mul_of_nonneg_right high (show 0 ≤ 1 + u by linarith)]
    have room : t * (1 + u) * (1 + u) ≤ t * (1 + 4 * u) * (1 - u) := by
      have inside : (1 + u) * (1 + u) ≤ (1 + 4 * u) * (1 - u) := by nlinarith
      nlinarith [mul_le_mul_of_nonneg_left inside tNonneg]
    have enough : q * (1 + u) ≤ t * (1 + 4 * u) :=
      le_of_mul_le_mul_right (step.trans room) (by linarith)
    linarith

/-- A number close to a fraction has its integer part, unless the fraction is whole. -/
theorem floor_eq_of_near {m d : ℕ} (some : 0 < d) {z : K} (near : |z - m / d| < 1 / d)
    (whole : d ∣ m → z = m / d) : ⌊z⌋₊ = m / d := by
  have positive : (0 : K) < d := Nat.cast_pos.mpr some
  by_cases divides : d ∣ m
  · rw [whole divides, Nat.floor_div_eq_div]
  · obtain ⟨low, high⟩ := abs_lt.mp near
    have rest : 0 < m % d := Nat.pos_of_ne_zero fun zero => divides (Nat.dvd_of_mod_eq_zero zero)
    have below : ((m / d : ℕ) : K) + 1 / d ≤ m / d := by
      rw [le_div_iff₀ positive, add_mul, one_div, inv_mul_cancel₀ (ne_of_gt positive)]
      have parts := Nat.div_add_mod m d
      have le : m / d * d + 1 ≤ m := by rw [Nat.mul_comm]; omega
      exact_mod_cast le
    have above : (m : K) / d + 1 / d ≤ ((m / d : ℕ) : K) + 1 := by
      rw [← add_div, div_le_iff₀ positive]
      have less := Nat.lt_mul_div_succ m some
      have le : m + 1 ≤ (m / d + 1) * d := by rw [Nat.mul_comm]; omega
      exact_mod_cast le
    refine (Nat.floor_eq_iff (by linarith [(Nat.cast_nonneg (m / d) : (0 : K) ≤ (m / d : ℕ))])).mpr
      ⟨by linarith, by linarith⟩

/-- **A rounded fraction of small numbers lies on the same side of each half-integer.** -/
theorem half_le_round_div_iff {p a s : ℕ} [NeZero p] (some : 0 < s) (small : 2 * a < 2 ^ p) (k : ℕ) :
    (k : K) + 1 / 2 ≤ round p ((a : K) / s) ↔ (k : K) + 1 / 2 ≤ (a : K) / s := by
  have positive : (0 : K) < s := Nat.cast_pos.mpr some
  have nonneg : (0 : K) ≤ (a : K) / s := div_nonneg (Nat.cast_nonneg _) (le_of_lt positive)
  have clear : ∀ m : ℕ, (m : K) + 1 / 2 ≤ (a : K) / s ↔ (2 * m + 1) * s ≤ 2 * a := by
    intro m
    rw [le_div_iff₀ positive]
    constructor
    · intro le
      have double : ((2 * m + 1) * s : K) ≤ 2 * a := by linarith
      exact_mod_cast double
    · intro le
      have double : ((2 * m + 1) * s : K) ≤ 2 * a := by exact_mod_cast le
      linarith
  constructor
  · intro le
    by_contra short
    rw [clear, not_le] at short
    have gap : (a : K) / s + 1 / (2 * s) ≤ k + 1 / 2 := by
      have double : (2 * a + 1 : K) ≤ (2 * k + 1) * s := by exact_mod_cast short
      have together : (a : K) / s + 1 / (2 * s) = (2 * a + 1) / (2 * s) := by
        field_simp
      rw [together, div_le_iff₀ (by positivity)]
      linarith
    have error := (abs_le.mp (abs_round_sub_le (p := p) nonneg)).2
    have tiny : (a : K) / s / 2 ^ p < 1 / (2 * s) := by
      rw [div_div, div_lt_div_iff₀ (by positivity) (by positivity)]
      have bound : (2 * a : K) < 2 ^ p := by exact_mod_cast small
      nlinarith
    linarith
  · intro le
    have atMost : (2 * k + 1) ≤ 2 * a :=
      le_trans (Nat.le_mul_of_pos_right _ some) ((clear k).mp le)
    have half : Representable p ((k : K) + 1 / 2) := by
      refine ⟨2 * k + 1, -1, by omega, ?_⟩
      push_cast
      rw [zpow_neg_one]
      ring
    rw [← round_of_representable half]
    exact round_mono (by positivity) le

/-- Both errors of rounding a fraction and its sum with a half together are less than the
distance of the sum from the integers. -/
theorem abs_round_add_half_sub_lt {p a s : ℕ} [NeZero p] (some : 0 < s)
    (small : 4 * a + s + 1 < 2 ^ p) :
    |round p (round p ((a : K) / s) + 1 / 2) - (a / s + 1 / 2)| < 1 / (2 * s) := by
  have positive : (0 : K) < s := Nat.cast_pos.mpr some
  have nonneg : (0 : K) ≤ (a : K) / s := div_nonneg (Nat.cast_nonneg _) (le_of_lt positive)
  have wide : (0 : K) < 2 ^ p := pow_pos two_pos p
  have quotient : 0 ≤ round p ((a : K) / s) := round_nonneg nonneg
  have half : (0 : K) ≤ 1 / 2 := le_of_lt one_half_pos
  have first := abs_le.mp (abs_round_sub_le (p := p) nonneg)
  have second := abs_le.mp (abs_round_sub_le (p := p) (add_nonneg quotient half))
  -- The errors are relative to the fraction and to the sum, both at most twice the fraction.
  have both : ((a : K) / s + (round p ((a : K) / s) + 1 / 2)) / 2 ^ p < 1 / (2 * s) := by
    have size : (a : K) / s + (round p ((a : K) / s) + 1 / 2) ≤
        (4 * a + s + 2 * a / 2 ^ p) / (2 * s) := by
      have split : (4 * a + s + 2 * a / 2 ^ p : K) / (2 * s) =
          a / s + (a / s + a / s / 2 ^ p + 1 / 2) := by
        field_simp
        ring
      rw [split]
      linarith
    have bound : (4 * a + s + 1 : K) < 2 ^ p := by exact_mod_cast small
    have rest : (2 * a / 2 ^ p : K) ≤ 1 := by
      rw [div_le_one wide]
      linarith [(Nat.cast_nonneg a : (0 : K) ≤ a)]
    have whole : 1 / (2 * s) * 2 ^ p * (2 * s) = (2 ^ p : K) := by
      field_simp
    rw [div_lt_iff₀ wide]
    apply lt_of_le_of_lt size
    rw [div_lt_iff₀ (by positivity), whole]
    linarith
  rw [add_div] at both
  rw [abs_lt]
  constructor <;> linarith

/-- **A fraction of small numbers is rounded correctly to an integer** by adding a half and
cutting off. -/
theorem floor_round_div_add_half {p a s : ℕ} [NeZero p] (some : 0 < s)
    (small : 4 * a + s + 1 < 2 ^ p) :
    ⌊round p (round p ((a : K) / s) + 1 / 2)⌋₊ = ⌊(a : K) / s + 1 / 2⌋₊ := by
  have positive : (0 : K) < s := Nat.cast_pos.mpr some
  have sum : (a : K) / s + 1 / 2 = ((2 * a + s : ℕ) : K) / (2 * s : ℕ) := by
    push_cast
    field_simp
  have error := abs_round_add_half_sub_lt (K := K) some small
  rw [sum] at error
  rw [sum, Nat.floor_div_eq_div]
  apply floor_eq_of_near (by omega) (by exact_mod_cast error)
  intro divides
  obtain ⟨k, multiple⟩ := divides
  obtain ⟨j, rfl⟩ : ∃ j, k = j + 1 := by
    apply Nat.exists_eq_add_one_of_ne_zero
    intro zero
    rw [zero] at multiple
    omega
  have atMost : 2 * (j + 1) ≤ 2 * s * (j + 1) := Nat.mul_le_mul_right _ (by omega)
  have value : (a : K) / s + 1 / 2 = j + 1 := by
    rw [sum, multiple, div_eq_iff (Nat.cast_ne_zero.mpr (by omega))]
    push_cast
    ring
  have isHalf : Representable p ((a : K) / s) := by
    refine ⟨2 * j + 1, -1, by omega, ?_⟩
    rw [eq_sub_of_add_eq value, zpow_neg_one]
    push_cast
    ring
  rw [round_of_representable isHalf, ← sum, value, ← Nat.cast_succ, round_of_lt (by omega)]

/-- A rounded fraction has the integer part of the exact one. -/
theorem floor_round_div {p a s : ℕ} (some : 0 < s) (small : a < 2 ^ p) :
    ⌊round p ((a : K) / s)⌋₊ = a / s := by
  have positive : (0 : K) < s := Nat.cast_pos.mpr some
  have nonneg : (0 : K) ≤ (a : K) / s := div_nonneg (Nat.cast_nonneg _) (le_of_lt positive)
  refine floor_eq_of_near some (lt_of_le_of_lt (abs_round_sub_le nonneg) ?_) ?_
  · rw [div_div, div_lt_div_iff₀ (by positivity) positive]
    have bound : (a : K) < 2 ^ p := by exact_mod_cast small
    nlinarith
  · intro divides
    obtain ⟨k, rfl⟩ := divides
    rw [Nat.cast_mul, mul_div_cancel_left₀ _ (ne_of_gt positive)]
    exact round_of_lt (lt_of_le_of_lt (Nat.le_mul_of_pos_left k some) small)

end Rounding
