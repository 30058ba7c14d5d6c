import MpVideo.Lib.Rounding
import MpVideo.Schedule.WeightRoundRobin

/-!
# Round robin weighted by rates

`IncomingPackets` of `wrrschedule.cc` and `idealschedule.cc`. The weight of a path is
its share of the packets, `n * rate / total`, rounded to the nearest integer. The
product and the total have 32 bits, and the quotient is a `float`; only the addition of
the half is done in double precision, which loses nothing.

So the weights are the rounded shares when the products and the total fit 32 bits and no
share is so close to a half-integer that the 24 bits of the mantissa can move it across, and
there is a server to dispatch to only if some share is at least a half
(`incomingPackets_dispatchesWhen`).
-/

set_option autoImplicit false

namespace MpVideo.Schedule

open Rounding

/-! ## Weights -/

/-- `temp_weight`, a quotient of two `float`s. -/
def tempWeight (packetNum totalrate rate : UInt32) : ℚ :=
  round 24 (round 24 ((packetNum * rate).toNat : ℚ) / round 24 (totalrate.toNat : ℚ))

/-- `temp_weight+0.5`, a `double`, without its fraction. -/
def weightOf (packetNum totalrate rate : UInt32) : ℕ :=
  ⌊round 53 (tempWeight packetNum totalrate rate + 1 / 2)⌋₊

/-- The map `path_weight`. A division by zero leaves a number that cannot be converted
to an integer, and neither can a weight beyond 32 bits. -/
def pathWeight (packetNum totalrate : UInt32) (pathrate : SortedMap UInt8 UInt32) :
    Option (SortedMap UInt8 UInt32) :=
  if ∃ entry ∈ pathrate.entries,
      totalrate = 0 ∨ 2 ^ 32 ≤ weightOf packetNum totalrate entry.2 then none
  else some (pathrate.mapVal fun rate => UInt32.ofNat (weightOf packetNum totalrate rate))

/-- The part that both schedulers have in common. -/
def rateWeighted (rate : UInt8 → UInt32) (pids : List UInt8) (packets : Packets) : Option Calls :=
  (pathWeight (packetNum packets) (collectRates rate pids).2 (collectRates rate pids).1).bind
    fun weights => WeightRoundRobin.dispatch packets.keys (WeightRoundRobin.ofWeights weights)

/-! ## The schedulers -/

namespace WrrSchedule

/-- `WrrSchedule::IncomingPackets`. The count of the packets for each path is only
kept for a report. -/
def incomingPackets (costType : CostType) (info : UInt8 → PathRates) (pids : List UInt8)
    (packets : Packets) : Option Calls :=
  if pids.length = 1 ∨ packetNum packets = 1 then roundRobin pids packets
  else
    let (pathrate, totalrate) := collectRates (fun pid => (info pid).ofCostType costType) pids
    (pathWeight (packetNum packets) totalrate pathrate).bind fun weights =>
      if totalrate = 0 then roundRobin pids packets
      else WeightRoundRobin.dispatch packets.keys (WeightRoundRobin.ofWeights weights)

end WrrSchedule

namespace IdealSchedule

/-- `IdealSchedule::IncomingPackets`. The rate of a path has 64 bits and is stored in 32. -/
def incomingPackets (srate : UInt8 → UInt64) (pids : List UInt8) (packets : Packets) :
    Option Calls :=
  match pids with
  | [pid] => some (sendAllPackesToPath packets pid)
  | pids => rateWeighted (fun pid => (srate pid).toUInt32) pids packets

end IdealSchedule

/-! ## Shares and weights -/

/-- The share in 32-bit and `float` arithmetic. -/
def floatShare (rate : UInt8 → UInt32) (pids : List UInt8) (packets : Packets) (pid : UInt8) : ℚ :=
  round 24 (round 24 ((packets.size * (rate pid).toNat % 2 ^ 32 : ℕ) : ℚ) /
    round 24 ((rateSum rate pids % 2 ^ 32 : ℕ) : ℚ))

/-- No half-integer lies between the numbers. -/
def RoundsAlike (x y : ℚ) : Prop := ∀ k : ℕ, (k : ℚ) + 1 / 2 ≤ x ↔ (k : ℚ) + 1 / 2 ≤ y

variable {rate : UInt8 → UInt32} {pids : List UInt8} {packets : Packets}

/-- The total does not vanish in 32 bits, the arithmetic moves no share across a half-integer,
and some share is at least a half. -/
structure SharesAlike (rate : UInt8 → UInt32) (pids : List UInt8) (packets : Packets) : Prop where
  total : ¬ 2 ^ 32 ∣ rateSum rate pids
  alike : ∀ pid ∈ pids, rate pid ≠ 0 →
    RoundsAlike (exactShare rate pids packets pid) (floatShare rate pids packets pid)
  half : ∃ pid ∈ pids, 1 / 2 ≤ exactShare rate pids packets pid

/-- A share `a / s` that the arithmetic cannot move across a half-integer: none is within the
error of three roundings, or the numbers are too small for one, or the share is a half-integer
and nothing is rounded. -/
inductive SafeShare (a s : ℕ) : Prop
  | clear (far : ∀ k : ℕ, (a : ℚ) / s / 2 ^ 22 < |(a : ℚ) / s - (k + 1 / 2)|)
  | small (product : 2 * a < 2 ^ 24) (total : s < 2 ^ 24)
  | half (k : ℕ) (isHalf : (a : ℚ) / s = k + 1 / 2) (few : 2 * k + 1 < 2 ^ 24)
      (product : Representable 24 (a : ℚ)) (total : Representable 24 (s : ℚ))

/-- The rates for which the dispatch succeeds: neither a product of the number of packets and a
rate nor the total needs more than 32 bits, the shares are safe, and one is at least a half. -/
structure SharesSurvive (rate : UInt8 → UInt32) (pids : List UInt8) (packets : Packets) :
    Prop where
  total : rateSum rate pids < 2 ^ 32
  products : ∀ pid ∈ pids, packets.size * (rate pid).toNat < 2 ^ 32
  safe : ∀ pid ∈ pids, rate pid ≠ 0 →
    SafeShare (packets.size * (rate pid).toNat) (rateSum rate pids)
  half : ∃ pid ∈ pids, 1 / 2 ≤ exactShare rate pids packets pid

/-- **A safe share is rounded as the exact one.** -/
theorem SafeShare.roundsAlike {a s : ℕ} (positive : 0 < s) (safe : SafeShare a s) :
    RoundsAlike ((a : ℚ) / s) (round 24 (round 24 (a : ℚ) / round 24 (s : ℚ))) := by
  have some : (0 : ℚ) < s := Nat.cast_pos.mpr positive
  cases safe with
  | clear far =>
      have near := abs_round_div_round_sub_le (p := 24) (by decide)
        (Nat.cast_nonneg (α := ℚ) a) some
      generalize round 24 (round 24 (a : ℚ) / round 24 (s : ℚ)) = share at near ⊢
      generalize (a : ℚ) / s = x at near far ⊢
      obtain ⟨low, high⟩ := abs_le.mp near
      intro k
      constructor
      · intro le
        have gap := far k
        rw [abs_of_nonneg (by linarith)] at gap
        linarith
      · intro le
        by_contra less
        have gap := far k
        rw [abs_of_neg (by linarith)] at gap
        linarith
  | small product total =>
      intro k
      rw [round_of_lt (by omega), round_of_lt total, half_le_round_div_iff positive product]
  | half k isHalf few product total =>
      have isShort : Representable 24 ((k : ℚ) + 1 / 2) := by
        refine ⟨2 * k + 1, -1, few, ?_⟩
        push_cast
        rw [zpow_neg_one]
        ring
      intro j
      rw [round_of_representable product, round_of_representable total, isHalf,
        round_of_representable isShort]

theorem SharesSurvive.positive (survive : SharesSurvive rate pids packets) :
    0 < rateSum rate pids := by
  apply Nat.pos_of_ne_zero
  intro zero
  obtain ⟨pid, -, enough⟩ := survive.half
  rw [exactShare, zero, Nat.cast_zero, div_zero] at enough
  norm_num at enough

/-- Shares that survive are rounded alike. -/
theorem SharesSurvive.alike (survive : SharesSurvive rate pids packets) :
    SharesAlike rate pids packets where
  total := Nat.not_dvd_of_pos_of_lt survive.positive survive.total
  alike pid registered rated := by
    have alike := (survive.safe pid registered rated).roundsAlike survive.positive
    rw [floatShare, Nat.mod_eq_of_lt (survive.products pid registered),
      Nat.mod_eq_of_lt survive.total, exactShare, ← Nat.cast_mul]
    exact alike
  half := survive.half

end MpVideo.Schedule
