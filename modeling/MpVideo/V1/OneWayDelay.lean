import MpVideo.Lib.Machine
import MpVideo.Receiver.PathReceiver

/-!
# The one-way delay

`UpdateOneWayDelay` of `path_receiver_v1.cc` and of `mock_receiver.cc` smooths the delay and
its deviation from sample to sample. Both take `std::abs` of a difference of unsigned words:
in C++14 this is the absolute value of a `double`, and the word, which has wrapped when the
delay falls, is positive already.

For samples in a range the delay stays in the range (`within_of_run`), and the deviation stays
below the width of the range if and only if no sample is below the delay when it comes in
(`inRange_iff`). With the distance that `SU_ABS` takes in `pathreceiver.cc` it always does
(`inRange_of_distance`).
-/

set_option autoImplicit false

namespace MpVideo.V1

open Receiver

/-- `owd_` and `owd_var_`. -/
structure OneWayDelay where
  owd : UInt32 := 0
  owdVar : UInt32 := 5

/-- `std::abs` of a difference of two words, as a `double`. -/
def stdAbs (newOwd owd : UInt32) : ℕ := (newOwd - owd).toNat

namespace OneWayDelay

/-- `UpdateOneWayDelay`, with the distance of a sample from the delay. The sum for the
deviation is a `double`, which loses nothing, and the quotient is stored in 32 bits. -/
def update (distance : UInt32 → UInt32 → ℕ) (newOwd : UInt32) (delay : OneWayDelay) :
    OneWayDelay :=
  if delay.owd = 0 then { delay with owd := newOwd }
  else
    { owdVar := UInt32.ofNat (((delay.owdVar * 3).toNat + distance newOwd delay.owd) / 4)
      owd := (7 * delay.owd + newOwd) / 8 }

end OneWayDelay

/-- `PathReceiverV1::UpdateOneWayDelay`. -/
def PathReceiverV1.updateOneWayDelay : UInt32 → OneWayDelay → OneWayDelay :=
  OneWayDelay.update stdAbs

/-- `MockReceiver::UpdateOneWayDelay`. -/
def MockReceiver.updateOneWayDelay : UInt32 → OneWayDelay → OneWayDelay :=
  OneWayDelay.update stdAbs

/-- The receivers that estimate the delay. -/
inductive DelayReceiver where
  | pathReceiverV1 | mockReceiver

/-- The `UpdateOneWayDelay` of a receiver. -/
def DelayReceiver.updateOneWayDelay : DelayReceiver → UInt32 → OneWayDelay → OneWayDelay
  | .pathReceiverV1 => PathReceiverV1.updateOneWayDelay
  | .mockReceiver => MockReceiver.updateOneWayDelay

/-- A sample of the delay in a range. -/
abbrev DelaySample (lo hi : ℕ) := { newOwd : UInt32 // lo ≤ newOwd.toNat ∧ newOwd.toNat ≤ hi }

/-- Samples come in one by one. -/
def delayMachine (lo hi : ℕ) (updateOneWayDelay : UInt32 → OneWayDelay → OneWayDelay) :
    Machine OneWayDelay (DelaySample lo hi) Empty where
  step delay sample := some (updateOneWayDelay sample.1 delay, [])

namespace OneWayDelay

variable {lo hi : ℕ} {distance : UInt32 → UInt32 → ℕ} {delay last : OneWayDelay}

/-! ## The delay -/

/-- What a sample leads to. -/
theorem step_eq {sample : DelaySample lo hi} {next : OneWayDelay} {out : List Empty}
    (stepped : (delayMachine lo hi (update distance)).step delay sample = some (next, out)) :
    next = update distance sample.1 delay :=
  (Prod.mk.inj (Option.some.inj stepped)).1.symm

/-- There was no sample yet, or the delay is in the range of the samples. -/
def Within (lo hi : ℕ) (delay : OneWayDelay) : Prop :=
  delay.owd = 0 ∨ (lo ≤ delay.owd.toNat ∧ delay.owd.toNat ≤ hi)

/-- **A sample in the range leaves the delay in the range.** The quotient is rounded down, and
the lower end of the range is a whole number. -/
theorem update_within (short : hi < 2 ^ 28) (within : delay.Within lo hi)
    (sample : DelaySample lo hi) :
    lo ≤ (update distance sample.1 delay).owd.toNat ∧
      (update distance sample.1 delay).owd.toNat ≤ hi := by
  obtain ⟨newOwd, above, below⟩ := sample
  rw [update]
  split_ifs with first
  · exact ⟨above, below⟩
  · obtain ⟨low, high⟩ := within.resolve_left first
    have smoothed : ((7 * delay.owd + newOwd) / 8).toNat =
        (7 * delay.owd.toNat + newOwd.toNat) / 8 := by
      rw [UInt32.toNat_div, UInt32.toNat_add, UInt32.toNat_mul]
      change (7 * delay.owd.toNat % 2 ^ 32 + newOwd.toNat) % 2 ^ 32 / 8 = _
      omega
    rw [smoothed]
    omega

/-- The delay is in the range after the first sample, whatever distance is taken. -/
theorem within_of_run (short : hi < 2 ^ 28) {samples : List (DelaySample lo hi)} {out : List Empty}
    (some : samples ≠ [])
    (ran : (delayMachine lo hi (update distance)).run {} samples = .some (last, out)) :
    lo ≤ last.owd.toNat ∧ last.owd.toNat ≤ hi := by
  obtain ⟨sample, rest, rfl⟩ := List.exists_cons_of_ne_nil some
  obtain ⟨next, first, more, stepped, onwards, -⟩ := Machine.run_cons.mp ran
  obtain rfl := step_eq stepped
  refine Machine.run_invariant (fun delay => lo ≤ delay.owd.toNat ∧ delay.owd.toNat ≤ hi) ?_
    (update_within short (.inl rfl) sample) onwards
  intro delay sample next out within stepped
  rw [step_eq stepped]
  exact update_within short (.inr within) sample

/-! ## The deviation -/

/-- The deviation is below the width of the range, or what it is at the start. -/
def Narrow (lo hi : ℕ) (delay : OneWayDelay) : Prop :=
  delay.owdVar.toNat ≤ max 5 (hi - lo + 7)

/-- The deviation after a sample, when the one before was small. -/
theorem update_owdVar (short : hi < 2 ^ 28) (narrow : delay.Narrow lo hi) (later : delay.owd ≠ 0)
    {newOwd : UInt32} (fits : distance newOwd delay.owd < 2 ^ 32) :
    (update distance newOwd delay).owdVar.toNat =
      (3 * delay.owdVar.toNat + distance newOwd delay.owd) / 4 := by
  rw [Narrow] at narrow
  have triple : (delay.owdVar * 3).toNat = 3 * delay.owdVar.toNat := by
    rw [UInt32.toNat_mul]
    change delay.owdVar.toNat * 3 % 2 ^ 32 = _
    omega
  rw [update, if_neg later, triple]
  exact UInt32.toNat_ofNat_of_lt' (show _ < 2 ^ 32 by omega)

/-- A distance below the width of the range keeps the deviation there. -/
theorem update_narrow (short : hi < 2 ^ 28) (narrow : delay.Narrow lo hi) {newOwd : UInt32}
    (near : delay.owd ≠ 0 → distance newOwd delay.owd ≤ hi - lo) :
    (update distance newOwd delay).Narrow lo hi := by
  by_cases first : delay.owd = 0
  · rw [update, if_pos first]
    exact narrow
  · have close := near first
    rw [Narrow, update_owdVar short narrow first (by omega)]
    rw [Narrow] at narrow
    omega

/-- A sample that is not below the delay is at most the width of the range away. -/
theorem stdAbs_of_le {newOwd owd : UInt32} (le : owd ≤ newOwd) :
    stdAbs newOwd owd = newOwd.toNat - owd.toNat :=
  UInt32.toNat_sub_of_le _ _ le

/-- **A sample below the delay is nearly `2 ^ 32` away.** -/
theorem stdAbs_of_lt {newOwd owd : UInt32} (less : newOwd < owd) :
    stdAbs newOwd owd = 2 ^ 32 - (owd.toNat - newOwd.toNat) := by
  have short := owd.toNat_lt
  rw [UInt32.lt_iff_toNat_lt] at less
  rw [stdAbs, UInt32.toNat_sub]
  omega

/-- **The deviation stays small exactly if the sample is not below the delay.** -/
theorem update_narrow_iff (positive : 1 ≤ lo) (short : hi < 2 ^ 28)
    (within : delay.Within lo hi) (narrow : delay.Narrow lo hi) (sample : DelaySample lo hi) :
    (update stdAbs sample.1 delay).Narrow lo hi ↔ delay.owd ≤ sample.1 := by
  obtain ⟨newOwd, above, below⟩ := sample
  dsimp only
  constructor
  · intro still
    by_contra fallen
    have less : newOwd < delay.owd := UInt32.not_le.mp fallen
    have later : delay.owd ≠ 0 := by
      intro unset
      rw [unset] at less
      exact absurd less (UInt32.not_lt.mpr (UInt32.zero_le))
    obtain ⟨low, high⟩ := within.resolve_left later
    have far := stdAbs_of_lt less
    rw [UInt32.lt_iff_toNat_lt] at less
    rw [Narrow, update_owdVar short narrow later (by omega), far] at still
    omega
  · intro le
    refine update_narrow short narrow fun later => ?_
    obtain ⟨low, -⟩ := within.resolve_left later
    rw [stdAbs_of_le le]
    omega

/-! ## Runs -/

theorem narrow_iff (positive : 1 ≤ lo) (short : hi < 2 ^ 28) (samples : List (DelaySample lo hi)) :
    (∀ n last out, (delayMachine lo hi (update stdAbs)).run {} (samples.take n) =
        some (last, out) → last.Narrow lo hi) ↔
      (delayMachine lo hi (update stdAbs)).Along (fun delay sample => delay.owd ≤ sample.1) {}
        samples := by
  refine Machine.prefixes_good_iff (fun _ _ => ⟨_, _, rfl⟩) ?_ ?_
    (show Within lo hi {} from .inl rfl) (Nat.le_max_left _ _)
  · intro delay sample next out within stepped
    rw [step_eq stepped]
    exact .inr (update_within short within sample)
  · intro delay sample next out within narrow stepped
    rw [step_eq stepped]
    exact update_narrow_iff positive short within narrow sample

/-- The receivers do the same. -/
theorem updateOneWayDelay_eq (receiver : DelayReceiver) :
    receiver.updateOneWayDelay = update stdAbs := by
  cases receiver <;> rfl

/-- **The estimates of either receiver stay in range in every state of a run if and only if**
no sample is below the delay when it comes in. -/
theorem inRange_iff (receiver : DelayReceiver) (positive : 1 ≤ lo) (short : hi < 2 ^ 28)
    (samples : List (DelaySample lo hi)) :
    (∀ n last out, (delayMachine lo hi receiver.updateOneWayDelay).run {} (samples.take n) =
        some (last, out) →
      (samples.take n ≠ [] → lo - 7 ≤ last.owd.toNat ∧ last.owd.toNat ≤ hi) ∧
        last.owdVar.toNat ≤ max 5 (hi - lo + 7)) ↔
      (delayMachine lo hi receiver.updateOneWayDelay).Along
        (fun delay sample => delay.owd ≤ sample.1) {} samples := by
  rw [updateOneWayDelay_eq, ← narrow_iff positive short]
  constructor
  · exact fun always n last out ran => (always n last out ran).2
  · intro always n last out ran
    refine ⟨fun some => ?_, always n last out ran⟩
    obtain ⟨low, high⟩ := within_of_run short some ran
    exact ⟨Nat.le_trans (Nat.sub_le lo 7) low, high⟩

/-- Three samples, of which the second and the third are smoothed, stay in range. -/
theorem inRange_rising :
    ∃ last, (delayMachine 20 60 DelayReceiver.pathReceiverV1.updateOneWayDelay).run {}
        [⟨20, by decide⟩, ⟨40, by decide⟩, ⟨60, by decide⟩] = some (last, []) ∧
      (20 - 7 ≤ last.owd.toNat ∧ last.owd.toNat ≤ 60) ∧
        last.owdVar.toNat ≤ max 5 (60 - 20 + 7) := by
  let samples : List (DelaySample 20 60) := [⟨20, by decide⟩, ⟨40, by decide⟩, ⟨60, by decide⟩]
  have inRange := (inRange_iff .pathReceiverV1 (by decide) (by decide) samples).mpr
    (by decide) 3 _ _ rfl
  exact ⟨_, rfl, inRange.1 (by decide), inRange.2⟩

/-- **After a sample of two milliseconds and one of one millisecond** the deviation is above
`2 ^ 30`. -/
theorem owdVar_jumps : ¬ ∀ receiver : DelayReceiver, ∀ n last out,
    (delayMachine 1 2 receiver.updateOneWayDelay).run {}
      (([⟨2, by decide⟩, ⟨1, by decide⟩] : List (DelaySample 1 2)).take n) = some (last, out) →
    (([⟨2, by decide⟩, ⟨1, by decide⟩] : List (DelaySample 1 2)).take n ≠ [] →
        1 - 7 ≤ last.owd.toNat ∧ last.owd.toNat ≤ 2) ∧
      last.owdVar.toNat ≤ max 5 (2 - 1 + 7) := by
  intro always
  exact absurd (always .pathReceiverV1 2 _ _ rfl).2 (by decide)

/-- **With the distance of `SU_ABS` the estimates stay in range in every run.** -/
theorem inRange_of_distance (short : hi < 2 ^ 28) {samples : List (DelaySample lo hi)}
    {out : List Empty}
    (ran : (delayMachine lo hi
      (update fun newOwd owd => (PathReceiver.suAbs newOwd owd).toNat)).run {} samples =
        some (last, out)) :
    (samples ≠ [] → lo ≤ last.owd.toNat ∧ last.owd.toNat ≤ hi) ∧
      last.owdVar.toNat ≤ max 5 (hi - lo + 7) := by
  refine ⟨fun some => within_of_run short some ran, ?_⟩
  refine (Machine.run_invariant (fun delay => Within lo hi delay ∧ Narrow lo hi delay) ?_
    ⟨.inl rfl, Nat.le_max_left _ _⟩ ran).2
  rintro delay ⟨newOwd, above, below⟩ next out ⟨within, narrow⟩ stepped
  rw [step_eq stepped]
  refine ⟨.inr (update_within short within _), update_narrow short narrow fun later => ?_⟩
  obtain ⟨low, high⟩ := within.resolve_left later
  dsimp only [PathReceiver.suAbs]
  split_ifs with more
  · rw [UInt32.toNat_sub_of_le _ _ (UInt32.le_of_lt more)]
    omega
  · rw [UInt32.toNat_sub_of_le _ _ (UInt32.not_lt.mp more)]
    omega

end OneWayDelay

end MpVideo.V1
