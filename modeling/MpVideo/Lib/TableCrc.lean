import Mathlib.Data.List.Basic
import Mathlib.Logic.Function.Basic

/-!
# Cyclic redundancy checks by table

A check of `w` bits takes its message byte by byte: the low byte of the register and the
byte of the message select an entry of a table, and the register moves down by eight bits.

If the entries differ in their highest bytes, the step is injective in the register. A
message of at most `w` bits then acts on the register like its bits added to it
(`feed_eq_zeros`), so two messages that differ in at most `w` successive bits leave
different registers (`feed_ne_of_burst`).
-/

set_option autoImplicit false

namespace TableCrc

variable {w : Nat} (table : BitVec 8 → BitVec w)

/-- One byte of the message. -/
def step (register : BitVec w) (byte : BitVec 8) : BitVec w :=
  table ((register ^^^ byte.setWidth w).setWidth 8) ^^^ (register >>> 8)

/-- A whole message. -/
def feed (register : BitVec w) (bytes : List (BitVec 8)) : BitVec w :=
  bytes.foldl (step table) register

/-- The highest byte of an entry tells which entry it is. -/
def Separates : Prop := Function.Injective fun index => table index >>> (w - 8)

/-- The bits of a message as a word, the first byte in the lowest place. -/
def word : List (BitVec 8) → BitVec w
  | [] => 0#w
  | byte :: rest => byte.setWidth w ^^^ (word rest <<< 8)

variable {table}

theorem feed_append (register : BitVec w) (first second : List (BitVec 8)) :
    feed table register (first ++ second) = feed table (feed table register first) second :=
  List.foldl_append

theorem step_injective (separates : Separates table) (byte : BitVec 8) :
    Function.Injective fun register => step table register byte := by
  intro register other same
  simp only [step] at same
  have gone : ∀ word : BitVec w, word >>> 8 >>> (w - 8) = 0#w := by
    intro word
    apply BitVec.eq_of_getLsbD_eq
    intro i _
    rw [BitVec.getLsbD_ushiftRight, BitVec.getLsbD_ushiftRight, BitVec.getLsbD_zero]
    exact BitVec.getLsbD_of_ge word _ (by omega)
  have indices := congrArg (fun word : BitVec w => word >>> (w - 8)) same
  simp only [BitVec.ushiftRight_xor_distrib, gone, BitVec.xor_zero] at indices
  have index := separates indices
  rw [index, BitVec.xor_right_inj] at same
  apply BitVec.eq_of_getLsbD_eq
  intro i _
  by_cases low : i < 8
  · have bit := congrArg (BitVec.getLsbD · i) index
    simpa [low] using bit
  · have bit := congrArg (BitVec.getLsbD · (i - 8)) same
    simpa [BitVec.getLsbD_ushiftRight, Nat.add_sub_cancel' (Nat.le_of_not_lt low)] using bit

theorem feed_injective (separates : Separates table) (bytes : List (BitVec 8)) :
    Function.Injective fun register => feed table register bytes := by
  induction bytes with
  | nil => exact Function.injective_id
  | cons byte rest ih => exact ih.comp (step_injective separates byte)

/-! ## Short messages -/

theorem byte_shift (byte : BitVec 8) : byte.setWidth w >>> 8 = 0#w := by
  apply BitVec.eq_of_getLsbD_eq
  intro i _
  simp only [BitVec.getLsbD_ushiftRight, BitVec.getLsbD_setWidth, BitVec.getLsbD_zero,
    BitVec.getLsbD_of_ge byte (8 + i) (Nat.le_add_right 8 i), Bool.and_false]

/-- A byte counts as if it were in the register already. -/
theorem step_eq_zero (register : BitVec w) (byte : BitVec 8) :
    step table register byte = step table (register ^^^ byte.setWidth w) 0#8 := by
  simp only [step, BitVec.ushiftRight_xor_distrib, byte_shift, BitVec.xor_zero,
    BitVec.setWidth_zero]

theorem word_high (bytes : List (BitVec 8)) {i : Nat} (high : 8 * bytes.length ≤ i) :
    (word bytes : BitVec w).getLsbD i = false := by
  induction bytes generalizing i with
  | nil => exact BitVec.getLsbD_zero
  | cons byte rest ih =>
      rw [List.length_cons] at high
      simp only [word, BitVec.getLsbD_xor, BitVec.getLsbD_setWidth, BitVec.getLsbD_shiftLeft,
        ih (show 8 * rest.length ≤ i - 8 by omega), BitVec.getLsbD_of_ge byte i (by omega),
        Bool.and_false, Bool.xor_false]

theorem word_shift {bytes : List (BitVec 8)} (fits : 8 * (bytes.length + 1) ≤ w) :
    (word bytes : BitVec w) <<< 8 >>> 8 = word bytes := by
  apply BitVec.eq_of_getLsbD_eq
  intro i _
  by_cases high : 8 * bytes.length ≤ i
  · simp only [BitVec.getLsbD_ushiftRight, BitVec.getLsbD_shiftLeft, Nat.add_sub_cancel_left,
      word_high bytes high, Bool.and_false]
  · have inside : 8 + i < w := by omega
    simp only [BitVec.getLsbD_ushiftRight, BitVec.getLsbD_shiftLeft, Nat.add_sub_cancel_left,
      inside, Nat.not_lt.mpr (Nat.le_add_right 8 i), decide_true, decide_false, Bool.not_false,
      Bool.true_and]

/-- What is above the lowest byte of the register waits for the next steps. -/
theorem step_above (register : BitVec w) {bytes : List (BitVec 8)}
    (fits : 8 * (bytes.length + 1) ≤ w) :
    step table (register ^^^ word bytes <<< 8) 0#8 = step table register 0#8 ^^^ word bytes := by
  have low : (word bytes <<< 8 : BitVec w).setWidth 8 = 0#8 := by
    apply BitVec.eq_of_getLsbD_eq
    intro i small
    simp [BitVec.getLsbD_shiftLeft, small]
  simp only [step, BitVec.setWidth_zero, BitVec.xor_zero, BitVec.setWidth_xor, low,
    BitVec.ushiftRight_xor_distrib, word_shift fits, BitVec.xor_assoc]

/-- **A message that fits the register acts like its bits added to the register.** -/
theorem feed_eq_zeros (register : BitVec w) {bytes : List (BitVec 8)}
    (fits : 8 * bytes.length ≤ w) :
    feed table register bytes =
      feed table (register ^^^ word bytes) (List.replicate bytes.length 0#8) := by
  induction bytes generalizing register with
  | nil => exact congrArg (feed table · []) (BitVec.xor_zero).symm
  | cons byte rest ih =>
      have next := ih (step table register byte) (by rw [List.length_cons] at fits; omega)
      calc feed table register (byte :: rest)
          = feed table (step table register byte ^^^ word rest)
              (List.replicate rest.length 0#8) := next
        _ = feed table (step table (register ^^^ byte.setWidth w ^^^ word rest <<< 8) 0#8)
              (List.replicate rest.length 0#8) := by
            rw [step_above _ fits, ← step_eq_zero]
        _ = feed table (register ^^^ word (byte :: rest))
              (List.replicate (rest.length + 1) 0#8) := by
            rw [word, ← BitVec.xor_assoc]
            rfl

theorem word_injective {bytes other : List (BitVec 8)} (length : bytes.length = other.length)
    (fits : 8 * bytes.length ≤ w) (same : (word bytes : BitVec w) = word other) :
    bytes = other := by
  induction bytes generalizing other with
  | nil => exact (List.eq_nil_of_length_eq_zero length.symm).symm
  | cons byte rest ih =>
      cases other with
      | nil => cases length
      | cons first others =>
          rw [List.length_cons] at fits
          rw [List.length_cons, List.length_cons, Nat.add_right_cancel_iff] at length
          have byteEq : byte = first := by
            apply BitVec.eq_of_getLsbD_eq
            intro i small
            have bit := congrArg (BitVec.getLsbD · i) same
            simpa [word, BitVec.getLsbD_shiftLeft, small, show i < w by omega] using bit
          rw [word, word, byteEq, BitVec.xor_right_inj] at same
          have above := congrArg (fun word : BitVec w => word >>> 8) same
          simp only [word_shift fits, word_shift (length ▸ fits)] at above
          rw [byteEq, ih length (by omega) above]

/-- **Two messages that differ in a burst of at most `w` bits leave different registers.** -/
theorem feed_ne_of_burst (separates : Separates table) (register : BitVec w)
    {burst other : List (BitVec 8)} (length : burst.length = other.length)
    (fits : 8 * burst.length ≤ w) (differ : burst ≠ other) (front back : List (BitVec 8)) :
    feed table register (front ++ burst ++ back) ≠
      feed table register (front ++ other ++ back) := by
  intro same
  simp only [feed_append] at same
  have registers := feed_injective separates back same
  have zeros := (feed_eq_zeros _ fits).symm.trans
    (registers.trans (feed_eq_zeros _ (length ▸ fits)))
  rw [length] at zeros
  have words := feed_injective separates _ zeros
  simp only [BitVec.xor_right_inj] at words
  exact differ (word_injective length fits words)

end TableCrc
