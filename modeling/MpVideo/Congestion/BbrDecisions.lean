import MpVideo.Congestion.BbrSender
import MpVideo.Lib.Rounding
import Mathlib.Data.Rat.Floor
import Mathlib.Data.Int.ConditionallyCompleteOrder
import Mathlib.Order.WithBot

/-!
# The decisions of the BBR senders

What `congestion/bbr_sender_v2.cc` to `congestion/bbr_sender_v5.cc` decide on: the mode, the
gains, the round trip times and the pacing rate. The four files share most of their members
and functions. A function that two versions have alike is written once, and a version that
differs has a function of its own under its name; `control` puts together the operations of
each version.

The bandwidths, the maximum filter and the random numbers come from the QUIC library. A
bandwidth is its number of bits per second; a delta that can be `QuicTime::Delta::Infinite()`
has a greatest element. What the senders only write for a trace is left out.
-/

set_option autoImplicit false

namespace MpVideo.Congestion

open Rounding

/-- What the senders use of the QUIC library. -/
structure QuicLibrary where
  /-- The product of a bandwidth and a float. -/
  scale : ℚ → ℤ → ℤ
  fromBytesAndTimeDelta : UInt64 → QuicTime → ℤ
  /-- The product of a delta and a bandwidth. -/
  bytes : QuicTime → ℤ → UInt64
  /-- The product of a delta and a float. -/
  stretch : ℚ → QuicTime → QuicTime
  /-- `MaxBandwidthFilter`. -/
  Filter : Type
  /-- The filter that the constructors make. -/
  filter : Filter
  update : ℤ → UInt64 → Filter → Filter
  reset : ℤ → UInt64 → Filter → Filter
  getBest : Filter → ℤ
  /-- `MyQuicRandom`. -/
  Random : Type
  randUint64 : Random → UInt64 × Random

/-- A library whose products are exact but for the floor, with a filter that keeps the maximum
since it was reset, and the same random number every time. -/
def QuicLibrary.plain : QuicLibrary where
  scale gain bw := ⌊gain * bw⌋
  fromBytesAndTimeDelta bytes delta := 8000000 * bytes.toNat / delta
  bytes delta bw := UInt64.ofInt (delta * bw / 8000000)
  stretch factor delta := ⌊factor * delta⌋
  Filter := ℤ
  filter := 0
  update bw _ best := max best bw
  reset bw _ _ := bw
  getBest best := best
  Random := UInt64
  randUint64 random := (random, random)

/-! ## The constants -/

def kDefaultHighGain : ℚ := 2
def kStartupGrowthTarget : ℚ := 1.25
def kRoundTripsWithoutGrowthBeforeExitingStartup : UInt64 := 3
def kSimilarMinRttThreshold : ℚ := 1.125
def kInitialCongestionWindow : UInt64 := 10 * 1000
/-- Ten seconds. -/
def kMinRttExpiry : QuicTime := 10000000

/-- `kPacingGain` of the versions 4 and 5. -/
def kPacingGain : List ℚ := [1.11, 0.9, 1, 1, 1, 1, 1, 1]
def kGainCycleLength : Nat := kPacingGain.length

/-- `kBandwidthProbeArray` of the version 3. -/
def kBandwidthProbeArray : List ℚ := [4, 3.5, 3, 2.5, 2, 1.5, 1, 1]
def kAICycleLength : Nat := kBandwidthProbeArray.length
def kBandWidthIncrease : UInt32 := 5000

/-! ## The members -/

/-- The members of `MyBbrSenderV2` to `MyBbrSenderV5` that the decisions work on. A version
never touches the ones that its class does not have. -/
structure Decisions (library : QuicLibrary) where
  minBw : ℤ
  mode : Mode := .start
  pacingGain : ℚ := kDefaultHighGain
  isAtFullBandwidth : Bool := false
  roundsWithoutBandwidthGain : UInt64 := 0
  bandwidthAtLastRound : ℤ := 0
  maxBandwidth : library.Filter := library.filter
  maxBwInIncrease : ℤ := 0
  pacingRate : ℤ := 0
  sendingRate : ℤ := 0
  referenceRate : ℤ := 0
  minRtt : QuicTime := 0
  minRttTimestamp : QuicTime := 0
  minRttInDecrease : WithTop QuicTime := ⊤
  minRttTimestampInDecrease : QuicTime := 0
  minRttRecord : QuicTime := 0
  exitProbeRttAt : QuicTime := 0
  curRtt : QuicTime := 0
  sRtt : QuicTime := 0
  baseLineRtt : WithTop QuicTime := ⊤
  lastBackoffCount : UInt64 := 0
  seqAtBackoff : UInt64 := 0
  congestionBackoffFlag : Bool := false
  dynamicCongestionBackOff : ℚ := 0
  congestionStartRound : Int64 := 0
  congestionRoundCount : Int64 := 0
  congestionRecvSeq : UInt64 := 0
  congestionRecvCutSeq : UInt64 := 0
  bdp : UInt64 := 0
  minRttExpired : Bool := false
  cycleCurrentOffset : Nat := 0
  lastCycleStart : QuicTime := 0
  random : library.Random

variable {library : QuicLibrary}

/-- A sample as a bandwidth. -/
def QuicLibrary.bandwidth (library : QuicLibrary) : Option Sample → ℤ
  | none => 0
  | some ⟨none, ack⟩ => library.fromBytesAndTimeDelta ack.bytes ack.delta
  | some ⟨some sent, ack⟩ =>
      min (library.fromBytesAndTimeDelta sent.bytes sent.delta)
        (library.fromBytesAndTimeDelta ack.bytes ack.delta)

namespace Decisions

/-- `BandwidthEstimate`. -/
def bandwidthEstimate (s : Decisions library) : ℤ := library.getBest s.maxBandwidth

/-- `GetMinRtt`. -/
def getMinRtt (s : Decisions library) : QuicTime :=
  if s.minRtt ≠ 0 then s.minRtt else 200000

/-- The conversion of a product of a float and a byte count, for products below `2 ^ 64`
(`toNat_scaleBytes`); the conversion of greater ones is undefined, and they wrap here. -/
def scaleBytes (gain : ℚ) (bytes : UInt64) : UInt64 :=
  UInt64.ofNat ⌊round 24 (round 24 gain * round 24 (bytes.toNat : ℚ))⌋₊

/-- With the gains in use, which are at most one, the conversion of up to `2 ^ 63` bytes is
defined. -/
theorem toNat_scaleBytes {gain : ℚ} (positive : 0 ≤ gain) (atMost : gain ≤ 1) {bytes : UInt64}
    (short : bytes.toNat ≤ 2 ^ 63) : (scaleBytes gain bytes).toNat =
      ⌊round 24 (round 24 gain * round 24 (bytes.toNat : ℚ))⌋₊ := by
  have one : Representable 24 (1 : ℚ) := ⟨1, 0, by decide, by norm_num⟩
  have most : Representable 24 (2 ^ 63 : ℚ) := ⟨1, 63, by decide, by norm_num⟩
  have nonneg : (0 : ℚ) ≤ bytes.toNat := Nat.cast_nonneg _
  have factor : round 24 gain ≤ 1 :=
    (round_mono positive atMost).trans_eq (round_of_representable one)
  have count : round 24 (bytes.toNat : ℚ) ≤ 2 ^ 63 :=
    (round_mono nonneg (by exact_mod_cast short)).trans_eq (round_of_representable most)
  have product : round 24 gain * round 24 (bytes.toNat : ℚ) ≤ 2 ^ 63 :=
    (mul_le_of_le_one_left (round_nonneg nonneg) factor).trans count
  have rounded : round 24 (round 24 gain * round 24 (bytes.toNat : ℚ)) ≤ 2 ^ 63 :=
    (round_mono (mul_nonneg (round_nonneg positive) (round_nonneg nonneg)) product).trans_eq
      (round_of_representable most)
  have small : ⌊round 24 (round 24 gain * round 24 (bytes.toNat : ℚ))⌋₊ ≤ 2 ^ 63 := by
    refine Nat.floor_le_of_le ?_
    exact_mod_cast rounded
  rw [scaleBytes, UInt64.toNat_ofNat', Nat.mod_eq_of_lt (lt_of_le_of_lt small (by decide))]

/-- The window that `GetTargetCongestionWindow` and `GetTargetInflightInDecrease` form from a
bandwidth-delay product. -/
def targetWindow (gain : ℚ) (bdp : UInt64) : UInt64 :=
  let congestionWindow := scaleBytes gain bdp
  if congestionWindow = 0 then scaleBytes gain kInitialCongestionWindow else congestionWindow

/-- `GetTargetCongestionWindow`. -/
def getTargetCongestionWindow (gain : ℚ) (s : Decisions library) : UInt64 :=
  targetWindow gain (library.bytes s.getMinRtt s.bandwidthEstimate)

/-- `GetTargetInflightInDecrease`. -/
def getTargetInflightInDecrease (gain : ℚ) (s : Decisions library) : UInt64 :=
  targetWindow gain (library.bytes s.minRttRecord s.bandwidthEstimate)

/-! ## Rounds and bandwidths -/

/-- `CheckIfFullBandwidthReached`. -/
def checkIfFullBandwidthReached (s : Decisions library) : Decisions library :=
  let target := library.scale kStartupGrowthTarget s.bandwidthAtLastRound
  if target ≤ s.bandwidthEstimate then
    { s with bandwidthAtLastRound := s.bandwidthEstimate, roundsWithoutBandwidthGain := 0 }
  else
    let rounds := s.roundsWithoutBandwidthGain + 1
    { s with
      roundsWithoutBandwidthGain := rounds
      isAtFullBandwidth :=
        s.isAtFullBandwidth || decide (kRoundTripsWithoutGrowthBeforeExitingStartup ≤ rounds) }

/-- `max_bandwidth_.Update`. -/
def updateMaxBandwidth (bw : Option Sample) (round : Int64) (s : Decisions library) :
    Decisions library :=
  { s with maxBandwidth := library.update (library.bandwidth bw) round.toUInt64 s.maxBandwidth }

/-- `UpdateMaxBw`. -/
def updateMaxBw (s : Decisions library) : Decisions library :=
  { s with maxBwInIncrease := max s.maxBwInIncrease s.bandwidthEstimate }

/-! ## Round trip times -/

/-- A delta is less than one that can be infinite. -/
instance decidableLtDelta (delta : QuicTime) :
    (least : WithTop QuicTime) → Decidable ((delta : WithTop QuicTime) < least)
  | none => isTrue (WithTop.coe_lt_top delta)
  | some other => decidable_of_iff (delta < other) WithTop.coe_lt_coe.symm

/-- A delta is at most one that can be infinite. -/
instance decidableLeDelta (delta : QuicTime) :
    (least : WithTop QuicTime) → Decidable ((delta : WithTop QuicTime) ≤ least)
  | none => isTrue le_top
  | some other => decidable_of_iff (delta ≤ other) WithTop.coe_le_coe.symm

/-- The minimum of the round trip times in `UpdateRttAndInflight`. -/
def updateMinRtt (now rtt : QuicTime) (s : Decisions library) : Decisions library :=
  if s.minRtt = 0 then { s with minRtt := rtt, minRttTimestamp := now }
  else
    let s := if rtt < s.minRtt then { s with minRtt := rtt, minRttTimestamp := now } else s
    if s.minRtt < rtt ∧ rtt ≤ library.stretch kSimilarMinRttThreshold s.minRtt then
      { s with minRttTimestamp := now }
    else s

/-- The minimum of the mode `ST_DECREASE` in `UpdateRttAndInflight`. -/
def updateMinRttInDecrease (now rtt : QuicTime) (s : Decisions library) : Decisions library :=
  if s.mode = .decrease ∧ (rtt : WithTop QuicTime) ≤ s.minRttInDecrease then
    { s with minRttInDecrease := rtt, minRttTimestampInDecrease := now }
  else s

/-- The smoothed round trip time after a new one, in whole milliseconds. -/
def smoothRtt (kSmoothRttNum : ℤ) (sRtt rtt : QuicTime) : QuicTime :=
  1000 * (((100 - kSmoothRttNum) * (sRtt.tdiv 1000) + kSmoothRttNum * (rtt.tdiv 1000)).tdiv 100)

/-- The part of `UpdateRttAndInflight` of the version 5 in the mode `ST_INCREASE`. -/
def updateBaseLine (packetNumber : UInt64) (rtt : QuicTime) (s : Decisions library) :
    Decisions library :=
  if s.mode = .increase ∧ s.seqAtBackoff < packetNumber then
    let s := if (rtt : WithTop QuicTime) < s.baseLineRtt then
      { s with baseLineRtt := rtt, sRtt := rtt } else s
    { s with sRtt := if s.sRtt = 0 then rtt else smoothRtt 95 s.sRtt rtt }
  else s

/-- What `UpdateRttAndInflight` does with a round trip time. -/
def updateRtt (now : QuicTime) (packetNumber : UInt64) (packet : PerPacket)
    (s : Decisions library) : Version → Decisions library
  | .v2 =>
      let rtt := now - packet.sentTs
      (s.updateMinRtt now rtt).updateMinRttInDecrease now rtt
  | .v3 | .v4 =>
      let rtt := now - packet.sentTs
      let s := { s with curRtt := rtt }
      (s.updateMinRtt now rtt).updateMinRttInDecrease now rtt
  | .v5 =>
      let rtt := now - packet.sentTs
      ((s.updateMinRtt now rtt).updateMinRttInDecrease now rtt).updateBaseLine packetNumber rtt

/-- `UpdateCongestionSignal` of the versions 3 and 4. -/
def updateCongestionSignal (ackSeq : UInt64) (s : Decisions library) : Decisions library :=
  if s.curRtt = 0 then s
  else if s.seqAtBackoff < ackSeq then
    let s := { s with sRtt := if s.sRtt = 0 then s.curRtt else smoothRtt 90 s.sRtt s.curRtt }
    if (s.curRtt : WithTop QuicTime) < s.baseLineRtt then { s with baseLineRtt := s.curRtt } else s
  else s

/-! ## Modes -/

/-- `EnterIncreaseMode`. The versions 4 and 5 pick an offset of the gain cycle other than 1. -/
def enterIncreaseMode (now : QuicTime) (s : Decisions library) : Version → Decisions library
  | .v2 => { s with mode := .increase, pacingGain := 1 }
  | .v3 =>
      let (draw, random) := library.randUint64 s.random
      { s with
        mode := .increase
        pacingGain := 1
        cycleCurrentOffset := draw.toNat % (kAICycleLength - 1)
        random := random }
  | .v4 | .v5 =>
      let (draw, random) := library.randUint64 s.random
      let offset := draw.toNat % (kGainCycleLength - 1)
      let offset := if 1 ≤ offset then offset + 1 else offset
      { s with
        mode := .increase
        cycleCurrentOffset := offset
        random := random
        lastCycleStart := now
        pacingGain := kPacingGain.getD offset 1 }

/-- `MaybeExitStartupOrDrain`. -/
def maybeExitStartupOrDrain (version : Version) (account : Account) (now : QuicTime)
    (s : Decisions library) : Decisions library :=
  let s :=
    if s.mode = .start ∧ s.isAtFullBandwidth then
      { s with mode := .drain, pacingGain := 1 / kDefaultHighGain }
    else s
  if s.mode = .drain ∧ account.bytesInFlight ≤ s.getTargetCongestionWindow 1 then
    s.enterIncreaseMode now version
  else s

/-- The minimum round trip time becomes the one of the mode `ST_DECREASE`, or the recorded
one when nothing was measured there. -/
def restoreMinRtt (now : QuicTime) (s : Decisions library) : Decisions library :=
  { s with
    minRtt := s.minRttInDecrease.untopD s.minRttRecord
    minRttTimestamp :=
      if s.minRttInDecrease = ⊤ then now else s.minRttTimestampInDecrease }

/-- What `MaybeEnterOrExitDecrease` resets on entry in every version. -/
def enterDecrease (s : Decisions library) : Decisions library :=
  { s with
    mode := .decrease
    minRttRecord := s.minRtt
    exitProbeRttAt := 0
    maxBwInIncrease := 0
    minRttInDecrease := ⊤ }

/-- The round trip times that signalled a congestion are forgotten, until a packet beyond the
last one sent is acknowledged. -/
def forgetSignal (account : Account) (s : Decisions library) : Decisions library :=
  { s with seqAtBackoff := account.lastSentPacket, sRtt := 0, baseLineRtt := ⊤ }

/-- The entry in `MaybeEnterOrExitDecrease`. -/
def enter (account : Account) (minRttExpired isCongested : Bool) (round : Int64)
    (s : Decisions library) : Version → Decisions library
  | .v2 =>
      let best := s.bandwidthEstimate
      let target :=
        if isCongested then library.scale (max (1 / 2) s.dynamicCongestionBackOff) best
        else library.scale 0.9 best
      { s.enterDecrease with
        pacingGain := max 0.75 s.dynamicCongestionBackOff
        sendingRate := 0
        dynamicCongestionBackOff := 0
        maxBandwidth := library.update target round.toUInt64 (library.reset 0 0 s.maxBandwidth) }
  | .v3 =>
      let s := { s.enterDecrease with sendingRate := 0, pacingGain := 0.9 }
      let s := if isCongested then
        { s.forgetSignal account with congestionBackoffFlag := true } else s
      { s with dynamicCongestionBackOff := 0, lastBackoffCount := round.toUInt64 }
  | .v4 =>
      let s := { s.enterDecrease with sendingRate := 0, pacingGain := 0.75 }
      let s := if isCongested then
        { s.forgetSignal account with congestionBackoffFlag := true } else s
      { s with dynamicCongestionBackOff := 0, lastBackoffCount := round.toUInt64 }
  | .v5 =>
      let s := (s.forgetSignal account).enterDecrease
      let s := { s with pacingGain := 0.75 }
      { s with
        bdp := s.getTargetCongestionWindow 1
        minRttExpired := minRttExpired
        lastBackoffCount := round.toUInt64 }

/-- Whether `MaybeEnterOrExitDecrease` finds the excess drained. -/
def excessDrained (account : Account) (s : Decisions library) : Version → Bool
  | .v2 => account.bytesInFlight ≤ s.getTargetInflightInDecrease 1
  | .v3 => account.bytesInFlight ≤ s.getTargetCongestionWindow 1
  | .v4 =>
      if s.congestionBackoffFlag then account.bytesInFlight ≤ s.getTargetCongestionWindow 0.9
      else account.bytesInFlight ≤ s.getTargetCongestionWindow 1
  | .v5 => account.bytesInFlight ≤ s.bdp

/-- What is noted in the mode `ST_DECREASE`: when it began, and in the version 3 the last
packet sent. -/
def probe (account : Account) (now : QuicTime) (s : Decisions library) (version : Version) :
    Decisions library :=
  let s := if s.exitProbeRttAt = 0 then { s with exitProbeRttAt := now } else s
  if version = .v3 ∧ s.congestionBackoffFlag then
    { s with seqAtBackoff := account.lastSentPacket }
  else s

/-- Whether the mode `ST_DECREASE` ends. -/
def decreaseEnds (account : Account) (now : QuicTime) (s : Decisions library) (version : Version) :
    Bool :=
  (version = .v5 ∧ s.minRttExpired ∧ 4 * s.minRttRecord < now - s.exitProbeRttAt) ∨
    s.excessDrained account version

/-- What the end of the mode `ST_DECREASE` restores. In the version 5 that is nothing, unless
the minimum round trip time had expired. -/
def restore (now : QuicTime) (s : Decisions library) : Version → Decisions library
  | .v2 => s.restoreMinRtt now
  | .v3 | .v4 => { s.restoreMinRtt now with congestionBackoffFlag := false }
  | .v5 =>
      let s := if s.minRttExpired then s.restoreMinRtt now else s
      { s with minRttExpired := false, congestionBackoffFlag := false }

/-- The part of `MaybeEnterOrExitDecrease` in the mode `ST_DECREASE`. -/
def exit (account : Account) (now : QuicTime) (s : Decisions library) (version : Version) :
    Decisions library :=
  let s := s.probe account now version
  if s.decreaseEnds account now version then (s.restore now version).enterIncreaseMode now version
  else s

/-- `MaybeEnterOrExitDecrease`. -/
def maybeEnterOrExitDecrease (version : Version) (account : Account) (now : QuicTime)
    (minRttExpired isCongested : Bool) (round : Int64) (s : Decisions library) :
    Decisions library :=
  let s :=
    if s.mode ≠ .decrease ∧ (minRttExpired ∨ isCongested) then
      s.enter account minRttExpired isCongested round version
    else s
  if s.mode = .decrease then s.exit account now version else s

/-! ## Congestion -/

/-- `CheckIfCongestion` of the version 2: two rounds on end with a small sample. -/
def checkIfCongestionV2 (instantBw : ℤ) (round : Int64) (s : Decisions library) :
    Decisions library × Bool :=
  if s.maxBwInIncrease = 0 ∨ s.sendingRate = 0 then (s, false)
  else if library.scale 0.9 s.sendingRate < instantBw then (s, false)
  else if s.congestionStartRound = 0 then
    ({ s with congestionStartRound := round, congestionRoundCount := round }, false)
  else
    let s :=
      if round = s.congestionRoundCount + 1 then
        let num := Rounding.round 24 (1000 * (instantBw.tdiv 1000) : ℚ)
        let den := Rounding.round 24 (1000 * (s.maxBwInIncrease.tdiv 1000) : ℚ)
        let factor := Rounding.round 24 (num / den)
        { s with
          congestionRoundCount := round
          dynamicCongestionBackOff := max factor s.dynamicCongestionBackOff }
      else
        { s with
          congestionStartRound := 0, congestionRoundCount := 0, dynamicCongestionBackOff := 0 }
    if s.congestionStartRound ≠ 0 ∧ 1 ≤ s.congestionRoundCount - s.congestionStartRound then
      ({ s with congestionStartRound := 0, congestionRoundCount := 0 }, true)
    else (s, false)

/-- `CheckIfCongestion` of the version 3. -/
def checkIfCongestionV3 (s : Decisions library) : Bool :=
  s.sRtt ≠ 0 ∧ s.baseLineRtt ≠ ⊤ ∧ library.stretch 1.5 s.minRtt < s.sRtt

/-- `CheckIfCongestion` of the version 4. -/
def checkIfCongestionV4 (s : Decisions library) : Bool :=
  s.sRtt ≠ 0 ∧ s.baseLineRtt ≠ ⊤ ∧
    library.stretch 1.2 s.minRtt < s.sRtt ∧ s.sRtt < library.stretch 1.5 s.minRtt

/-- `CheckIfCongestion` of the version 5. -/
def checkIfCongestionV5 (account : Account) (packetNumber : UInt64) (s : Decisions library) :
    Decisions library × Bool :=
  let s :=
    if s.congestionRecvSeq + 1 < packetNumber ∧ s.congestionRecvCutSeq < packetNumber then
      { s with congestionRecvCutSeq := account.lastSentPacket }
    else s
  let s :=
    if s.congestionRecvSeq + 1 ≤ packetNumber then { s with congestionRecvSeq := packetNumber }
    else s
  (s, s.baseLineRtt ≠ ⊤ ∧ library.stretch 1.2 (s.baseLineRtt.untopD 0) < s.sRtt ∧
    s.mode = .increase)

/-- `CheckIfCongestion`. -/
def checkIfCongestion (account : Account) (packetNumber : UInt64) (bw : Option Sample)
    (round : Int64) (s : Decisions library) : Version → Decisions library × Bool
  | .v2 => s.checkIfCongestionV2 (library.bandwidth bw) round
  | .v3 => (s, s.checkIfCongestionV3)
  | .v4 => (s, s.checkIfCongestionV4)
  | .v5 => s.checkIfCongestionV5 account packetNumber

/-! ## Gains and rates -/

/-- `UpdateAICycle` of the version 3 and `UpdateGainCyclePhase` of the versions 4 and 5. -/
def updateCycle (now : QuicTime) (s : Decisions library) : Version → Decisions library
  | .v2 => s
  | .v3 =>
      if s.getMinRtt < now - s.lastCycleStart then
        { s with
          cycleCurrentOffset := (s.cycleCurrentOffset + 1) % (kAICycleLength - 1)
          lastCycleStart := now }
      else s
  | .v4 | .v5 =>
      if s.getMinRtt < now - s.lastCycleStart then
        let offset := (s.cycleCurrentOffset + 1) % kGainCycleLength
        { s with
          cycleCurrentOffset := offset
          lastCycleStart := now
          pacingGain := kPacingGain.getD offset 1 }
      else s

/-- The rate in whole kilobits, in bits. -/
def wholeKBits (rate : ℤ) : ℤ := 1000 * rate.tdiv 1000

/-- The part of `CalculatePacingRate` that every version has. -/
def basePacingRate (s : Decisions library) : ℤ :=
  let rate := library.scale s.pacingGain s.bandwidthEstimate
  if rate = 0 then library.fromBytesAndTimeDelta kInitialCongestionWindow s.getMinRtt else rate

/-- `CalculatePacingRate`. The version 2 divides by the round trip time in milliseconds, and
the version 3 reads its table at the offset of the cycle. -/
def calculatePacingRate (s : Decisions library) : Version → Option (Decisions library)
  | .v2 =>
      let s := { s with pacingRate := s.basePacingRate }
      if s.mode = .increase then
        let rtt := UInt64.ofInt (s.getMinRtt.tdiv 1000)
        if rtt = 0 then none
        else
          some { s with
            sendingRate := wholeKBits s.pacingRate
            pacingRate := wholeKBits s.pacingRate + (8000000 / rtt).toNat }
      else some s
  | .v3 =>
      let s := { s with pacingRate := s.basePacingRate }
      if s.mode = .increase then
        kBandwidthProbeArray[s.cycleCurrentOffset]?.map fun gain =>
          { s with
            sendingRate := wholeKBits s.pacingRate
            pacingRate := wholeKBits s.pacingRate + ⌊gain * kBandWidthIncrease.toNat⌋ }
      else some s
  | .v4 =>
      let s := { s with pacingRate := s.basePacingRate }
      if s.mode = .increase then some { s with sendingRate := wholeKBits s.pacingRate }
      else some s
  | .v5 =>
      let s := { s with referenceRate := s.bandwidthEstimate, pacingRate := s.basePacingRate }
      if s.mode = .increase ∧ s.pacingGain = 1 ∧ s.pacingRate < s.minBw then
        some { s with pacingRate := s.minBw, referenceRate := s.minBw }
      else some s

/-- The operations of a version. -/
def control (version : Version) : Control (Decisions library) where
  mode := mode
  isAtFullBandwidth := isAtFullBandwidth
  updateRtt _ now packetNumber packet s := s.updateRtt now packetNumber packet version
  minRttExpired now s := decide (s.minRttTimestamp + kMinRttExpiry < now)
  updateMaxBandwidth := updateMaxBandwidth
  updateMaxBw := updateMaxBw
  checkIfFullBandwidthReached := checkIfFullBandwidthReached
  checkIfCongestion account packetNumber bw round s :=
    s.checkIfCongestion account packetNumber bw round version
  maybeExitStartupOrDrain := maybeExitStartupOrDrain version
  maybeEnterOrExitDecrease := maybeEnterOrExitDecrease version
  updateCongestionSignal := updateCongestionSignal
  updateCycle now s := s.updateCycle now version
  calculatePacingRate _ s := s.calculatePacingRate version

end Decisions

end MpVideo.Congestion
