import MpVideo.Congestion.Sampler
import MpVideo.Lib.Machine
import Mathlib.Algebra.BigOperators.Group.List.Basic
import Mathlib.Algebra.Order.Group.Int
import Mathlib.Tactic.Linarith

/-!
# The ideal pacer

`idealpacer.cc`: the pacer keeps the time at which the next packet should leave, and lets a
packet leave up to `alarm_granularity_` before it. Each packet moves that time on by its
transfer time.

From any packet that was sent, the transfer times so far fit before the time of the next
packet (`Conforms`). So the packets from one send up to another take no more than the time
between the two and one granularity (`transfers_le_elapsed`), whatever the rates are, and
however long the pacer was idle in between.
-/

set_option autoImplicit false

namespace MpVideo.Congestion

/-- What the pacer uses of `QuicBandwidth`. -/
structure QuicBandwidth where
  Rate : Type
  zero : Rate
  fromBitsPerSecond : UInt32 → Rate
  timesGain : Rate → Rate
  transferTime : Rate → UInt64 → QuicTime

/-- `alarm_granularity_`: one millisecond. -/
def alarmGranularity : QuicTime := 1000

variable {bandwidth : QuicBandwidth}

/-- `IdealCC`, as far as the pacer sets it. -/
structure IdealCC (bandwidth : QuicBandwidth) where
  availableBw : bandwidth.Rate := bandwidth.zero

/-- The members of `IdealPacingSender`. -/
structure IdealPacingSender (bandwidth : QuicBandwidth) where
  idealNextPacketSendTime : QuicTime := 0
  usableRate : bandwidth.Rate := bandwidth.zero
  pacingRate : bandwidth.Rate := bandwidth.zero
  sender : IdealCC bandwidth := {}

namespace IdealPacingSender

/-- `set_max_bps`. -/
def setMaxBps (maxBps : UInt32) (pacer : IdealPacingSender bandwidth) :
    IdealPacingSender bandwidth :=
  let usableRate := bandwidth.fromBitsPerSecond maxBps
  { pacer with
    usableRate := usableRate
    pacingRate := bandwidth.timesGain usableRate
    sender := { availableBw := usableRate } }

/-- The delay in `OnPacketSent`. -/
def delay (bytes : UInt64) (pacer : IdealPacingSender bandwidth) : QuicTime :=
  bandwidth.transferTime pacer.pacingRate bytes

/-- `OnPacketSent`. -/
def onPacketSent (now : QuicTime) (bytes : UInt64) (pacer : IdealPacingSender bandwidth) :
    IdealPacingSender bandwidth :=
  { pacer with
    idealNextPacketSendTime :=
      max (pacer.idealNextPacketSendTime + pacer.delay bytes) (now + pacer.delay bytes) }

/-- `OnCongestionEvent`. -/
def onCongestionEvent (pacer : IdealPacingSender bandwidth) : IdealPacingSender bandwidth :=
  pacer

/-- `TimeUntilSend`. -/
def timeUntilSend (now : QuicTime) (pacer : IdealPacingSender bandwidth) : QuicTime :=
  if now + alarmGranularity < pacer.idealNextPacketSendTime then
    pacer.idealNextPacketSendTime - now
  else 0

/-- A packet that left, and its transfer time at the rate of that moment. -/
structure Departure where
  time : QuicTime
  transfer : QuicTime

/-- What happens to the pacer. -/
inductive Event where
  | setMaxBps (maxBps : UInt32)
  | send (now : QuicTime) (bytes : UInt64)
  | onCongestionEvent

/-- What happens on an event. A packet is sent only when `TimeUntilSend` is zero. -/
def handle (pacer : IdealPacingSender bandwidth) :
    Event → Option (IdealPacingSender bandwidth × List Departure)
  | .setMaxBps maxBps => some (pacer.setMaxBps maxBps, [])
  | .send now bytes =>
      if pacer.timeUntilSend now = 0 then
        some (pacer.onPacketSent now bytes, [⟨now, bandwidth.transferTime pacer.pacingRate bytes⟩])
      else none
  | .onCongestionEvent => some (pacer.onCongestionEvent, [])

/-- The pacer as a machine. -/
def machine (bandwidth : QuicBandwidth) :
    Machine (IdealPacingSender bandwidth) Event Departure := ⟨handle⟩

/-- The transfer times of some packets together. -/
def transfers (departures : List Departure) : QuicTime :=
  (departures.map Departure.transfer).sum

@[simp] theorem transfers_append (first second : List Departure) :
    transfers (first ++ second) = transfers first + transfers second := by
  rw [transfers, List.map_append, List.sum_append, transfers, transfers]

@[simp] theorem transfers_singleton (departure : Departure) :
    transfers [departure] = departure.transfer := by
  rw [transfers, List.map_singleton, List.sum_singleton]

/-- What the packets so far have left behind. -/
structure Conforms (pacer : IdealPacingSender bandwidth) (log : List Departure) : Prop where
  covered : ∀ (i : Nat) (first : Departure), log[i]? = some first →
    first.time + transfers (log.drop i) ≤ pacer.idealNextPacketSendTime
  elapsed : ∀ (i j : Nat) (first last : Departure), i < j → log[i]? = some first →
    log[j]? = some last →
    transfers ((log.take j).drop i) ≤ last.time - first.time + alarmGranularity

variable {pacer : IdealPacingSender bandwidth} {log : List Departure}

theorem conforms_fresh : Conforms ({} : IdealPacingSender bandwidth) [] where
  covered := by simp
  elapsed := by simp

/-- A packet may leave exactly from one granularity before its time on. -/
theorem timeUntilSend_eq_zero_iff (now : QuicTime) :
    pacer.timeUntilSend now = 0 ↔ pacer.idealNextPacketSendTime ≤ now + alarmGranularity := by
  have ahead : 0 < alarmGranularity := by decide
  unfold timeUntilSend
  split_ifs with early
  · exact ⟨fun same => by linarith, fun due => absurd early (not_lt.mpr due)⟩
  · exact ⟨fun _ => not_lt.mp early, fun _ => rfl⟩

/-- The rate does not matter to what was sent before. -/
theorem Conforms.of_sendTime {other : IdealPacingSender bandwidth} (conforms : pacer.Conforms log)
    (same : other.idealNextPacketSendTime = pacer.idealNextPacketSendTime) :
    other.Conforms log :=
  ⟨fun i first found => same ▸ conforms.covered i first found, conforms.elapsed⟩

theorem Conforms.onPacketSent (conforms : pacer.Conforms log) {now : QuicTime} (bytes : UInt64)
    (due : pacer.idealNextPacketSendTime ≤ now + alarmGranularity) :
    (pacer.onPacketSent now bytes).Conforms (log ++ [⟨now, pacer.delay bytes⟩]) := by
  refine ⟨?_, ?_⟩
  · intro i first found
    change _ ≤ max _ _
    rcases Nat.lt_or_ge i log.length with inside | beyond
    · rw [List.getElem?_append_left inside] at found
      rw [List.drop_append_of_le_length inside.le, transfers_append, transfers_singleton,
        ← add_assoc]
      exact le_max_of_le_left (Int.add_le_add_right (conforms.covered i first found) _)
    · obtain rfl : i = log.length := by
        have bound := (List.getElem?_eq_some_iff.mp found).1
        simp only [List.length_append, List.length_singleton] at bound
        omega
      rw [List.getElem?_concat_length] at found
      obtain rfl := Option.some.inj found
      rw [List.drop_left, transfers_singleton]
      exact le_max_right _ _
  · intro i j first last before atFirst atLast
    have bound := (List.getElem?_eq_some_iff.mp atLast).1
    simp only [List.length_append, List.length_singleton] at bound
    rw [List.getElem?_append_left (by omega)] at atFirst
    rw [List.take_append_of_le_length (by omega)]
    rcases Nat.lt_or_ge j log.length with inside | beyond
    · rw [List.getElem?_append_left inside] at atLast
      exact conforms.elapsed i j first last before atFirst atLast
    · -- the packet that leaves now
      obtain rfl : j = log.length := by omega
      rw [List.getElem?_concat_length] at atLast
      obtain rfl := Option.some.inj atLast
      rw [List.take_length]
      have covered := conforms.covered i first atFirst
      dsimp only
      linarith

theorem Conforms.step (s : IdealPacingSender bandwidth) (past : List Departure) (event : Event)
    (next : IdealPacingSender bandwidth) (out : List Departure) (conforms : s.Conforms past)
    (stepped : (machine bandwidth).step s event = some (next, out)) :
    next.Conforms (past ++ out) := by
  cases event with
  | setMaxBps maxBps =>
      obtain ⟨rfl, rfl⟩ := Prod.mk.inj (Option.some.inj stepped)
      rw [List.append_nil]
      exact conforms.of_sendTime rfl
  | send now bytes =>
      obtain ⟨due, sent⟩ := Option.ite_none_right_eq_some.mp stepped
      obtain ⟨rfl, rfl⟩ := Prod.mk.inj (Option.some.inj sent)
      exact conforms.onPacketSent bytes ((timeUntilSend_eq_zero_iff now).mp due)
  | onCongestionEvent =>
      obtain ⟨rfl, rfl⟩ := Prod.mk.inj (Option.some.inj stepped)
      rw [List.append_nil]
      exact conforms

theorem conforms_of_run {events : List Event}
    (ran : (machine bandwidth).run {} events = some (pacer, log)) : pacer.Conforms log :=
  Machine.run_log_invariant Conforms Conforms.step [] conforms_fresh ran

/-- **The packets from one send up to another take no more than the time between the two
and one granularity.** -/
theorem transfers_le_elapsed {events : List Event}
    (ran : (machine bandwidth).run {} events = some (pacer, log)) {i j : Nat}
    {first last : Departure} (before : i < j) (atFirst : log[i]? = some first)
    (atLast : log[j]? = some last) :
    transfers ((log.take j).drop i) ≤ last.time - first.time + alarmGranularity :=
  (conforms_of_run ran).elapsed i j first last before atFirst atLast

/-- Rates as bits per second, and transfer times cut to whole microseconds. -/
def bitRates : QuicBandwidth where
  Rate := Nat
  zero := 0
  fromBitsPerSecond := UInt32.toNat
  timesGain rate := rate
  transferTime rate bytes := (bytes.toNat * 8 * 1000000 / rate : Nat)

/-- At 8 Mbps the second and the third packet of 1500 bytes may leave a millisecond before the
transfers of the packets before them are over, and the bound is reached. -/
theorem transfers_le_elapsed_early :
    ∃ last, (machine bitRates).run {}
        [.setMaxBps 8000000, .send 0 1500, .send 500 1500, .send 2000 1500] =
          some (last, [⟨0, 1500⟩, ⟨500, 1500⟩, ⟨2000, 1500⟩]) ∧
      transfers [⟨0, 1500⟩, ⟨500, 1500⟩] = (2000 : Int) - 0 + alarmGranularity ∧
      transfers [⟨0, 1500⟩, ⟨500, 1500⟩] ≤ (2000 : Int) - 0 + alarmGranularity := by
  obtain ⟨last, ran⟩ : ∃ last, (machine bitRates).run {}
      [.setMaxBps 8000000, .send 0 1500, .send 500 1500, .send 2000 1500] =
        some (last, [⟨0, 1500⟩, ⟨500, 1500⟩, ⟨2000, 1500⟩]) := ⟨_, rfl⟩
  exact ⟨last, ran, by decide, transfers_le_elapsed ran Nat.zero_lt_two rfl rfl⟩

end IdealPacingSender

end MpVideo.Congestion
