import MpVideo.Congestion.Sampler
import MpVideo.Lib.Machine

/-!
# The in-flight accounting of the BBR senders

`congestion/bbr_sender_v2.cc` to `congestion/bbr_sender_v5.cc` count the bytes in flight
alike: `OnPacketSent` notes a packet in `sent_packets_map_` and in the sampler, and `OnAck`
takes a prefix out of the map, and the numbers in between and the packet itself out of the
sampler.

The four versions differ in what they decide from this. Their decisions work on bandwidths,
gains and a windowed maximum filter, which are not counted in packets and bytes; here they
are the operations of a `Control`, on a state of its own, that see the accounts and cannot
change them. Each version calls them in the order of its `OnAck`.
-/

set_option autoImplicit false

namespace MpVideo.Congestion

/-! ## The accounts -/

/-- `PerPacket`. -/
structure PerPacket where
  sentTs : QuicTime
  bytes : UInt64
  deriving DecidableEq

/-- The members of `MyBbrSenderV2` to `MyBbrSenderV5` that count packets and bytes. -/
structure Account where
  lastSentPacket : UInt64 := 0
  lastAckSeq : UInt64 := 0
  currentRoundTripEnd : UInt64 := 0
  roundTripCount : UInt64 := 0
  sentPacketsMap : SortedMap UInt64 PerPacket := .empty
  bytesInFlight : UInt64 := 0
  sampler : MySampler := {}

/-- A subtraction from `bytes_in_flight_`: the value before, and what is taken away. -/
structure Subtraction where
  before : UInt64
  amount : UInt64
  deriving DecidableEq

namespace Account

/-- `AddPacketInfo`. -/
def addPacketInfo (now : QuicTime) (packetNumber payload : UInt64) (account : Account) :
    Account :=
  { account with sentPacketsMap := account.sentPacketsMap.insert packetNumber ⟨now, payload⟩ }

/-- `OnPacketSent`. -/
def onPacketSent (eventTime : QuicTime) (packetNumber bytes : UInt64) (account : Account) :
    Account :=
  if packetNumber ≤ account.lastSentPacket then account
  else
    let account := { account with lastSentPacket := packetNumber }
    let account := { account with
      sampler := account.sampler.onPacketSent eventTime packetNumber bytes account.bytesInFlight }
    let account := { account with bytesInFlight := account.bytesInFlight + bytes }
    account.addPacketInfo eventTime packetNumber bytes

/-- The loop of `OnAck` over the numbers that were skipped, a number of rounds from `i` on. -/
def lossLoop : Nat → UInt64 → MySampler → MySampler
  | 0, _, sampler => sampler
  | n + 1, i, sampler => lossLoop n (i + 1) (sampler.onPacketLost i)

/-- The loop of `UpdateRttAndInflight`: from the front of the map, each packet up to the
number is taken out of the bytes in flight. -/
def release (packetNumber : UInt64) : List (UInt64 × PerPacket) → UInt64 →
    UInt64 × List Subtraction
  | [], bytes => (bytes, [])
  | (seq, packet) :: rest, bytes =>
      if seq ≤ packetNumber then
        let (left, more) := release packetNumber rest (bytes - packet.bytes)
        (left, ⟨bytes, packet.bytes⟩ :: more)
      else (bytes, [])

/-- The part of `UpdateRttAndInflight` after the round trip time. -/
def updateInflight (packetNumber : UInt64) (account : Account) : Account × List Subtraction :=
  let (bytes, log) := release packetNumber account.sentPacketsMap.entries account.bytesInFlight
  ({ account with
    bytesInFlight := bytes
    sentPacketsMap := account.sentPacketsMap.popLe packetNumber }, log)

/-- `UpdateRoundTripCounter`. -/
def updateRoundTripCounter (lastAckedPacket : UInt64) (account : Account) : Account × Bool :=
  if account.currentRoundTripEnd < lastAckedPacket then
    ({ account with
      roundTripCount := account.roundTripCount + 1
      currentRoundTripEnd := account.lastSentPacket }, true)
  else (account, false)

end Account

/-! ## The decisions -/

/-- `Mode`. -/
inductive Mode where
  | start
  | drain
  | increase
  | decrease
  deriving DecidableEq

/-- The operations of a sender on the members that are not accounts. A congestion reason
counts as whether it differs from zero. -/
structure Control (σ : Type) where
  mode : σ → Mode
  isAtFullBandwidth : σ → Bool
  /-- What `UpdateRttAndInflight` does with the round trip time of the packet. -/
  updateRtt : Account → QuicTime → UInt64 → PerPacket → σ → σ
  /-- Whether the time is beyond `min_rtt_timestamp_ + kMinRttExpiry`. -/
  minRttExpired : QuicTime → σ → Bool
  /-- `max_bandwidth_.Update`. -/
  updateMaxBandwidth : Option Sample → Int64 → σ → σ
  updateMaxBw : σ → σ
  checkIfFullBandwidthReached : σ → σ
  checkIfCongestion : Account → UInt64 → Option Sample → Int64 → σ → σ × Bool
  maybeExitStartupOrDrain : Account → QuicTime → σ → σ
  maybeEnterOrExitDecrease : Account → QuicTime → Bool → Bool → Int64 → σ → σ
  updateCongestionSignal : UInt64 → σ → σ
  /-- `UpdateAICycle` and `UpdateGainCyclePhase`. -/
  updateCycle : QuicTime → σ → σ
  /-- It can divide by a round trip time of zero (`none`). -/
  calculatePacingRate : Account → σ → Option σ

/-- What `OnAck` has found out when the decisions begin. -/
structure Ack where
  eventTime : QuicTime
  packetNumber : UInt64
  currentRound : Int64
  isRoundUpdate : Bool
  bw : Option Sample

namespace Control

variable {σ : Type} (control : Control σ)

/-- At the end of a round the sample enters the maximum filter. -/
def recordBandwidth (ack : Ack) (s : σ) : σ :=
  if ack.isRoundUpdate then
    let s := control.updateMaxBandwidth ack.bw ack.currentRound s
    if control.mode s = .increase then control.updateMaxBw s else s
  else s

/-- At the end of a round the growth of the bandwidth is checked, until it stops. -/
def checkFullBandwidth (ack : Ack) (s : σ) : σ :=
  if ack.isRoundUpdate && !control.isAtFullBandwidth s then control.checkIfFullBandwidthReached s
  else s

/-- The check for congestion, if the version makes it now, and the decrease. -/
def decrease (account : Account) (ack : Ack) (check : Bool) (s : σ) : σ :=
  let minRttExpired := control.minRttExpired ack.eventTime s
  let (s, isCongested) :=
    if control.mode s = .increase && check then
      control.checkIfCongestion account ack.packetNumber ack.bw ack.currentRound s
    else (s, false)
  control.maybeEnterOrExitDecrease account ack.eventTime minRttExpired isCongested
    ack.currentRound s

/-- The gain cycle advances in the mode `ST_INCREASE`. -/
def cycle (ack : Ack) (s : σ) : σ :=
  if control.mode s = .increase then control.updateCycle ack.eventTime s else s

end Control

/-- The four senders. -/
inductive Version where
  | v2
  | v3
  | v4
  | v5
  deriving DecidableEq

/-- The part of `OnAck` between the sampler and the pacing rate, in the order of each
version. -/
def Version.decide {σ : Type} (control : Control σ) (account : Account) (ack : Ack) (s : σ) :
    Version → σ
  | .v2 =>
      let s := control.recordBandwidth ack s
      let s := control.checkFullBandwidth ack s
      let s := control.maybeExitStartupOrDrain account ack.eventTime s
      control.decrease account ack ack.isRoundUpdate s
  | .v3 | .v4 =>
      let s := control.decrease account ack ack.isRoundUpdate s
      let s := control.updateCongestionSignal ack.packetNumber s
      let s := control.recordBandwidth ack s
      let s := control.checkFullBandwidth ack s
      let s := control.maybeExitStartupOrDrain account ack.eventTime s
      control.cycle ack s
  | .v5 =>
      let s := control.decrease account ack true s
      let s := control.recordBandwidth ack s
      let s := control.checkFullBandwidth ack s
      let s := control.maybeExitStartupOrDrain account ack.eventTime s
      control.cycle ack s

/-! ## The senders -/

/-- A sender: its accounts, and the members that its decisions work on. -/
structure MyBbrSender (σ : Type) where
  account : Account
  state : σ

namespace MyBbrSender

variable {σ : Type}

/-- `OnPacketSent`. -/
def onPacketSent (eventTime : QuicTime) (packetNumber bytes : UInt64) (sender : MyBbrSender σ) :
    MyBbrSender σ :=
  { sender with account := sender.account.onPacketSent eventTime packetNumber bytes }

/-- `UpdateRttAndInflight`. -/
def updateRttAndInflight (control : Control σ) (now : QuicTime) (packetNumber : UInt64)
    (sender : MyBbrSender σ) : MyBbrSender σ × List Subtraction :=
  let state :=
    match sender.account.sentPacketsMap.find? packetNumber with
    | some packet => control.updateRtt sender.account now packetNumber packet sender.state
    | none => sender.state
  let (account, log) := sender.account.updateInflight packetNumber
  (⟨account, state⟩, log)

/-- What `OnAck` does with the accounts of a number beyond `last_ack_seq_`. -/
def settle (control : Control σ) (eventTime : QuicTime) (packetNumber : UInt64)
    (sender : MyBbrSender σ) : MyBbrSender σ × Ack × List Subtraction :=
  let account := sender.account
  let i := account.lastAckSeq + 1
  let account := { account with
    sampler := Account.lossLoop (packetNumber - i).toNat i account.sampler }
  let account := { account with lastAckSeq := packetNumber }
  let (sender, log) :=
    updateRttAndInflight control eventTime packetNumber { sender with account := account }
  let currentRound := sender.account.roundTripCount.toInt64
  let (account, isRoundUpdate) :=
    sender.account.updateRoundTripCounter sender.account.lastAckSeq
  let (sampler, bw) := account.sampler.onPacketAcknowledged eventTime packetNumber isRoundUpdate
  let account := { account with sampler := sampler }
  ({ sender with account := account },
    ⟨eventTime, packetNumber, currentRound, isRoundUpdate, bw⟩, log)

/-- `OnAck`, with the subtractions from the bytes in flight. -/
def onAck (version : Version) (control : Control σ) (eventTime : QuicTime)
    (packetNumber : UInt64) (sender : MyBbrSender σ) :
    Option (MyBbrSender σ × List Subtraction) :=
  if packetNumber ≤ sender.account.lastAckSeq then some (sender, [])
  else
    let (sender, ack, log) := sender.settle control eventTime packetNumber
    let state :=
      if ack.currentRound = 0 then sender.state
      else version.decide control sender.account ack sender.state
    (control.calculatePacingRate sender.account state).map fun state =>
      ({ sender with state := state }, log)

end MyBbrSender

/-! ## Runs -/

/-- What a sender is told. -/
inductive CongestionEvent where
  | onPacketSent (eventTime : QuicTime) (packetNumber bytes : UInt64)
  | onAck (eventTime : QuicTime) (packetNumber : UInt64)

/-- A sender with the packet numbers that `OnPacketSent` got, and those of them that it
recorded. -/
structure TracedSender (σ : Type) where
  sender : MyBbrSender σ
  sent : List UInt64 := []
  recorded : List UInt64 := []

namespace TracedSender

variable {σ : Type}

/-- What happens on an event. Only numbers that were sent are acknowledged. -/
def handle (version : Version) (control : Control σ) (traced : TracedSender σ) :
    CongestionEvent → Option (TracedSender σ × List Subtraction)
  | .onPacketSent eventTime packetNumber bytes =>
      some ({
        sender := traced.sender.onPacketSent eventTime packetNumber bytes
        sent := packetNumber :: traced.sent
        recorded :=
          if packetNumber ≤ traced.sender.account.lastSentPacket then traced.recorded
          else packetNumber :: traced.recorded }, [])
  | .onAck eventTime packetNumber =>
      if packetNumber ∈ traced.sent then
        (traced.sender.onAck version control eventTime packetNumber).map fun (sender, log) =>
          ({ traced with sender := sender }, log)
      else none

/-- A sender as a machine. -/
def machine (version : Version) (control : Control σ) :
    Machine (TracedSender σ) CongestionEvent Subtraction :=
  ⟨handle version control⟩

/-- A new sender. -/
def fresh (state : σ) : TracedSender σ := { sender := ⟨{}, state⟩ }

end TracedSender

end MpVideo.Congestion
