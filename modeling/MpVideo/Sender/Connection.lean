import MpVideo.Sender.PathSender

/-!
# The connection of a path sender

The part of `pathsender.cc` behind the queue: the connection requests with their timer, the
pings, the round trip times, the padding, and the messages that come back. Simulated time is
an argument, in nanoseconds; the source reads it in milliseconds and stores 32 bits of it.

A call of the source that leaves the object is a `SenderCall`. The calls into the bandwidth
estimator and the pacer of the other library are left out where they return nothing; what
remains of the controller is whether it exists. The list of sent segments is left out, since
nothing is ever put into it.
-/

set_option autoImplicit false

namespace MpVideo.Sender

open Wire

/-- `CONN_TIMEOUT`. -/
def connTimeout : UInt32 := 500
/-- `SMOOTH_RATE_NUM`. -/
def smoothRateNum : UInt32 := 90
/-- `SMOOTH_RATE_DEN`. -/
def smoothRateDen : UInt32 := 100
/-- `MAX_PAD_SIZE`. -/
def maxPadSize : ℕ := 500

/-- The nanoseconds of a millisecond. -/
def millisecond : ℕ := 1000000

/-- `Simulator::Now().GetMilliSeconds()`, as stored in 32 bits. -/
def millis (now : ℕ) : UInt32 := UInt32.ofNat (now / millisecond)

/-- `PathState`. -/
inductive PathState where
  | ini | conning | conned | discon
  deriving DecidableEq

/-- What a path sender schedules for itself. -/
inductive TimerAction where
  | sendConnect | checkPing
  deriving DecidableEq

/-- An event of the simulator that has not run: its number, the time when it is due, and the
function it calls. -/
structure Timer where
  id : ℕ
  due : ℕ
  action : TimerAction
  deriving DecidableEq

/-- A call that leaves the path sender. -/
inductive SenderCall where
  /-- `SendToNetwork`. -/
  | sendToNetwork (data : List UInt8)
  /-- `NotifyPathUsable` of the registered sender interface. -/
  | notifyPathUsable (pid : UInt8)
  /-- `OnNetworkChanged` of the registered sender interface. -/
  | onNetworkChanged (pid : UInt8) (bitrate : UInt32) (fractionLoss : UInt8) (rtt : Int64)
  /-- `OnRttUpdate` of the bandwidth estimator. -/
  | onRttUpdate (average max : UInt32)
  deriving DecidableEq

/-- The datagram of a call. -/
def SenderCall.datagram : SenderCall → Option (List UInt8)
  | .sendToNetwork data => some data
  | _ => none

/-- The members of `PathSender`. -/
structure PathControl extends PathSender where
  /-- Whether `Bind` created the socket. -/
  socket : Bool := true
  state : PathState := .ini
  conC : UInt8 := 0
  rtt : UInt32 := 0
  sumRtt : UInt64 := 0
  maxRtt : UInt32 := 0
  rttNum : UInt64 := 0
  minRtt : UInt32 := 0
  rttVar : UInt32 := 5
  rttUpdateTs : UInt32 := 0
  pingResend : UInt32 := 0
  rate : UInt32 := 0
  sRate : UInt32 := 0
  baseSeq : UInt32 := 0
  /-- Whether `controller_` was created. -/
  controller : Bool := false
  /-- The events of this path that the simulator has not run. -/
  timers : List Timer := []
  /-- The number of the next event. -/
  nextTimer : ℕ := 0
  rxTimer : Option ℕ := none
  pingTimer : Option ℕ := none

namespace PathControl

/-! ## Events and messages -/

/-- `Simulator::Schedule`. -/
def schedule (due : ℕ) (action : TimerAction) (path : PathControl) : PathControl :=
  { path with
    timers := path.timers ++ [⟨path.nextTimer, due, action⟩]
    nextTimer := path.nextTimer + 1 }

/-- `EventId::IsExpired`. -/
def isExpired (id : Option ℕ) (path : PathControl) : Bool :=
  path.timers.all fun timer => some timer.id ≠ id

/-- `EventId::Cancel`. -/
def cancel (id : Option ℕ) (path : PathControl) : PathControl :=
  { path with timers := path.timers.filter fun timer => some timer.id ≠ id }

/-- `SendToNetwork`. -/
def sendToNetwork (data : List UInt8) (path : PathControl) : List SenderCall :=
  if path.socket then [.sendToNetwork data] else []

/-- Encode a message into the stream of the path and send the bytes in use. -/
def sendMsg (body : SimBody) (path : PathControl) : PathControl × List SenderCall :=
  let strm := simEncodeMsg path.strm ⟨path.pid, body.mid.toUInt8, path.uid⟩ body
  ({ path with strm }, path.sendToNetwork strm.data)

/-- What `SendConnect` does behind a request: the next one is scheduled. The counter of the
requests has eight bits. -/
def scheduleRequest (now : ℕ) (path : PathControl) : PathControl :=
  let conC := path.conC + 1
  let backoff := conC.toUInt32 * connTimeout
  { path.schedule (now + backoff.toNat * millisecond) .sendConnect with
    state := .conning
    conC
    rxTimer := some path.nextTimer }

/-- The first half of `SendConnect`: a path that is not connected sends a request. -/
def request (now : ℕ) (path : PathControl) : PathControl × List SenderCall :=
  if path.state = .ini ∨ path.state = .conning then
    let (path, calls) := path.sendMsg (.connect ⟨millis now, .empty, 0⟩)
    (path.scheduleRequest now, calls)
  else (path, [])

/-- `SendConnect`. -/
def sendConnect (now : ℕ) (path : PathControl) : PathControl × List SenderCall :=
  let (path, calls) := path.request now
  (if path.state = .conned then path.cancel path.rxTimer else path, calls)

/-- `SendDisconnect`. -/
def sendDisconnect (now : ℕ) : PathControl → PathControl × List SenderCall :=
  sendMsg (.disconnect ⟨millis now⟩)

/-- `SendPingMsg`. -/
def sendPingMsg (now : UInt32) (path : PathControl) : PathControl × List SenderCall :=
  let (path, calls) := path.sendMsg (.ping ⟨now.toUInt64.toInt64⟩)
  ({ path with rttUpdateTs := now, pingResend := path.pingResend + 1 }, calls)

/-- What `CheckPing` does behind a ping: the next check is scheduled after a round trip. -/
def schedulePing (now : ℕ) (path : PathControl) : PathControl :=
  { path.schedule (now + path.rtt.toNat * millisecond) .checkPing with
    pingTimer := some path.nextTimer }

/-- `CheckPing`. -/
def checkPing (now : ℕ) (path : PathControl) : PathControl × List SenderCall :=
  if path.isExpired path.pingTimer then
    let (path, calls) := path.sendPingMsg (millis now)
    (path.schedulePing now, calls)
  else (path, [])

/-! ## Round trip times -/

/-- `UpdateMinRtt`. -/
def updateMinRtt (rtt : UInt32) (path : PathControl) : PathControl :=
  if path.minRtt = 0 then { path with minRtt := rtt }
  else if rtt < path.minRtt then { path with minRtt := rtt }
  else path

/-- `SU_ABS`. -/
def suAbs (a b : UInt32) : UInt32 := if a > b then a - b else b - a

/-- The smoothed values of `UpdateRtt`, neither below ten milliseconds. -/
def smoothRtt (keepRtt now : UInt32) (path : PathControl) : PathControl :=
  let rttVar := (path.rttVar * 3 + suAbs path.rtt keepRtt) / 4
  let rtt := (7 * path.rtt + keepRtt) / 8
  { path with
    rttVar := if rttVar < 10 then 10 else rttVar
    rtt := if rtt < 10 then 10 else rtt
    rttUpdateTs := now
    pingResend := 0 }

/-- `OnRttUpdate`, when there is a bandwidth estimator. -/
def rttCalls (average max : UInt32) (path : PathControl) : List SenderCall :=
  if path.controller ∧ path.paceMode = .withCongestion then [.onRttUpdate average max] else []

/-- `UpdateRtt`. The average divides by the number of samples, which is undefined (`none`)
when that number wrapped to zero. -/
def updateRtt (time now : UInt32) (path : PathControl) :
    Option (PathControl × List SenderCall) :=
  let keepRtt := if time > 5 then time else 5
  let path := (path.updateMinRtt keepRtt).smoothRtt keepRtt now
  if path.rttNum = 0 then
    let path := { path with sumRtt := keepRtt.toUInt64, maxRtt := keepRtt, rttNum := 1 }
    some (path, path.rttCalls keepRtt keepRtt)
  else if path.rttNum + 1 = 0 then none
  else
    let rttNum := path.rttNum + 1
    let sumRtt := path.sumRtt + keepRtt.toUInt64
    let maxRtt := if keepRtt > path.maxRtt then keepRtt else path.maxRtt
    let path := { path with rttNum, sumRtt, maxRtt }
    some (path, path.rttCalls (sumRtt / rttNum).toUInt32 maxRtt)

/-! ## What comes back -/

/-- `ConfigureCongestion`, `ConfigureOracleCongestion` and `ConfigureNoCongestion`: the first
one does not report the rate. -/
def configure (path : PathControl) : PathControl × List SenderCall :=
  if path.controller then (path, [])
  else
    ({ path with controller := true },
      if path.paceMode = .withCongestion then []
      else [.onNetworkChanged path.pid path.rate 0 path.rtt.toUInt64.toInt64])

/-- The first half of the case `SIM_CONNECT_ACK` of `ProcessingMsg`: the round trip time is
that of the request. -/
def takeRtt (now : ℕ) (ack : SimConnectAck) (path : PathControl) : PathControl :=
  let rtt := millis now - ack.cid
  let path := { path with rtt }.updateMinRtt rtt
  { path with rttUpdateTs := millis now }

/-- The second half: the first acknowledgement configures the path, begins the pings, and
reports the path as usable. -/
def settle (now : ℕ) (path : PathControl) : PathControl × List SenderCall :=
  let (path, configured) := path.configure
  let (path, pings) := path.checkPing now
  ({ path with state := .conned }, configured ++ (pings ++ [.notifyPathUsable path.pid]))

/-- The case `SIM_CONNECT_ACK` of `ProcessingMsg`. -/
def onConnectAck (now : ℕ) (ack : SimConnectAck) (path : PathControl) :
    PathControl × List SenderCall :=
  let path := path.takeRtt now ack
  if path.state ≠ .conned then path.settle now else (path, [])

/-- `RecvSegAck`. No sent segment is found, and only the base moves. -/
def recvSegAck (ack : SimSegmentAck) (path : PathControl) : PathControl :=
  if ack.ackedPacketId > path.packetSeed ∨ ack.basePacketId > path.packetSeed then path
  else if path.baseSeq ≤ ack.basePacketId then { path with baseSeq := ack.basePacketId }
  else path

/-- The switch of `ProcessingMsg`. Feedback before the connection reads through the null
controller, which is undefined. -/
def processBody (now : ℕ) (path : PathControl) :
    SimBody → Option (PathControl × List SenderCall)
  | .connectAck ack => some (path.onConnectAck now ack)
  | .segAck ack => some (path.recvSegAck ack, [])
  | .feedback _ => if path.controller then some (path, []) else none
  | .ping ping => some (path.sendMsg (.pong ping))
  | .pong pong =>
      let rtt := millis now - pong.ts.toUInt64.toUInt32
      if rtt > 0 then path.updateRtt rtt (millis now) else some (path, [])
  | _ => some (path, [])

/-- The message ids for which `ProcessingMsg` decodes a body. -/
def handled : MsgId → Bool
  | .simConnectAck | .simSegAck | .simFeedback | .simPing | .simPong => true
  | _ => false

/-- `ProcessingMsg` behind the header: another path id is an error, else the body is decoded
and dispatched. -/
def processDecoded (now : ℕ) (header : SimHeader) (path : PathControl) :
    Option (PathControl × List SenderCall) :=
  if header.ver ≠ path.pid then some (path, [])
  else
    match MsgId.ofUInt8? header.mid with
    | none => some (path, [])
    | some mid =>
        if handled mid then
          let (body, strm) := simDecodeMsg path.strm header
          match body with
          | none => some ({ path with strm }, [])
          | some body => processBody now { path with strm } body
        else some (path, [])

/-- `ProcessingMsg` on the stream of the path; `none` is undefined behaviour. -/
def processingMsg (now : ℕ) (path : PathControl) : Option (PathControl × List SenderCall) :=
  if path.stop then some (path, [])
  else
    match simDecodeHeader path.strm with
    | none => none
    | some (none, strm) => some ({ path with strm }, [])
    | some (some header, strm) => processDecoded now header { path with strm }

/-- The path with the bytes of a packet in its stream. -/
def withPacket (packet : List UInt8) (path : PathControl) : PathControl :=
  { path with strm := { binStreamRewind true path.strm with data := packet } }

/-- The first half of `RecvPacket`: the bytes are copied to the start of the buffer and `used`
is set. The copy of more bytes than are allocated is undefined. -/
def copyPacket (packet : List UInt8) (path : PathControl) : Option PathControl :=
  if packet.length ≤ path.strm.size then some (path.withPacket packet) else none

/-- `RecvPacket` of a packet with the payload type `razor`. -/
def recvPacket (now : ℕ) (packet : List UInt8) (path : PathControl) :
    Option (PathControl × List SenderCall) :=
  (path.copyPacket packet).bind (processingMsg now)

/-- A packet that fits is processed. -/
theorem recvPacket_eq {packet : List UInt8} {path : PathControl} (now : ℕ)
    (fits : packet.length ≤ path.strm.size) :
    path.recvPacket now packet = (path.withPacket packet).processingMsg now := by
  rw [recvPacket, copyPacket, if_pos fits, Option.bind_some]

/-- A packet that was processed fitted. -/
theorem fits_of_recvPacket {now : ℕ} {packet : List UInt8} {path : PathControl}
    {result : PathControl × List SenderCall}
    (received : path.recvPacket now packet = some result) : packet.length ≤ path.strm.size := by
  rw [recvPacket, copyPacket] at received
  split_ifs at received with fits
  · exact fits
  · cases received

/-- `Stop`. Without a controller it reads through the null pointer, which is undefined. -/
def stopControl (path : PathControl) : Option PathControl :=
  if path.stop then some path
  else if path.controller then
    some ({ path with toPathSender := path.toPathSender.stopPath }.cancel path.pingTimer)
  else none

/-! ## Rates and padding -/

/-- `OnNetworkChanged`. -/
def onNetworkChanged (bitrate : UInt32) (fractionLoss : UInt8) (rtt : Int64)
    (path : PathControl) : PathControl × List SenderCall :=
  let sRate :=
    if path.sRate = 0 then bitrate
    else (path.sRate * smoothRateNum + (smoothRateDen - smoothRateNum) * bitrate) / smoothRateDen
  ({ path with sRate, rate := bitrate }, [.onNetworkChanged path.pid bitrate fractionLoss rtt])

/-- `sizeof(sim_header_t) + sizeof(sim_pad_t)`, as stored in eight bits. -/
def padHeaderLen : UInt8 := UInt8.ofNat (8 + (8 + paddingDataSize))

/-- The padding of `SendPadding`: as many bytes as asked for of an array on the stack that was
not written. -/
def padding (stack : ℕ → UInt8) (payloadLen : ℕ) (ts : UInt32) (path : PathControl) : SimPad where
  sendTs := ts
  transportSeq := path.transSeq
  data := .clip paddingDataSize ((List.range payloadLen).map stack)

/-- `SendPadding`, with the length it returns. -/
def sendPadding (stack : ℕ → UInt8) (payloadLen : ℕ) (ts : UInt32) (path : PathControl) :
    PathControl × List SenderCall × ℕ :=
  let pad := path.padding stack payloadLen ts
  let (path, calls) := { path with transSeq := path.transSeq + 1 }.sendMsg (.pad pad)
  (path, calls, padHeaderLen.toNat + payloadLen)

/-- The loop of `TimeToSendPadding`: what remains is less by what `SendPadding` returns. -/
def paddingLoop (stack : ℕ → UInt8) (ts : UInt32) :
    ℕ → ℕ → PathControl → PathControl × List SenderCall
  | 0, _, path => (path, [])
  | fuel + 1, remain, path =>
      if remain = 0 then (path, [])
      else if maxPadSize ≤ remain then
        let (path, calls, sent) := path.sendPadding stack maxPadSize ts
        let (path, more) := paddingLoop stack ts fuel (remain - sent) path
        (path, calls ++ more)
      else if 100 ≤ remain then
        let (path, calls, _) := path.sendPadding stack remain ts
        (path, calls)
      else (path, [])

/-- `TimeToSendPadding`. The number of bytes is stored in an `int`, and a negative one is no
reason to pad. -/
def timeToSendPadding (stack : ℕ → UInt8) (now : ℕ) (bytes : UInt64) (path : PathControl) :
    PathControl × List SenderCall :=
  if path.paceMode = .noCongestion then (path, [])
  else if bytes < 100 then (path, [])
  else
    let remain := bytes.toUInt32.toInt32.toInt.toNat
    path.paddingLoop stack (millis now) remain remain

/-! ## What happens to a path sender -/

/-- The simulator runs an event that is due. -/
def timerExpired (now : ℕ) (id : ℕ) (path : PathControl) :
    Option (PathControl × List SenderCall) :=
  match path.timers.find? (·.id = id) with
  | none => none
  | some timer =>
      if timer.due = now then
        let path := path.cancel (some id)
        match timer.action with
        | .sendConnect => some (path.sendConnect now)
        | .checkPing => some (path.checkPing now)
      else none

/-- The queue did something, and the datagrams go to the network. -/
def queued (path : PathControl) (result : PathSender × List (List UInt8)) :
    PathControl × List SenderCall :=
  ({ path with toPathSender := result.1 }, result.2.flatMap path.sendToNetwork)

end PathControl

/-- What happens at a path sender. -/
inductive ControlEvent where
  | connect
  | timerExpired (id : ℕ)
  | put (seg : SimSegment)
  | timeToSendPacket (seq : UInt16) (retransmission : Bool) (firstTs : Int64)
  | pacingSendSegment (firstTs : Int64)
  | timeToSendPadding (stack : ℕ → UInt8) (bytes : UInt64)
  | onNetworkChanged (bitrate : UInt32) (fractionLoss : UInt8) (rtt : Int64)
  | disconnect
  | stop

namespace PathControl

/-- What the path does on an event; `none` is undefined behaviour. What handles segments reads
through the controller. The multipath sender cuts only segments whose layout can be read back. -/
def handle (now : ℕ) (path : PathControl) : ControlEvent → Option (PathControl × List SenderCall)
  | .connect => some (path.sendConnect now)
  | .timerExpired id => path.timerExpired now id
  | .put seg =>
      if path.controller ∧ (seg.total ≤ 255 → seg.index ≤ 255) then
        some (path.queued ((path.toPathSender.put seg).1, []))
      else none
  | .timeToSendPacket seq retransmission firstTs =>
      if path.controller then
        some (path.queued (path.toPathSender.timeToSendPacket seq retransmission (millis now)
          firstTs))
      else none
  | .pacingSendSegment firstTs =>
      some (path.queued (path.toPathSender.pacingSendSegment (millis now) firstTs))
  | .timeToSendPadding stack bytes =>
      if path.controller then some (path.timeToSendPadding stack now bytes) else none
  | .onNetworkChanged bitrate fractionLoss rtt =>
      some (path.onNetworkChanged bitrate fractionLoss rtt)
  | .disconnect => some (path.sendDisconnect now)
  | .stop => path.stopControl.map (·, [])

/-! ## Messages -/

/-- Messages that are not answered. -/
def Plain : SimBody → Prop
  | .seg _ | .pad _ | .disconnect _ => True
  | _ => False

/-- What a call for a message is. -/
theorem mem_sendMsg {body : SimBody} (legal : body.Legal) {path : PathControl} {call : SenderCall}
    (member : call ∈ (path.sendMsg body).2) :
    ∃ bytes, call = .sendToNetwork bytes ∧ Message path.pid body bytes := by
  simp only [sendMsg, sendToNetwork, simEncodeMsg_data] at member
  split_ifs at member
  · exact ⟨_, List.mem_singleton.mp member, legal, _, rfl, rfl, rfl⟩
  · exact absurd member List.not_mem_nil

/-- A running path processes a message of its own that fits, as it is decoded. -/
theorem recvPacket_message {path : PathControl} (running : path.stop = false) {now : ℕ}
    {body : SimBody} {bytes : List UInt8} (message : Message path.pid body bytes)
    (isHandled : handled body.mid = true) (fits : bytes.length ≤ path.strm.size) :
    ∃ strm, path.recvPacket now bytes = processBody now { path with strm } body.received := by
  obtain ⟨legal, header, ver, mid, rfl⟩ := message
  have bytes : (path.withPacket (messageBytes header body)).strm.data =
      messageBytes header body := rfl
  have still : ¬ (path.withPacket (messageBytes header body)).stop = true :=
    Bool.not_eq_true _ ▸ running
  have own : ¬ header.ver ≠ path.pid := not_not.mpr ver
  refine ⟨afterBody header body (path.withPacket (messageBytes header body)).strm, ?_⟩
  rw [recvPacket_eq now fits, processingMsg, if_neg still]
  simp only [simDecodeHeader_message bytes rfl, processDecoded, mid, MsgId.ofUInt8?_toUInt8,
    isHandled, if_true, simDecodeMsg_message bytes rfl mid legal]
  exact if_neg own

/-- Anything else that fits changes the stream only. -/
theorem recvPacket_other {path : PathControl} {now : ℕ} {pid : UInt8} {body : SimBody}
    {bytes : List UInt8} (message : Message pid body bytes)
    (other : path.stop = true ∨ pid ≠ path.pid ∨ handled body.mid = false)
    (fits : bytes.length ≤ path.strm.size) :
    ∃ strm, path.recvPacket now bytes = some ({ path with strm }, []) := by
  obtain ⟨legal, header, rfl, mid, rfl⟩ := message
  have bytes : (path.withPacket (messageBytes header body)).strm.data =
      messageBytes header body := rfl
  by_cases stopped : path.stop = true
  · have still : (path.withPacket (messageBytes header body)).stop = true := stopped
    exact ⟨_, by rw [recvPacket_eq now fits, processingMsg, if_pos still]; rfl⟩
  · have still : ¬ (path.withPacket (messageBytes header body)).stop = true := stopped
    refine ⟨afterHeader header (path.withPacket (messageBytes header body)).strm, ?_⟩
    rw [recvPacket_eq now fits, processingMsg, if_neg still]
    simp only [simDecodeHeader_message bytes rfl, processDecoded]
    split_ifs with differs
    · rfl
    · have unhandled : handled body.mid = false :=
        (other.resolve_left stopped).resolve_left fun other => differs other
      simp only [mid, MsgId.ofUInt8?_toUInt8, unhandled, Bool.false_eq_true, if_false]
      rfl

/-! ## What a path does without its connection -/

/-- Segments whose layout can be read back. -/
def LegalSegment (seg : SimSegment) : Prop := (SimBody.seg seg).Legal

theorem unnumbered_legalSegment : PathSender.Unnumbered LegalSegment where
  numbered _ _ _ legal := legal
  sent _ _ legal := legal

/-- The queue and the rates changed, and messages were sent that are not answered. -/
structure Quiet (path : PathControl) (result : PathControl × List SenderCall) : Prop where
  kept : ∃ queue rate sRate, result.1 = { path with toPathSender := queue, rate, sRate }
  pid : result.1.pid = path.pid
  stop : result.1.stop = path.stop
  holds : result.1.Holds LegalSegment
  calls : ∀ call ∈ result.2,
    (∃ body bytes, Plain body ∧ Message path.pid body bytes ∧ call = .sendToNetwork bytes) ∨
      ∃ bitrate fractionLoss rtt, call = .onNetworkChanged path.pid bitrate fractionLoss rtt

theorem Quiet.refl {path : PathControl} (holds : path.Holds LegalSegment) :
    Quiet path (path, []) :=
  ⟨⟨_, _, _, rfl⟩, rfl, rfl, holds, fun _ member => absurd member List.not_mem_nil⟩

theorem Quiet.trans {path middle last : PathControl} {calls more : List SenderCall}
    (first : Quiet path (middle, calls)) (second : Quiet middle (last, more)) :
    Quiet path (last, calls ++ more) where
  kept := by
    obtain ⟨queue, rate, sRate, onwards⟩ := second.kept
    obtain ⟨queue', rate', sRate', eq⟩ := first.kept
    simp only at eq onwards
    exact ⟨queue, rate, sRate, by rw [onwards, eq]⟩
  pid := second.pid.trans first.pid
  stop := second.stop.trans first.stop
  holds := second.holds
  calls call member := by
    have pid : middle.pid = path.pid := first.pid
    rcases List.mem_append.mp member with early | late
    · exact first.calls call early
    · rw [← pid]
      exact second.calls call late

theorem quiet_sendMsg {path : PathControl} (holds : path.Holds LegalSegment) {body : SimBody}
    (plain : Plain body) (legal : body.Legal) : Quiet path (path.sendMsg body) := by
  refine ⟨⟨_, _, _, rfl⟩, rfl, rfl, holds, fun call member => ?_⟩
  obtain ⟨bytes, eq, message⟩ := mem_sendMsg legal member
  exact .inl ⟨body, bytes, plain, message, eq⟩

/-- What the queue sends are segments. -/
theorem quiet_queued {path : PathControl} {result : PathSender × List (List UInt8)}
    (pid : result.1.pid = path.pid) (stop : result.1.stop = path.stop)
    (holds : result.1.Holds LegalSegment)
    (datagrams : ∀ bytes ∈ result.2, PathSender.Datagram LegalSegment path.pid bytes) :
    Quiet path (path.queued result) := by
  refine ⟨⟨_, _, _, rfl⟩, pid, stop, holds, fun call member => ?_⟩
  obtain ⟨bytes, isSent, member⟩ := List.mem_flatMap.mp member
  obtain ⟨uid, seg, legal, rfl⟩ := datagrams bytes isSent
  rw [sendToNetwork] at member
  split_ifs at member
  · exact .inl ⟨.seg seg, _, trivial, ⟨legal, _, rfl, rfl, rfl⟩, List.mem_singleton.mp member⟩
  · exact absurd member List.not_mem_nil

theorem put_stop (seg : SimSegment) (path : PathSender) : (path.put seg).1.stop = path.stop := by
  cases running : path.stop with
  | true => rw [PathSender.put, if_pos running, running]
  | false =>
      obtain ⟨pacing, pacingRunning, eq⟩ := PathSender.put_eq running seg
      rw [eq]
      exact running

theorem timeToSendPacket_stop (seq : UInt16) (retransmission : Bool) (now : UInt32)
    (firstTs : Int64) (path : PathSender) :
    (path.timeToSendPacket seq retransmission now firstTs).1.stop = path.stop := by
  rw [PathSender.timeToSendPacket, PathSender.getSegment]
  split_ifs
  · rfl
  · rfl
  · cases path.buf.find? seq <;> rfl

theorem pacingSendSegment_stop (now : UInt32) (firstTs : Int64) (path : PathSender) :
    (path.pacingSendSegment now firstTs).1.stop = path.stop := by
  rw [PathSender.pacingSendSegment, PathSender.getFirstSegment]
  split_ifs
  · cases path.buf.entries <;> rfl
  · rfl

theorem quiet_sendPadding {path : PathControl} (holds : path.Holds LegalSegment)
    (stack : ℕ → UInt8) (payloadLen : ℕ) (ts : UInt32) :
    Quiet path ((path.sendPadding stack payloadLen ts).1,
      (path.sendPadding stack payloadLen ts).2.1) := by
  have numbered : Quiet path ({ path with transSeq := path.transSeq + 1 }, []) :=
    ⟨⟨_, _, _, rfl⟩, rfl, rfl, holds, fun _ member => absurd member List.not_mem_nil⟩
  have sent := quiet_sendMsg numbered.holds
    (show Plain (.pad (path.padding stack payloadLen ts)) from trivial) trivial
  exact numbered.trans sent

theorem quiet_paddingLoop {path : PathControl} (holds : path.Holds LegalSegment)
    (stack : ℕ → UInt8) (ts : UInt32) (fuel remain : ℕ) :
    Quiet path (path.paddingLoop stack ts fuel remain) := by
  induction fuel generalizing path remain with
  | zero => exact .refl holds
  | succ fuel ih =>
      rw [paddingLoop]
      split_ifs
      · exact .refl holds
      · have sent := quiet_sendPadding holds stack maxPadSize ts
        exact sent.trans (ih sent.holds _)
      · exact quiet_sendPadding holds stack remain ts
      · exact .refl holds

/-! ## What the connection leaves alone -/

/-- The path has the same id, queue and numbers, and was not stopped in between. -/
structure SameQueue (path next : PathControl) : Prop where
  pid : next.pid = path.pid
  buf : next.buf = path.buf
  stop : next.stop = path.stop
  packetSeed : next.packetSeed = path.packetSeed
  baseSeq : next.baseSeq = path.baseSeq

theorem SameQueue.trans {path middle last : PathControl} (first : SameQueue path middle)
    (second : SameQueue middle last) : SameQueue path last :=
  ⟨second.pid.trans first.pid, second.buf.trans first.buf, second.stop.trans first.stop,
    second.packetSeed.trans first.packetSeed, second.baseSeq.trans first.baseSeq⟩

theorem SameQueue.holds {path next : PathControl} (same : SameQueue path next)
    (holds : path.Holds LegalSegment) : next.Holds LegalSegment := by
  intro entry member
  rw [same.buf] at member
  exact holds entry member

variable {path next : PathControl} {now : ℕ} {calls : List SenderCall} {bytes : List UInt8}

theorem sameQueue_sendMsg (body : SimBody) (path : PathControl) :
    SameQueue path (path.sendMsg body).1 := ⟨rfl, rfl, rfl, rfl, rfl⟩

@[simp] theorem sendMsg_state (body : SimBody) (path : PathControl) :
    (path.sendMsg body).1.state = path.state := rfl
@[simp] theorem sendMsg_rtt (body : SimBody) (path : PathControl) :
    (path.sendMsg body).1.rtt = path.rtt := rfl
@[simp] theorem sendMsg_minRtt (body : SimBody) (path : PathControl) :
    (path.sendMsg body).1.minRtt = path.minRtt := rfl
@[simp] theorem sendMsg_timers (body : SimBody) (path : PathControl) :
    (path.sendMsg body).1.timers = path.timers := rfl
@[simp] theorem sendMsg_nextTimer (body : SimBody) (path : PathControl) :
    (path.sendMsg body).1.nextTimer = path.nextTimer := rfl
@[simp] theorem sendMsg_pingTimer (body : SimBody) (path : PathControl) :
    (path.sendMsg body).1.pingTimer = path.pingTimer := rfl
@[simp] theorem sendMsg_stop (body : SimBody) (path : PathControl) :
    (path.sendMsg body).1.stop = path.stop := rfl

@[simp] theorem sendPingMsg_state (now : UInt32) (path : PathControl) :
    (path.sendPingMsg now).1.state = path.state := rfl
@[simp] theorem sendPingMsg_rtt (now : UInt32) (path : PathControl) :
    (path.sendPingMsg now).1.rtt = path.rtt := rfl
@[simp] theorem sendPingMsg_minRtt (now : UInt32) (path : PathControl) :
    (path.sendPingMsg now).1.minRtt = path.minRtt := rfl
@[simp] theorem sendPingMsg_timers (now : UInt32) (path : PathControl) :
    (path.sendPingMsg now).1.timers = path.timers := rfl
@[simp] theorem sendPingMsg_nextTimer (now : UInt32) (path : PathControl) :
    (path.sendPingMsg now).1.nextTimer = path.nextTimer := rfl

@[simp] theorem scheduleRequest_state (now : ℕ) (path : PathControl) :
    (path.scheduleRequest now).state = .conning := rfl
@[simp] theorem scheduleRequest_rtt (now : ℕ) (path : PathControl) :
    (path.scheduleRequest now).rtt = path.rtt := rfl
@[simp] theorem scheduleRequest_minRtt (now : ℕ) (path : PathControl) :
    (path.scheduleRequest now).minRtt = path.minRtt := rfl
@[simp] theorem scheduleRequest_pingTimer (now : ℕ) (path : PathControl) :
    (path.scheduleRequest now).pingTimer = path.pingTimer := rfl

@[simp] theorem schedulePing_state (now : ℕ) (path : PathControl) :
    (path.schedulePing now).state = path.state := rfl
@[simp] theorem schedulePing_rtt (now : ℕ) (path : PathControl) :
    (path.schedulePing now).rtt = path.rtt := rfl
@[simp] theorem schedulePing_minRtt (now : ℕ) (path : PathControl) :
    (path.schedulePing now).minRtt = path.minRtt := rfl

/-- A path that is not connected sends a request, and schedules the next one. -/
theorem request_eq (now : ℕ) (path : PathControl) : path.request now =
    if path.state = .ini ∨ path.state = .conning then
      ((path.sendMsg (.connect ⟨millis now, .empty, 0⟩)).1.scheduleRequest now,
        (path.sendMsg (.connect ⟨millis now, .empty, 0⟩)).2)
    else (path, []) := rfl

/-- A path whose check is not scheduled sends a ping, and schedules the next check. -/
theorem checkPing_eq (now : ℕ) (path : PathControl) : path.checkPing now =
    if path.isExpired path.pingTimer then
      ((path.sendPingMsg (millis now)).1.schedulePing now, (path.sendPingMsg (millis now)).2)
    else (path, []) := rfl

/-- `SendConnect` asks for the connection, or cancels its timer once the path is connected. -/
theorem sendConnect_cases (now : ℕ) (path : PathControl) :
    ((path.state = .ini ∨ path.state = .conning) ∧ path.sendConnect now =
        ((path.sendMsg (.connect ⟨millis now, .empty, 0⟩)).1.scheduleRequest now,
          (path.sendMsg (.connect ⟨millis now, .empty, 0⟩)).2)) ∨
      (path.state = .conned ∧ path.sendConnect now = (path.cancel path.rxTimer, [])) ∨
      (path.state = .discon ∧ path.sendConnect now = (path, [])) := by
  have eq : path.sendConnect now =
      (if (path.request now).1.state = .conned then
          (path.request now).1.cancel (path.request now).1.rxTimer
        else (path.request now).1, (path.request now).2) := rfl
  have asks (open_ : path.state = .ini ∨ path.state = .conning) : path.sendConnect now =
      ((path.sendMsg (.connect ⟨millis now, .empty, 0⟩)).1.scheduleRequest now,
        (path.sendMsg (.connect ⟨millis now, .empty, 0⟩)).2) := by
    have requested := request_eq now path
    rw [if_pos open_] at requested
    have conning (path : PathControl) : (path.scheduleRequest now).state ≠ .conned :=
      fun conned => nomatch conned
    rw [eq, requested]
    dsimp only
    rw [if_neg (conning _)]
  have other (closed : ¬ (path.state = .ini ∨ path.state = .conning)) :
      path.sendConnect now =
        (if path.state = .conned then path.cancel path.rxTimer else path, []) := by
    have requested := request_eq now path
    rw [if_neg closed] at requested
    rw [eq, requested]
  cases state : path.state with
  | ini => exact .inl ⟨.inl rfl, asks (.inl state)⟩
  | conning => exact .inl ⟨.inr rfl, asks (.inr state)⟩
  | conned =>
      rw [other (by simp [state]), if_pos state]
      exact .inr (.inl ⟨rfl, rfl⟩)
  | discon =>
      rw [other (by simp [state]), if_neg (by simp [state])]
      exact .inr (.inr ⟨rfl, rfl⟩)

theorem sameQueue_sendConnect (now : ℕ) (path : PathControl) :
    SameQueue path (path.sendConnect now).1 := by
  have scheduled (path : PathControl) : SameQueue path (path.scheduleRequest now) :=
    ⟨rfl, rfl, rfl, rfl, rfl⟩
  rcases sendConnect_cases now path with ⟨-, eq⟩ | ⟨-, eq⟩ | ⟨-, eq⟩ <;> rw [eq]
  · exact (sameQueue_sendMsg _ path).trans (scheduled _)
  · exact ⟨rfl, rfl, rfl, rfl, rfl⟩
  · exact ⟨rfl, rfl, rfl, rfl, rfl⟩

theorem sameQueue_checkPing (now : ℕ) (path : PathControl) :
    SameQueue path (path.checkPing now).1 := by
  have scheduled (path : PathControl) : SameQueue path (path.schedulePing now) :=
    ⟨rfl, rfl, rfl, rfl, rfl⟩
  have pinged : SameQueue path (path.sendPingMsg (millis now)).1 := ⟨rfl, rfl, rfl, rfl, rfl⟩
  rw [checkPing_eq]
  split_ifs
  · exact pinged.trans (scheduled _)
  · exact ⟨rfl, rfl, rfl, rfl, rfl⟩

theorem sameQueue_updateMinRtt (rtt : UInt32) (path : PathControl) :
    SameQueue path (path.updateMinRtt rtt) := by
  rw [updateMinRtt]
  split_ifs <;> exact ⟨rfl, rfl, rfl, rfl, rfl⟩

theorem sameQueue_configure (path : PathControl) : SameQueue path path.configure.1 := by
  rw [configure]
  split_ifs <;> exact ⟨rfl, rfl, rfl, rfl, rfl⟩

theorem sameQueue_takeRtt (now : ℕ) (ack : SimConnectAck) (path : PathControl) :
    SameQueue path (path.takeRtt now ack) := by
  obtain ⟨pid, buf, stop, packetSeed, baseSeq⟩ := sameQueue_updateMinRtt (millis now - ack.cid)
    { path with rtt := millis now - ack.cid }
  exact ⟨pid, buf, stop, packetSeed, baseSeq⟩

theorem sameQueue_settle (now : ℕ) (path : PathControl) :
    SameQueue path (path.settle now).1 := by
  obtain ⟨pid, buf, stop, packetSeed, baseSeq⟩ :=
    (sameQueue_configure path).trans (sameQueue_checkPing now _)
  exact ⟨pid, buf, stop, packetSeed, baseSeq⟩

theorem sameQueue_onConnectAck (now : ℕ) (ack : SimConnectAck) (path : PathControl) :
    SameQueue path (path.onConnectAck now ack).1 := by
  have measured := sameQueue_takeRtt now ack path
  simp only [onConnectAck]
  split_ifs
  · exact measured.trans (sameQueue_settle now _)
  · exact measured

/-- An acknowledgement changes nothing but the base. -/
theorem recvSegAck_eq (ack : SimSegmentAck) (path : PathControl) :
    ∃ baseSeq, path.recvSegAck ack = { path with baseSeq } := by
  rw [recvSegAck]
  split_ifs <;> exact ⟨_, rfl⟩

theorem sameQueue_updateRtt {time stored : UInt32}
    (updated : path.updateRtt time stored = some (next, calls)) : SameQueue path next := by
  have measured (keepRtt : UInt32) :
      SameQueue path ((path.updateMinRtt keepRtt).smoothRtt keepRtt stored) :=
    (sameQueue_updateMinRtt keepRtt path).trans ⟨rfl, rfl, rfl, rfl, rfl⟩
  simp only [updateRtt] at updated
  split_ifs at updated <;> obtain ⟨rfl, -⟩ := Prod.mk.inj (Option.some.inj updated) <;>
    exact (measured _).trans ⟨rfl, rfl, rfl, rfl, rfl⟩

/-! ## What the connection sends -/

theorem mem_sendConnect (member : SenderCall.sendToNetwork bytes ∈ (path.sendConnect now).2) :
    Message path.pid (.connect ⟨millis now, .empty, 0⟩) bytes := by
  rcases sendConnect_cases now path with ⟨-, eq⟩ | ⟨-, eq⟩ | ⟨-, eq⟩ <;> rw [eq] at member
  · dsimp only at member
    obtain ⟨data, called, message⟩ :=
      mem_sendMsg (show SimBody.Legal (.connect ⟨millis now, .empty, 0⟩) from trivial) member
    obtain rfl := SenderCall.sendToNetwork.inj called
    exact message
  · exact absurd member List.not_mem_nil
  · exact absurd member List.not_mem_nil

theorem mem_checkPing (member : SenderCall.sendToNetwork bytes ∈ (path.checkPing now).2) :
    Message path.pid (.ping ⟨(millis now).toUInt64.toInt64⟩) bytes := by
  rw [checkPing_eq] at member
  split_ifs at member
  · have pinged : SenderCall.sendToNetwork bytes ∈
        (path.sendMsg (.ping ⟨(millis now).toUInt64.toInt64⟩)).2 := member
    obtain ⟨data, eq, message⟩ := mem_sendMsg
      (show SimBody.Legal (.ping ⟨(millis now).toUInt64.toInt64⟩) from trivial) pinged
    obtain rfl := SenderCall.sendToNetwork.inj eq
    exact message
  · exact absurd member List.not_mem_nil

theorem mem_onConnectAck {ack : SimConnectAck}
    (member : SenderCall.sendToNetwork bytes ∈ (path.onConnectAck now ack).2) :
    Message path.pid (.ping ⟨(millis now).toUInt64.toInt64⟩) bytes := by
  have measured := sameQueue_takeRtt now ack path
  simp only [onConnectAck] at member
  generalize path.takeRtt now ack = started at measured member
  have pid : started.configure.1.pid = path.pid :=
    (sameQueue_configure started).pid.trans measured.pid
  split_ifs at member
  · simp only [settle, List.mem_append, List.mem_singleton] at member
    rcases member with configured | ping | notified
    · rw [configure] at configured
      split_ifs at configured <;> simp at configured
    · exact pid ▸ mem_checkPing ping
    · exact nomatch notified
  · exact absurd member List.not_mem_nil

theorem not_mem_updateRtt {time stored : UInt32}
    (updated : path.updateRtt time stored = some (next, calls)) :
    SenderCall.sendToNetwork bytes ∉ calls := by
  have silent (average max : UInt32) (path : PathControl) :
      SenderCall.sendToNetwork bytes ∉ path.rttCalls average max := by
    rw [rttCalls]
    split_ifs <;> simp
  simp only [updateRtt] at updated
  split_ifs at updated <;> obtain ⟨-, rfl⟩ := Prod.mk.inj (Option.some.inj updated) <;>
    exact silent _ _ _

/-! ## What a path can do -/

/-- What happens at a path: it asks for the connection, checks its pings, stops, or does
something without its connection. -/
theorem handle_cases {now : ℕ} {path next : PathControl} {event : ControlEvent}
    {calls : List SenderCall} (holds : path.Holds LegalSegment)
    (handled : path.handle now event = some (next, calls)) :
    Quiet path (next, calls) ∨
      (event = .connect ∧ (next, calls) = path.sendConnect now) ∨
      (∃ timer ∈ path.timers, event = .timerExpired timer.id ∧ timer.due = now ∧
        (timer.action = .sendConnect ∧
            (next, calls) = (path.cancel (some timer.id)).sendConnect now ∨
          timer.action = .checkPing ∧
            (next, calls) = (path.cancel (some timer.id)).checkPing now)) ∨
      (event = .stop ∧ path.stop = false ∧ path.controller = true ∧ calls = [] ∧
        next = { path with toPathSender := path.toPathSender.stopPath }.cancel path.pingTimer) := by
  cases event with
  | connect => exact .inr (.inl ⟨rfl, (Option.some.inj handled).symm⟩)
  | timerExpired id =>
      rw [handle, timerExpired] at handled
      cases found : path.timers.find? (·.id = id) with
      | none =>
          rw [found] at handled
          cases handled
      | some timer =>
          have member := List.mem_of_find?_eq_some found
          obtain rfl : timer.id = id := by simpa using List.find?_some found
          simp only [found] at handled
          split_ifs at handled with due
          cases action : timer.action with
          | sendConnect =>
              simp only [action] at handled
              exact .inr (.inr (.inl ⟨timer, member, rfl, due,
                .inl ⟨action, (Option.some.inj handled).symm⟩⟩))
          | checkPing =>
              simp only [action] at handled
              exact .inr (.inr (.inl ⟨timer, member, rfl, due,
                .inr ⟨action, (Option.some.inj handled).symm⟩⟩))
  | put seg =>
      rw [handle] at handled
      split_ifs at handled with good
      have eq := Option.some.inj handled
      exact .inl (eq ▸ quiet_queued (PathSender.put_pid seg _) (put_stop seg _)
        (holds.put unnumbered_legalSegment good.2)
        (fun _ member => absurd member List.not_mem_nil))
  | timeToSendPacket seq retransmission firstTs =>
      rw [handle] at handled
      split_ifs at handled
      have eq := Option.some.inj handled
      obtain ⟨kept, pid, datagrams⟩ := PathSender.timeToSendPacket_spec holds
        unnumbered_legalSegment seq retransmission (millis now) firstTs
      exact .inl (eq ▸ quiet_queued pid (timeToSendPacket_stop ..) kept datagrams)
  | pacingSendSegment firstTs =>
      have eq := Option.some.inj handled
      obtain ⟨kept, pid, datagrams⟩ := PathSender.pacingSendSegment_spec holds
        unnumbered_legalSegment (millis now) firstTs
      exact .inl (eq ▸ quiet_queued pid (pacingSendSegment_stop ..) kept datagrams)
  | timeToSendPadding stack bytes =>
      rw [handle] at handled
      split_ifs at handled
      obtain eq := Option.some.inj handled
      rw [timeToSendPadding] at eq
      split_ifs at eq
      · exact .inl (eq ▸ .refl holds)
      · exact .inl (eq ▸ .refl holds)
      · exact .inl (eq ▸ quiet_paddingLoop holds ..)
  | onNetworkChanged bitrate fractionLoss rtt =>
      obtain ⟨rfl, rfl⟩ := Prod.mk.inj (Option.some.inj handled)
      exact .inl ⟨⟨_, _, _, rfl⟩, rfl, rfl, holds,
        fun call member => .inr ⟨bitrate, fractionLoss, rtt, List.mem_singleton.mp member⟩⟩
  | disconnect =>
      have eq := Option.some.inj handled
      exact .inl (eq ▸ quiet_sendMsg holds (show Plain (.disconnect _) from trivial) trivial)
  | stop =>
      obtain ⟨stopped, defined, result⟩ := Option.map_eq_some_iff.mp handled
      obtain ⟨rfl, rfl⟩ := Prod.mk.inj result
      rw [stopControl] at defined
      split_ifs at defined with already controlled
      · exact .inl (Option.some.inj defined ▸ .refl holds)
      · exact .inr (.inr (.inr ⟨rfl, Bool.not_eq_true _ ▸ already, controlled, rfl,
          (Option.some.inj defined).symm⟩))

/-- What an arriving message comes to: a running path takes the acknowledgement of its
connection, answers a ping, takes a round trip time from a pong, or moves its base; all else
changes the stream only. -/
theorem recvPacket_cases {now : ℕ} {path next : PathControl} {ver : UInt8} {body : SimBody}
    {bytes : List UInt8} {calls : List SenderCall} (message : Message ver body bytes)
    (arrived : path.recvPacket now bytes = some (next, calls)) :
    ∃ strm,
      (next = { path with strm } ∧ calls = []) ∨
      (path.stop = false ∧ ver = path.pid ∧
        ((∃ ack, body = .connectAck ack ∧ (next, calls) = { path with strm }.onConnectAck now ack) ∨
          (∃ ack, body = .segAck ack ∧ next = { path with strm }.recvSegAck ack ∧ calls = []) ∨
          (∃ ping, body = .ping ping ∧ (next, calls) = { path with strm }.sendMsg (.pong ping)) ∨
          (∃ pong, body = .pong pong ∧ 0 < millis now - pong.ts.toUInt64.toUInt32 ∧
            { path with strm }.updateRtt (millis now - pong.ts.toUInt64.toUInt32) (millis now) =
              some (next, calls)))) := by
  have fits := fits_of_recvPacket arrived
  by_cases other : path.stop = true ∨ ver ≠ path.pid ∨ handled body.mid = false
  · obtain ⟨strm, eq⟩ := recvPacket_other message other fits
    rw [eq] at arrived
    obtain ⟨rfl, rfl⟩ := Prod.mk.inj (Option.some.inj arrived)
    exact ⟨strm, .inl ⟨rfl, rfl⟩⟩
  · obtain ⟨running, own, isHandled⟩ : path.stop = false ∧ ver = path.pid ∧
        handled body.mid = true := by
      simpa only [not_or, Bool.not_eq_true, ne_eq, not_not, Bool.not_eq_false] using other
    obtain ⟨strm, eq⟩ := recvPacket_message running (own ▸ message) isHandled fits
    rw [eq] at arrived
    refine ⟨strm, ?_⟩
    cases body with
    | connectAck ack =>
        exact .inr ⟨running, own, .inl ⟨ack, rfl, (Option.some.inj arrived).symm⟩⟩
    | segAck ack =>
        obtain ⟨rfl, rfl⟩ := Prod.mk.inj (Option.some.inj arrived)
        exact .inr ⟨running, own, .inr (.inl ⟨ack, rfl, rfl, rfl⟩)⟩
    | ping ping =>
        exact .inr ⟨running, own, .inr (.inr (.inl ⟨ping, rfl, (Option.some.inj arrived).symm⟩))⟩
    | pong pong =>
        simp only [SimBody.received, processBody] at arrived
        split_ifs at arrived with elapsed
        · exact .inr ⟨running, own, .inr (.inr (.inr ⟨pong, rfl, elapsed, arrived⟩))⟩
        · obtain ⟨rfl, rfl⟩ := Prod.mk.inj (Option.some.inj arrived)
          exact .inl ⟨rfl, rfl⟩
    | feedback feedback =>
        simp only [SimBody.received, processBody] at arrived
        split_ifs at arrived
        obtain ⟨rfl, rfl⟩ := Prod.mk.inj (Option.some.inj arrived)
        exact .inl ⟨rfl, rfl⟩
    | connect | seg | disconnect | disconnectAck | fir | pad => cases isHandled

end PathControl

end MpVideo.Sender
