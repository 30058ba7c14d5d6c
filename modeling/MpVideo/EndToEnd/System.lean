import MpVideo.EndToEnd.FrameCache
import MpVideo.Receiver.Arrivals

/-!
# The stack from `SendVideo` to `ForwardUp`

The multipath sender with its paths, the network, the path receivers and the
multipath receiver, as one machine. A path is connected point to point. The network
keeps every datagram that was sent, so that an arrival may repeat, overtake or skip
any of them; a datagram is never changed.

The scheduler, the pacers and the clocks are the environment: which segment goes to
which path, when a path sends, and every time read, is part of the event. The
outputs are the calls that the multipath receiver makes.

Every segment on its way was cut from a frame that the sender took, and so was what
the multipath receiver holds and forwarded (`SystemInv`); each step of either end and
of the network keeps this.
-/

set_option autoImplicit false

namespace MpVideo.EndToEnd

open Wire Sender Receiver

/-- `MAX_WAITTING_RETRANS_TIME`. -/
def maxWaittingRetransTime : UInt32 := 500

/-- Both ends and what is between them. -/
structure System where
  sender : MultipathSender
  /-- Every datagram sent so far, in order, with the id of its path. -/
  wire : List (UInt8 × List UInt8) := []
  paths : SortedMap UInt8 PathReceiver := .empty
  receiver : MultipathReceiver

/-- What happens to the system. -/
inductive SystemEvent where
  | registerPath (paceMode : PaceMode)
  /-- The path receiver took the id, and the sender learns that the path is usable. -/
  | connect (pid : UInt8) (path : PathReceiver)
  | sendVideo (now : Int64) (frame : Frame)
  | packetSchedule (scheduleId : UInt32) (pid : UInt8)
  | timeToSendPacket (pid : UInt8) (seq : UInt16) (retransmission : Bool) (now : UInt32)
  | pacingSendSegment (pid : UInt8) (now : UInt32)
  /-- The datagram that was sent as number `n` arrives. -/
  | arrive (n : Nat) (env : Env)
  | heartBeatExpired (now : UInt32)
  | pingTimerExpired (pid : UInt8) (now : UInt32)
  | stopSender
  | stopReceiver

namespace System

/-! ## The receiving side -/

/-- `GetWaittingDuration` over the registered paths. -/
def getWaittingDuration (paths : SortedMap UInt8 PathReceiver) : UInt32 :=
  min (paths.entries.foldl (fun waitting entry => max waitting entry.2.getWaittingDuration) 0)
    maxWaittingRetransTime

/-- What the multipath receiver reads while a path hands a segment on. -/
def cacheEnv (env : Env) (paths : SortedMap UInt8 PathReceiver) : CacheEnv where
  now := env.now
  waittingDuration := getWaittingDuration paths
  frameSentFirstTs := match env.senderFirstTs with
    | some ts => ts.toUInt64.toInt64
    | none => -1

/-- A `Consume` call reaches its path. -/
def applyCall (paths : SortedMap UInt8 PathReceiver) : CacheCall → SortedMap UInt8 PathReceiver
  | .consume pid packetId =>
      match paths.find? pid with
      | some path => paths.set pid (path.consume packetId)
      | none => paths
  | _ => paths

/-- The calls of the multipath receiver reach the paths. -/
def answer (system : System) (result : MultipathReceiver × List CacheCall) :
    System × List CacheCall :=
  ({ system with receiver := result.1, paths := result.2.foldl applyCall system.paths }, result.2)

/-- `DeliverToCache` for the segments that a path hands on. -/
def deliver (env : Env) : List (UInt8 × SimSegment) → System →
    Option (System × List CacheCall)
  | [], system => some (system, [])
  | (pid, seg) :: rest, system =>
      (system.receiver.deliverToCache (cacheEnv env system.paths) pid seg).bind fun result =>
        let (system, calls) := system.answer result
        (deliver env rest system).map fun (system, more) => (system, calls ++ more)

/-- The path receiver gets a datagram. -/
def arrive (n : Nat) (env : Env) (system : System) : Option (System × List CacheCall) :=
  match system.wire[n]? with
  | none => some (system, [])
  | some (pid, packet) =>
      match system.paths.find? pid with
      | none => some (system, [])
      | some path =>
          (path.recvPacket env true packet).bind fun (path, calls) =>
            { system with paths := system.paths.set pid path }.deliver env (deliveries calls)

/-- The expiry of the ping timer of a path. -/
def pingTimerExpired (pid : UInt8) (now : UInt32) (system : System) : System :=
  match system.paths.find? pid with
  | none => system
  | some path => { system with paths := system.paths.set pid (path.pingTimerExpired now).1 }

/-! ## The machine -/

/-- The path sends datagrams. -/
def transmit (pid : UInt8) (system : System) (result : MultipathSender × List (List UInt8)) :
    System :=
  { system with sender := result.1, wire := system.wire ++ result.2.map (pid, ·) }

/-- What the system does on an event; `none` is undefined behaviour. -/
def handle (system : System) : SystemEvent → Option (System × List CacheCall)
  | .registerPath paceMode =>
      some ({ system with sender := system.sender.registerPath paceMode }, [])
  | .connect pid path =>
      some ({ system with
        sender := system.sender.notifyPathUsable pid
        paths := system.paths.insert pid { path with pid } }, [])
  | .sendVideo now frame =>
      some ({ system with sender := system.sender.sendVideo now frame }, [])
  | .packetSchedule scheduleId pid =>
      some ({ system with sender := system.sender.packetSchedule scheduleId pid }, [])
  | .timeToSendPacket pid seq retransmission now =>
      some (system.transmit pid (system.sender.timeToSendPacket pid seq retransmission now), [])
  | .pacingSendSegment pid now =>
      some (system.transmit pid (system.sender.pacingSendSegment pid now), [])
  | .arrive n env => system.arrive n env
  | .heartBeatExpired now => some (system.answer (system.receiver.heartBeatExpired now))
  | .pingTimerExpired pid now => some (system.pingTimerExpired pid now, [])
  | .stopSender => some ({ system with sender := system.sender.stopSender }, [])
  | .stopReceiver =>
      some ({ system with
        receiver := system.receiver.stopReceiver
        paths := system.paths.mapVal PathReceiver.stopPath }, [])

/-- The system as a machine. -/
def machine : Machine System SystemEvent CacheCall := ⟨handle⟩

/-- The datagram that arrives, if there is one for a path, fits in the stream that is
allocated at the receiver of the path. -/
def ArrivalFits (system : System) : SystemEvent → Prop
  | .arrive n _ =>
      ∀ datagram ∈ system.wire[n]?, ∀ path ∈ system.paths.find? datagram.1,
        datagram.2.length ≤ path.strm.size
  | _ => True

instance decidableArrivalFits (system : System) :
    (event : SystemEvent) → Decidable (system.ArrivalFits event)
  | .arrive n _ => inferInstanceAs (Decidable (∀ datagram ∈ system.wire[n]?,
      ∀ path ∈ system.paths.find? datagram.1, datagram.2.length ≤ path.strm.size))
  | .registerPath _ | .connect _ _ | .sendVideo _ _ | .packetSchedule _ _
  | .timeToSendPacket _ _ _ _ | .pacingSendSegment _ _ | .heartBeatExpired _
  | .pingTimerExpired _ _ | .stopSender | .stopReceiver => isTrue trivial

/-- The system before the first path is registered; the sink is registered. -/
def start (uid : UInt32) (gapCb recvLenCb frameInfoCb : Bool) : System where
  sender := { uid }
  receiver := MultipathReceiver.registered gapCb recvLenCb frameInfoCb

/-- The frames that `SendVideo` takes in a run: those before the sender is stopped. -/
def videoFrames : List SystemEvent → List Frame
  | [] => []
  | .sendVideo _ frame :: rest => frame :: videoFrames rest
  | .stopSender :: _ => []
  | _ :: rest => videoFrames rest

end System

/-! ## The invariant -/

/-- What is on its way was cut from the frames taken so far, and so was what the
multipath receiver holds and forwarded. -/
structure SystemInv (sent : List Frame) (system : System) (log : List CacheCall) : Prop where
  frameSeed : system.sender.frameSeed = frameId sent.length
  holds : system.sender.Holds (Genuine sent)
  datagrams : ∀ datagram ∈ system.wire, PathSender.Datagram (Genuine sent) datagram.1 datagram.2
  pids : ∀ entry ∈ system.paths.entries, entry.2.pid = entry.1
  receiver : ReceiverInv sent system.receiver (log.filterMap forwarded)

namespace SystemInv

variable {sent : List Frame} {system : System} {log : List CacheCall}

theorem start (uid : UInt32) (gapCb recvLenCb frameInfoCb : Bool) :
    SystemInv [] (System.start uid gapCb recvLenCb frameInfoCb) [] where
  frameSeed := rfl
  holds := MultipathSender.holds_fresh _ uid
  datagrams _ member := absurd member List.not_mem_nil
  pids _ member := absurd member List.not_mem_nil
  receiver := {
    increasing := List.Pairwise.nil
    faithful := fun _ member => absurd member List.not_mem_nil
    sink := rfl
    cached := fun _ member => absurd member List.not_mem_nil
    above := fun _ member => absurd member List.not_mem_nil
    below := fun _ member => absurd member List.not_mem_nil }

/-- A path is replaced by one with the same id. -/
theorem setPath (inv : SystemInv sent system log) {pid : UInt8} {path : PathReceiver}
    (pidEq : path.pid = pid) :
    SystemInv sent { system with paths := system.paths.set pid path } log where
  frameSeed := inv.frameSeed
  holds := inv.holds
  datagrams := inv.datagrams
  pids entry member := by
    rcases SortedMap.mem_setList_of member with rfl | old
    · exact pidEq
    · exact inv.pids entry old
  receiver := inv.receiver

theorem find? (inv : SystemInv sent system log) {pid : UInt8} {path : PathReceiver}
    (found : system.paths.find? pid = some path) : path.pid = pid :=
  inv.pids (pid, path) (SortedMap.find?_eq_some_iff.mp found)

/-- The sender did something that neither takes a frame nor stops it. -/
theorem withSender (inv : SystemInv sent system log) {sender : MultipathSender}
    (continues : MultipathSender.Continues system.sender sender)
    (holds : sender.Holds (Genuine sent)) : SystemInv sent { system with sender } log where
  frameSeed := continues.frameSeed.trans inv.frameSeed
  holds := holds
  datagrams := inv.datagrams
  pids := inv.pids
  receiver := inv.receiver

theorem transmit (inv : SystemInv sent system log) {pid : UInt8}
    {result : MultipathSender × List (List UInt8)}
    (sends : MultipathSender.Sends (Genuine sent) pid system.sender result) :
    SystemInv sent (system.transmit pid result) log where
  frameSeed := sends.frameSeed.trans inv.frameSeed
  holds := sends.holds
  datagrams datagram member := by
    cases List.mem_append.mp member with
    | inl old => exact inv.datagrams datagram old
    | inr new =>
        obtain ⟨bytes, isSent, rfl⟩ := List.mem_map.mp new
        exact sends.datagrams bytes isSent
  pids := inv.pids
  receiver := inv.receiver

/-- A running sender takes a frame. -/
theorem sendVideo (inv : SystemInv sent system log) (running : system.sender.stop = false)
    (now : Int64) (frame : Frame) :
    SystemInv (sent ++ [frame]) { system with sender := system.sender.sendVideo now frame } log := by
  have older : ∀ seg, Genuine sent seg → Genuine (sent ++ [frame]) seg :=
    fun _ genuine => genuine.mono
  have newer : ∀ timestamp, ∀ seg ∈ frame.segments system.sender.frameSeed timestamp,
      Genuine (sent ++ [frame]) seg := by
    intro timestamp seg member
    exact ⟨sent.length, frame, by simp, inv.frameSeed ▸ carries_segments member⟩
  have holds := (inv.holds.mono older).sendVideo running now newer
  obtain ⟨seed, -⟩ := MultipathSender.sendVideo_running running now frame
  refine ⟨?_, holds, ?_, inv.pids, inv.receiver.mono [frame]⟩
  · rw [List.length_append, List.length_singleton, ← frameId_succ, ← inv.frameSeed]
    exact seed
  · intro datagram member
    obtain ⟨uid, seg, genuine, bytes⟩ := inv.datagrams datagram member
    exact ⟨uid, seg, older seg genuine, bytes⟩

theorem applyCalls {paths : SortedMap UInt8 PathReceiver}
    (pids : ∀ entry ∈ paths.entries, entry.2.pid = entry.1) (calls : List CacheCall) :
    ∀ entry ∈ (calls.foldl System.applyCall paths).entries, entry.2.pid = entry.1 := by
  induction calls generalizing paths with
  | nil => exact pids
  | cons call rest ih =>
      apply ih
      cases call with
      | consume pid packetId =>
          rw [System.applyCall]
          cases found : paths.find? pid with
          | none => exact pids
          | some path =>
              intro entry member
              rcases SortedMap.mem_setList_of member with rfl | old
              · exact pids (pid, path) (SortedMap.find?_eq_some_iff.mp found)
              · exact pids entry old
      | forwardUp | gap | frameInfo | recvBufLen => exact pids

theorem answer (inv : SystemInv sent system log) (result : MultipathReceiver × List CacheCall)
    (receiver : ReceiverInv sent result.1
      (log.filterMap forwarded ++ result.2.filterMap forwarded)) :
    SystemInv sent (system.answer result).1 (log ++ (system.answer result).2) where
  frameSeed := inv.frameSeed
  holds := inv.holds
  datagrams := inv.datagrams
  pids := applyCalls inv.pids result.2
  receiver := List.filterMap_append ▸ receiver

/-- The segments that a path hands on reach the multipath receiver. -/
theorem deliver (inv : SystemInv sent system log) (few : sent.length ≤ 2 ^ 32) (env : Env)
    {handed : List (UInt8 × SimSegment)}
    (genuine : ∀ entry ∈ handed, Genuine sent entry.2 ∧ entry.2.ftype &&& 0x01 = entry.2.ftype) :
    ∃ next calls, system.deliver env handed = some (next, calls) ∧
      SystemInv sent next (log ++ calls) ∧ next.sender = system.sender := by
  induction handed generalizing system log with
  | nil => exact ⟨system, [], rfl, by rwa [List.append_nil], rfl⟩
  | cons entry rest ih =>
      obtain ⟨isGenuine, reduced⟩ := genuine entry List.mem_cons_self
      obtain ⟨receiver, calls, defined, holds⟩ := inv.receiver.deliverToCache few isGenuine
        reduced (System.cacheEnv env system.paths) entry.1
      obtain ⟨next, more, onwards, after, same⟩ := ih (inv.answer (receiver, calls) holds)
        fun other member => genuine other (List.mem_cons_of_mem _ member)
      refine ⟨next, calls ++ more, ?_, List.append_assoc .. ▸ after, same⟩
      rw [System.deliver, defined, Option.bind_some]
      simp only [onwards, Option.map_some]
      rfl

/-- **A datagram that fits arrives**: any of those that were sent, at any time. -/
theorem arrive (inv : SystemInv sent system log) (few : sent.length ≤ 2 ^ 32) (n : Nat)
    (env : Env) (fits : system.ArrivalFits (.arrive n env)) :
    ∃ next calls, system.arrive n env = some (next, calls) ∧
      SystemInv sent next (log ++ calls) ∧ next.sender = system.sender := by
  have nothing : ∃ next calls, some (system, []) = some (next, calls) ∧
      SystemInv sent next (log ++ calls) ∧ next.sender = system.sender :=
    ⟨system, [], rfl, by rwa [List.append_nil], rfl⟩
  rw [System.arrive]
  cases onWire : system.wire[n]? with
  | none => exact nothing
  | some datagram =>
      obtain ⟨pid, packet⟩ := datagram
      cases found : system.paths.find? pid with
      | none =>
          simp only [found]
          exact nothing
      | some path =>
          obtain ⟨uid, seg, genuine, bytes⟩ :=
            inv.datagrams (pid, packet) (List.mem_of_getElem? onWire)
          have pidEq := inv.find? found
          have short : packet.length ≤ path.strm.size := fits (pid, packet) onWire path found
          simp only at bytes
          obtain ⟨strm, received⟩ := PathReceiver.recvPacket_segment
            ⟨pid, MsgId.simSeg.toUInt8, uid⟩ pidEq.symm rfl genuine.legal env (bytes ▸ short)
          obtain ⟨samePid, hands⟩ :=
            PathReceiver.onReceiveSegment_hands env seg.received { path with strm }
          simp only [found, bytes, received, Option.bind_some]
          apply (inv.setPath (samePid.trans pidEq)).deliver few env
          intro entry member
          cases hands with
          | inl none => exact absurd (none ▸ member) List.not_mem_nil
          | inr one =>
              obtain rfl := List.mem_singleton.mp (one ▸ member)
              exact ⟨genuine.received, received_ftype seg⟩

end SystemInv

end MpVideo.EndToEnd
