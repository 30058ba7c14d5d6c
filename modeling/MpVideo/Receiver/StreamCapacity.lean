import MpVideo.Lib.Machine
import MpVideo.Receiver.PathReceiver
import MpVideo.Wire.RoundTrip

/-!
# Capacity of the receiving stream

A path receiver encodes and receives in one stream. What it encodes itself never
needs more than the first allocation (`length_bodyBytes_le`), so over every history
the stream keeps `DEFAULT_PACKET_SIZE` allocated bytes (`run_size`). `RecvPacket`
copies a datagram there and sets `used` without the resize that every writer
performs; the bytes therefore fit exactly when the datagram is no longer than the
first allocation, which a full segment is not (`recvPacket_fits_iff`).
-/

set_option autoImplicit false

namespace MpVideo.Receiver

open Wire BinStream

/-- The read position is within the bytes in use, and these are allocated. -/
structure Fits (strm : BinStream) : Prop where
  rsize_le_used : strm.rsize ≤ strm.used
  used_le_size : strm.used ≤ strm.size

/-- What encoding leaves in a stream fits. -/
theorem fits_simEncodeMsg (strm : BinStream) (header : SimHeader) (body : SimBody) :
    Fits (simEncodeMsg strm header body) where
  rsize_le_used := by
    rw [simEncodeMsg_rsize]
    exact Nat.zero_le _
  used_le_size := simEncodeMsg_used_le strm header body

/-- Reading keeps what fits. -/
theorem Fits.reads {α : Type} {program : StreamM α} (readsOnly : ReadsOnly program)
    {strm : BinStream} (fits : Fits strm) : Fits (program.run strm).2 := by
  have used : (program.run strm).2.used = strm.used := congrArg List.length (readsOnly.data strm)
  refine ⟨?_, ?_⟩
  · rw [used]
    exact readsOnly.rsize_le strm fits.rsize_le_used
  · rw [used, readsOnly.size strm]
    exact fits.used_le_size

namespace PathReceiver

/-! ## Member functions keep the allocation -/

/-- The receiver keeps the first allocation, and what fitted still fits. -/
structure Keeps (path next : PathReceiver) : Prop where
  size : path.strm.size = defaultPacketSize → next.strm.size = defaultPacketSize
  fits : Fits path.strm → Fits next.strm

theorem keeps_of_same {path next : PathReceiver} (same : next.strm = path.strm) :
    Keeps path next :=
  ⟨fun size => same ▸ size, fun fits => same ▸ fits⟩

theorem Keeps.trans {path middle next : PathReceiver} (first : Keeps path middle)
    (second : Keeps middle next) : Keeps path next :=
  ⟨fun size => second.size (first.size size), fun fits => second.fits (first.fits fits)⟩

theorem Keeps.reads {path : PathReceiver} {α : Type} {program : StreamM α}
    (readsOnly : ReadsOnly program) :
    Keeps path { path with strm := (program.run path.strm).2 } :=
  ⟨fun size => (readsOnly.size path.strm).trans size, fun fits => fits.reads readsOnly⟩

theorem keeps_sendMsg {body : SimBody} (other : ∀ seg, body ≠ .seg seg) (path : PathReceiver) :
    Keeps path (path.sendMsg body).1 where
  size size := by
    refine (simEncodeMsg_size ?_).trans size
    rw [size, length_messageBytes]
    exact length_bodyBytes_le other
  fits _ := fits_simEncodeMsg path.strm (path.header body.mid) body

theorem keeps_sendPingMsg (now : UInt32) (path : PathReceiver) :
    Keeps path (path.sendPingMsg now).1 := by
  simp only [sendPingMsg]
  exact (keeps_sendMsg (by simp) path).trans (keeps_of_same rfl)

theorem keeps_checkPing (now : UInt32) (path : PathReceiver) :
    Keeps path (path.checkPing now).1 := by
  simp only [checkPing]
  split_ifs with scheduled due
  · exact keeps_of_same rfl
  · exact (keeps_sendPingMsg now path).trans (keeps_of_same rfl)
  · exact keeps_of_same rfl

theorem keeps_pingTimerExpired (now : UInt32) (path : PathReceiver) :
    Keeps path (path.pingTimerExpired now).1 := by
  have expired : Keeps path { path with pingTimer := false } := keeps_of_same rfl
  exact expired.trans (keeps_checkPing now _)

theorem keeps_onFirstPacket (now : UInt32) (path : PathReceiver) :
    Keeps path (path.onFirstPacket now).1 := by
  simp only [onFirstPacket]
  split_ifs with first
  · have configured : Keeps path { path with controller := true } := keeps_of_same rfl
    exact (configured.trans (keeps_checkPing now _)).trans (keeps_of_same rfl)
  · exact keeps_of_same rfl

theorem keeps_videoRealAck (now : UInt32) (hb : Bool) (seq : UInt32) (path : PathReceiver) :
    Keeps path (path.videoRealAck now hb seq).1 := by
  have ack : Keeps path (path.sendSegmentAck (segmentAck seq path.tables)).1 :=
    keeps_sendMsg (by simp) path
  simp only [videoRealAck]
  generalize path.sendSegmentAck (segmentAck seq path.tables) = sent at ack ⊢
  split_ifs with due
  · exact ack.trans (keeps_of_same rfl)
  · exact keeps_of_same rfl

theorem keeps_acceptSegment (env : Env) (seg : SimSegment) (path : PathReceiver) :
    Keeps path (path.acceptSegment env seg).1 := by
  have recorded : Keeps path { path with
      tables := path.tables.record seg.packetId seg.index } := keeps_of_same rfl
  exact recorded.trans (keeps_videoRealAck env.now false seg.packetId _)

theorem keeps_onReceiveSegment (env : Env) (seg : SimSegment) (path : PathReceiver) :
    Keeps path (path.onReceiveSegment env seg).1 := by
  simp only [onReceiveSegment]
  split_ifs with stopped drop
  · exact keeps_of_same rfl
  · exact keeps_onFirstPacket env.now path
  · exact (keeps_onFirstPacket env.now path).trans (keeps_acceptSegment env seg _)

theorem keeps_updateRtt {time now : UInt32} {path next : PathReceiver}
    (defined : path.updateRtt time now = some next) : Keeps path next := by
  rw [updateRtt] at defined
  generalize (if time > 5 then time else 5) = keepRtt at defined
  have smoothed : Keeps path (path.smoothRtt keepRtt now) := keeps_of_same rfl
  generalize path.smoothRtt keepRtt now = kept at defined smoothed
  split_ifs at defined
  · exact Option.some.inj defined ▸ smoothed.trans (keeps_of_same rfl)
  · exact Option.some.inj defined ▸ smoothed.trans (keeps_of_same rfl)
  · exact Option.some.inj defined ▸ smoothed.trans (keeps_of_same rfl)

theorem keeps_processBody {env : Env} {header : SimHeader} {path : PathReceiver} {body : SimBody}
    {result : PathReceiver × List PathCall}
    (defined : path.processBody env header body = some result) : Keeps path result.1 := by
  cases body with
  | connect body =>
      have named : Keeps path { path with pid := header.ver } := keeps_of_same rfl
      exact Option.some.inj defined ▸ named.trans (keeps_sendMsg (by simp) _)
  | seg body =>
      rw [processBody] at defined
      split_ifs at defined
      · exact Option.some.inj defined ▸ keeps_of_same rfl
      · exact Option.some.inj defined ▸ keeps_onReceiveSegment env body path
  | pad body =>
      rw [processBody] at defined
      split_ifs at defined
      · exact Option.some.inj defined ▸ keeps_of_same rfl
      · exact Option.some.inj defined ▸ keeps_of_same rfl
  | ping body => exact Option.some.inj defined ▸ keeps_sendMsg (by simp) path
  | pong body =>
      simp only [processBody] at defined
      split_ifs at defined
      · obtain ⟨next, updated, rfl⟩ := Option.map_eq_some_iff.mp defined
        exact keeps_updateRtt updated
      · exact Option.some.inj defined ▸ keeps_of_same rfl
  | connectAck body | disconnect body | disconnectAck body | segAck body | feedback body
  | fir body => exact Option.some.inj defined ▸ keeps_of_same rfl

theorem keeps_simDecodeHeader {path : PathReceiver} {header : Option SimHeader}
    {strm : BinStream} (defined : simDecodeHeader path.strm = some (header, strm)) :
    Keeps path { path with strm } := by
  rw [simDecodeHeader] at defined
  split_ifs at defined with short
  simp only at defined
  split_ifs at defined with crc
  · obtain ⟨-, rfl⟩ := Prod.mk.inj (Option.some.inj defined)
    exact .reads readsOnly_header
  · obtain ⟨-, rfl⟩ := Prod.mk.inj (Option.some.inj defined)
    exact keeps_of_same rfl

theorem keeps_simDecodeMsg (header : SimHeader) (path : PathReceiver) :
    Keeps path { path with strm := (simDecodeMsg path.strm header).2 } := by
  rw [simDecodeMsg]
  cases MsgId.ofUInt8? header.mid with
  | none => exact keeps_of_same rfl
  | some mid => exact .reads (readsOnly_body mid)

theorem keeps_processDecoded {env : Env} {header : SimHeader} {path : PathReceiver}
    {result : PathReceiver × List PathCall}
    (defined : path.processDecoded env header = some result) : Keeps path result.1 := by
  have read := keeps_simDecodeMsg header path
  rw [processDecoded] at defined
  generalize simDecodeMsg path.strm header = decoded at defined read
  cases known : MsgId.ofUInt8? header.mid with
  | none =>
      rw [known] at defined
      exact Option.some.inj defined ▸ keeps_of_same rfl
  | some mid =>
      rw [known] at defined
      simp only at defined
      split_ifs at defined
      · obtain ⟨body, strm⟩ := decoded
        cases body with
        | none => exact Option.some.inj defined ▸ read
        | some body => exact read.trans (keeps_processBody defined)
      · exact Option.some.inj defined ▸ keeps_of_same rfl

/-- Processing a message keeps the allocation and what fits. -/
theorem keeps_processingMsg {env : Env} {path : PathReceiver}
    {result : PathReceiver × List PathCall} (defined : path.processingMsg env = some result) :
    Keeps path result.1 := by
  rw [processingMsg] at defined
  split_ifs at defined with stopped
  · exact Option.some.inj defined ▸ keeps_of_same rfl
  · cases decoded : simDecodeHeader path.strm with
    | none =>
        rw [decoded] at defined
        cases defined
    | some read =>
        obtain ⟨header, strm⟩ := read
        have kept := keeps_simDecodeHeader decoded
        rw [decoded] at defined
        cases header with
        | none => exact Option.some.inj defined ▸ kept
        | some header => exact kept.trans (keeps_processDecoded defined)

/-! ## Histories -/

/-- Everything that happens to a path receiver from outside: a datagram of the
simulated network, the ping timer, and the member functions others call. -/
inductive PathEvent where
  | recvPacket (env : Env) (razor : Bool) (packet : List UInt8)
  | pingTimerExpired (now : UInt32)
  | sendConnectAck (cid : UInt32)
  | sendDisconnect (now : UInt32)
  | sendPingMsg (now : UInt32)
  | updateRtt (time now : UInt32)
  | onReceiveSegment (env : Env) (seg : SimSegment)
  | videoRealAck (now : UInt32) (hb : Bool) (seq : UInt32)
  | sendSegmentAck (ack : SimSegmentAck)
  | consume (packetId : UInt32)
  | stop

/-- What the receiver does on an event; `none` is undefined behaviour. -/
def handle (path : PathReceiver) : PathEvent → Option (PathReceiver × List PathCall)
  | .recvPacket env razor packet => path.recvPacket env razor packet
  | .pingTimerExpired now => some (path.pingTimerExpired now)
  | .sendConnectAck cid => some (path.sendConnectAck cid)
  | .sendDisconnect now => some (path.sendDisconnect now)
  | .sendPingMsg now => some (path.sendPingMsg now)
  | .updateRtt time now => (path.updateRtt time now).map (·, [])
  | .onReceiveSegment env seg => some (path.onReceiveSegment env seg)
  | .videoRealAck now hb seq => some (path.videoRealAck now hb seq)
  | .sendSegmentAck ack => some (path.sendSegmentAck ack)
  | .consume packetId => some (path.consume packetId, [])
  | .stop => some (path.stopPath, [])

/-- The path receiver as a machine. -/
def machine : Machine PathReceiver PathEvent PathCall := ⟨handle⟩

/-- **One event leaves the allocation as it is.** -/
theorem handle_size {path : PathReceiver} {event : PathEvent}
    {result : PathReceiver × List PathCall} (size : path.strm.size = defaultPacketSize)
    (defined : path.handle event = some result) : result.1.strm.size = defaultPacketSize := by
  cases event with
  | recvPacket env razor packet =>
      change path.recvPacket env razor packet = _ at defined
      cases razor with
      | false => exact Option.some.inj defined ▸ size
      | true =>
          obtain ⟨-, processed⟩ := recvPacket_eq_some_iff.mp defined
          exact (keeps_processingMsg processed).size size
  | updateRtt time now =>
      obtain ⟨updated, rtt, rfl⟩ := Option.map_eq_some_iff.mp defined
      exact (keeps_updateRtt rtt).size size
  | pingTimerExpired now =>
      exact Option.some.inj defined ▸
        (keeps_pingTimerExpired now path).size size
  | sendConnectAck cid | sendDisconnect now | sendSegmentAck ack =>
      exact Option.some.inj defined ▸
        (keeps_sendMsg (by simp) path).size size
  | sendPingMsg now =>
      exact Option.some.inj defined ▸ (keeps_sendPingMsg now path).size size
  | onReceiveSegment env seg =>
      exact Option.some.inj defined ▸
        (keeps_onReceiveSegment env seg path).size size
  | videoRealAck now hb seq =>
      exact Option.some.inj defined ▸
        (keeps_videoRealAck now hb seq path).size size
  | consume packetId => exact Option.some.inj defined ▸ size
  | stop => exact Option.some.inj defined ▸ size

/-- Every history leaves the allocation as it is. -/
theorem run_size {path last : PathReceiver} {history : List PathEvent} {calls : List PathCall}
    (size : path.strm.size = defaultPacketSize)
    (defined : machine.run path history = some (last, calls)) :
    last.strm.size = defaultPacketSize :=
  Machine.run_invariant (fun path => path.strm.size = defaultPacketSize)
    (fun _ _ _ _ kept handled => handle_size kept handled) size defined

/-- The stream fits with the bytes that `RecvPacket` copies to it, and after they are
processed. -/
def ReceiptFits (path : PathReceiver) (env : Env) (packet : List UInt8) : Prop :=
  Fits (path.withPacket packet).strm ∧
    ∀ result, path.recvPacket env true packet = some result → Fits result.1.strm

/-- With the first allocation, receipt is a matter of the length of the datagram. -/
theorem receiptFits_iff {path : PathReceiver} (size : path.strm.size = defaultPacketSize)
    (env : Env) (packet : List UInt8) :
    path.ReceiptFits env packet ↔ packet.length ≤ defaultPacketSize := by
  constructor
  · rintro ⟨copied, -⟩
    exact size ▸ copied.used_le_size
  · intro short
    have copied : Fits (path.withPacket packet).strm := by
      refine ⟨Nat.zero_le _, ?_⟩
      change packet.length ≤ path.strm.size
      exact size ▸ short
    exact ⟨copied, fun result received =>
      (keeps_processingMsg (recvPacket_eq_some_iff.mp received).2).fits copied⟩

/-- A segment whose data and wide fields together stay below what header, fixed
fields and checksum leave of the first allocation. -/
def SmallSegment : SimBody → Prop
  | .seg seg =>
      seg.data.size + ((if seg.packetId > 65535 then 2 else 0) + (if seg.fid > 65535 then 2 else 0) +
        if seg.total > 255 then 2 else 0) ≤ 996
  | _ => True

theorem smallSegment_iff (header : SimHeader) (body : SimBody) :
    SmallSegment body ↔ (messageBytes header body).length ≤ defaultPacketSize := by
  rw [length_messageBytes]
  by_cases segment : ∃ seg, body = .seg seg
  · obtain ⟨seg, rfl⟩ := segment
    rw [bodyBytes, length_segmentBytes, SmallSegment, defaultPacketSize]
    omega
  · have other : ∀ seg, body ≠ .seg seg := fun seg same => segment ⟨seg, same⟩
    refine iff_of_true ?_ (length_bodyBytes_le other)
    cases body with
    | seg seg => exact absurd rfl (other seg)
    | _ => exact trivial

/-- **What a sender encodes fits the receiving stream if and only if it is no
segment or a small one.** The receiver starts with a fresh stream and may have any
history. -/
theorem recvPacket_fits_iff (path : PathReceiver) {last : PathReceiver}
    (history : List PathEvent) {calls : List PathCall} (fresh : path.strm = binStreamInit)
    (defined : machine.run path history = some (last, calls)) (env : Env)
    (sender : BinStream) (header : SimHeader) (body : SimBody) :
    last.ReceiptFits env (simEncodeMsg sender header body).data ↔ SmallSegment body := by
  have size : last.strm.size = defaultPacketSize := run_size (by rw [fresh]; rfl) defined
  rw [receiptFits_iff size, simEncodeMsg_data, smallSegment_iff header]

/-- A full segment with a small packet id, frame number and total. -/
def fullSegment : SimBody :=
  .seg ⟨1, 1, 0, 0, 1, 0, 0, 1, 0, 1, ⟨List.replicate 1000 0, Nat.le_of_eq List.length_replicate⟩⟩

theorem recvPacket_fits_small :
    ({ uid := 1 } : PathReceiver).ReceiptFits ⟨10, none⟩
      (simEncodeMsg binStreamInit ⟨0, 0x17, 2⟩
        (.seg ⟨1, 1, 0, 0, 1, 0, 0, 1, 0, 1, .empty⟩)).data :=
  (recvPacket_fits_iff { uid := 1 } [] rfl rfl ⟨10, none⟩ binStreamInit
    ⟨0, 0x17, 2⟩ _).mpr (by unfold SmallSegment; decide)

/-- A full segment does not fit a stream that received nothing before. -/
theorem fullSegment_overflows :
    ¬ ({ uid := 1 } : PathReceiver).ReceiptFits ⟨10, none⟩
      (simEncodeMsg binStreamInit ⟨0, 0x17, 2⟩ fullSegment).data := by
  rw [receiptFits_iff rfl, simEncodeMsg_data, ← smallSegment_iff]
  simp only [SmallSegment, fullSegment, Payload.size, List.length_replicate]
  decide

end PathReceiver

end MpVideo.Receiver
