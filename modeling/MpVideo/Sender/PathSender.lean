import MpVideo.Lib.MachineInt
import MpVideo.Lib.SortedMap
import MpVideo.Sender.FrameSplit
import MpVideo.Wire.RoundTrip

/-!
# The path sender

The queue of `pathsender.cc`: segments are put under the next 16-bit transport
number, taken out again by that number (for a pacer) or from the front (in own
pacing), and sent as datagrams. The first frame time of the multipath sender and
the simulated time are arguments; a function that sends returns the datagrams.
-/

set_option autoImplicit false

namespace MpVideo.Sender

open Wire

/-- `PaceMode`. -/
inductive PaceMode where
  | noCongestion | noWebrtc | withCongestion
  deriving DecidableEq

/-- The members of `PathSender` that concern its queue, on a path that is connected:
`controller_`, which `put` uses, is there. The defaults are the values that a path has when it
was just connected. -/
structure PathSender where
  pid : UInt8
  /-- The user id of the registered sender interface. -/
  uid : UInt32
  transSeq : UInt16 := 1
  packetSeed : UInt32 := 1
  buf : SortedMap UInt16 SimSegment := .empty
  len : UInt32 := 0
  pendingLen : UInt32 := 0
  stop : Bool := false
  paceMode : PaceMode := .withCongestion
  pacingRunning : Bool := false
  /-- Whether `m_pacing_` is scheduled. -/
  pacing : Bool := false
  strm : BinStream := binStreamInit

namespace PathSender

/-- The bytes a segment counts for in `len_` and `pending_len_`. -/
def segmentLen (seg : SimSegment) : UInt32 :=
  UInt32.ofNat seg.data.size + UInt32.ofNat simSegmentHeaderSize

/-- `StartPacing`. -/
def startPacing (path : PathSender) : PathSender :=
  if path.stop ∨ path.pacingRunning then path
  else { path with pacingRunning := true, pacing := true }

/-- `put`: the result says whether the segment was queued. On a transport number
that is still in use the map keeps the old segment. -/
def put (seg : SimSegment) (path : PathSender) : PathSender × Bool :=
  if path.stop then (path, false)
  else
    let seg := { seg with packetId := path.packetSeed, transportSeq := path.transSeq }
    let path := { path with
      packetSeed := path.packetSeed + 1
      transSeq := path.transSeq + 1
      len := path.len + segmentLen seg
      pendingLen := path.pendingLen + segmentLen seg
      buf := path.buf.insert path.transSeq seg }
    (if path.paceMode = .noWebrtc then path.startPacing else path, true)

/-- The part that both versions of `get_segment` share. -/
def take (id : UInt16) (seg : SimSegment) (path : PathSender) : PathSender :=
  { path with
    len := path.len - segmentLen seg
    pendingLen := path.pendingLen - segmentLen seg
    buf := path.buf.erase id }

/-- `get_segment` by transport number. -/
def getSegment (seq : UInt16) (retrans : Bool) (path : PathSender) :
    Option SimSegment × PathSender :=
  if path.stop ∨ retrans then (none, path)
  else
    match path.buf.find? seq with
    | some seg => (some seg, path.take seq seg)
    | none => (none, path)

/-- `get_segment` from the front. -/
def getFirstSegment (path : PathSender) : Option SimSegment × PathSender :=
  match path.buf.entries with
  | (id, seg) :: _ => (some seg, path.take id seg)
  | [] => (none, path)

/-- `SendSegment`. -/
def sendSegment (now : UInt32) (firstTs : Int64) (seg : SimSegment) (path : PathSender) :
    PathSender × List (List UInt8) :=
  let sendTs := (now.toUInt64.toInt64 - firstTs - seg.timestamp.toUInt64.toInt64).toUInt64.toUInt16
  let strm := simEncodeMsg path.strm ⟨path.pid, MsgId.simSeg.toUInt8, path.uid⟩
    (.seg { seg with sendTs })
  ({ path with strm }, [strm.data])

/-- `TimeToSendPacket`. -/
def timeToSendPacket (seq : UInt16) (retransmission : Bool) (now : UInt32) (firstTs : Int64)
    (path : PathSender) : PathSender × List (List UInt8) :=
  if path.stop then (path, [])
  else
    match path.getSegment seq retransmission with
    | (some seg, path) => path.sendSegment now firstTs seg
    | (none, path) => (path, [])

/-- `PacingSendSegment`, when `m_pacing_` expires. -/
def pacingSendSegment (now : UInt32) (firstTs : Int64) (path : PathSender) :
    PathSender × List (List UInt8) :=
  if path.pacing then
    match path.getFirstSegment with
    | (some seg, path) => path.sendSegment now firstTs seg
    | (none, path) => ({ path with pacing := false, pacingRunning := false }, [])
  else (path, [])

/-- `Stop`, with `FreePendingBuf`. -/
def stopPath (path : PathSender) : PathSender :=
  if path.stop then path
  else
    { path with
      stop := true
      len := path.buf.entries.foldl (fun len entry => len - segmentLen entry.2) path.len
      buf := .empty }

/-! ## What is queued and sent -/

/-- A property of the segments in the queue that does not depend on their numbers. -/
def Holds (good : SimSegment → Prop) (path : PathSender) : Prop :=
  ∀ entry ∈ path.buf.entries, good entry.2

/-- The property does not see the fields that the path sender fills in. -/
structure Unnumbered (good : SimSegment → Prop) : Prop where
  numbered : ∀ seg packetId transportSeq, good seg → good { seg with packetId, transportSeq }
  sent : ∀ seg sendTs, good seg → good { seg with sendTs }

/-- A datagram of a path: the encoding of a segment with the property. -/
def Datagram (good : SimSegment → Prop) (pid : UInt8) (bytes : List UInt8) : Prop :=
  ∃ uid seg, good seg ∧ bytes = messageBytes ⟨pid, MsgId.simSeg.toUInt8, uid⟩ (.seg seg)

variable {good : SimSegment → Prop}

theorem startPacing_buf (path : PathSender) : path.startPacing.buf = path.buf := by
  rw [startPacing]; split_ifs <;> rfl

theorem startPacing_pid (path : PathSender) : path.startPacing.pid = path.pid := by
  rw [startPacing]; split_ifs <;> rfl

/-- What `put` does with a running path, but for the pacing. -/
theorem put_eq {path : PathSender} (running : path.stop = false) (seg : SimSegment) :
    ∃ pacing pacingRunning, path.put seg = ({ path with
      packetSeed := path.packetSeed + 1
      transSeq := path.transSeq + 1
      len := path.len + segmentLen seg
      pendingLen := path.pendingLen + segmentLen seg
      buf := path.buf.insert path.transSeq
        { seg with packetId := path.packetSeed, transportSeq := path.transSeq }
      pacing, pacingRunning }, true) := by
  rw [put, if_neg (by simp [running])]
  simp only [startPacing]
  split_ifs <;> exact ⟨_, _, rfl⟩

/-- Own pacing runs: `PacingSendSegment` is scheduled. -/
structure Paces (path : PathSender) : Prop where
  paceMode : path.paceMode = .noWebrtc
  pacingRunning : path.pacingRunning = true
  pacing : path.pacing = true

theorem startPacing_paces {path : PathSender} (running : path.stop = false)
    (paceMode : path.paceMode = .noWebrtc) (together : path.pacing = path.pacingRunning) :
    path.startPacing.Paces := by
  rw [startPacing]
  split_ifs with off
  · have flag : path.pacingRunning = true := off.resolve_left (by simp [running])
    exact ⟨paceMode, flag, together.trans flag⟩
  · exact ⟨paceMode, rfl, rfl⟩

/-- In own pacing, `put` starts the pacing unless it runs. -/
theorem put_paces {path : PathSender} (running : path.stop = false)
    (paceMode : path.paceMode = .noWebrtc) (together : path.pacing = path.pacingRunning)
    (seg : SimSegment) : (path.put seg).1.Paces := by
  rw [put, if_neg (by simp [running])]
  dsimp only
  rw [if_pos paceMode]
  exact startPacing_paces running paceMode together

theorem put_pid (seg : SimSegment) (path : PathSender) : (path.put seg).1.pid = path.pid := by
  rw [put]
  split_ifs
  · rfl
  · simp only
    split_ifs
    · exact startPacing_pid _
    · rfl

theorem Holds.put {path : PathSender} (holds : path.Holds good) (unnumbered : Unnumbered good)
    {seg : SimSegment} (fine : good seg) : (path.put seg).1.Holds good := by
  have inserted : ∀ entry ∈ (path.buf.insert path.transSeq
      { seg with packetId := path.packetSeed, transportSeq := path.transSeq }).entries,
      good entry.2 := by
    intro entry member
    rcases SortedMap.mem_insert_of member with rfl | old
    · exact unnumbered.numbered seg _ _ fine
    · exact holds entry old
  rw [PathSender.put]
  split_ifs
  · exact holds
  · simp only
    split_ifs
    · rw [Holds, startPacing_buf]
      exact inserted
    · exact inserted

theorem Holds.take {path : PathSender} (holds : path.Holds good) (id : UInt16)
    (seg : SimSegment) : (path.take id seg).Holds good :=
  fun entry member => holds entry (SortedMap.mem_erase.mp member).1

/-- The datagram of `SendSegment`, and what it leaves of the path. -/
theorem sendSegment_eq (now : UInt32) (firstTs : Int64) (seg : SimSegment) (path : PathSender) :
    ∃ sendTs strm, path.sendSegment now firstTs seg = ({ path with strm },
      [messageBytes ⟨path.pid, MsgId.simSeg.toUInt8, path.uid⟩ (.seg { seg with sendTs })]) := by
  simp only [sendSegment, simEncodeMsg_data]
  exact ⟨_, _, rfl⟩

theorem sendSegment_spec {path : PathSender} (holds : path.Holds good)
    (unnumbered : Unnumbered good) {seg : SimSegment} (fine : good seg) (now : UInt32)
    (firstTs : Int64) :
    (path.sendSegment now firstTs seg).1.Holds good ∧
      (path.sendSegment now firstTs seg).1.pid = path.pid ∧
      ∀ bytes ∈ (path.sendSegment now firstTs seg).2, Datagram good path.pid bytes := by
  obtain ⟨sendTs, strm, sent⟩ := sendSegment_eq now firstTs seg path
  rw [sent]
  refine ⟨holds, rfl, ?_⟩
  intro bytes member
  obtain rfl := List.mem_singleton.mp member
  exact ⟨path.uid, _, unnumbered.sent seg sendTs fine, rfl⟩

/-- **Every datagram is the encoding of a queued segment**, whichever the pacing. -/
theorem timeToSendPacket_spec {path : PathSender} (holds : path.Holds good)
    (unnumbered : Unnumbered good) (seq : UInt16) (retransmission : Bool) (now : UInt32)
    (firstTs : Int64) :
    (path.timeToSendPacket seq retransmission now firstTs).1.Holds good ∧
      (path.timeToSendPacket seq retransmission now firstTs).1.pid = path.pid ∧
      ∀ bytes ∈ (path.timeToSendPacket seq retransmission now firstTs).2,
        Datagram good path.pid bytes := by
  rw [timeToSendPacket, getSegment]
  split_ifs with stopped skip
  · exact ⟨holds, rfl, fun bytes member => absurd member List.not_mem_nil⟩
  · exact ⟨holds, rfl, fun bytes member => absurd member List.not_mem_nil⟩
  · cases found : path.buf.find? seq with
    | none => exact ⟨holds, rfl, fun bytes member => absurd member List.not_mem_nil⟩
    | some seg =>
        have fine := holds (seq, seg) (SortedMap.find?_eq_some_iff.mp found)
        exact sendSegment_spec (holds.take seq seg) unnumbered fine now firstTs

theorem pacingSendSegment_spec {path : PathSender} (holds : path.Holds good)
    (unnumbered : Unnumbered good) (now : UInt32) (firstTs : Int64) :
    (path.pacingSendSegment now firstTs).1.Holds good ∧
      (path.pacingSendSegment now firstTs).1.pid = path.pid ∧
      ∀ bytes ∈ (path.pacingSendSegment now firstTs).2, Datagram good path.pid bytes := by
  rw [pacingSendSegment, getFirstSegment]
  split_ifs with pending
  · cases queued : path.buf.entries with
    | nil => exact ⟨holds, rfl, fun bytes member => absurd member List.not_mem_nil⟩
    | cons entry rest =>
        have fine := holds entry (queued ▸ List.mem_cons_self)
        exact sendSegment_spec (holds.take entry.1 entry.2) unnumbered fine now firstTs
  · exact ⟨holds, rfl, fun bytes member => absurd member List.not_mem_nil⟩

theorem Holds.stopPath {path : PathSender} (holds : path.Holds good) :
    path.stopPath.Holds good := by
  rw [PathSender.stopPath]
  split_ifs
  · exact holds
  · exact fun entry member => absurd member List.not_mem_nil

theorem stopPath_pid (path : PathSender) : path.stopPath.pid = path.pid := by
  rw [stopPath]
  split_ifs <;> rfl

end PathSender

end MpVideo.Sender
