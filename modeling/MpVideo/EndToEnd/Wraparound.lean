import MpVideo.EndToEnd.Integrity
import MpVideo.Receiver.StreamCapacity

/-!
# A frame number is used again

Frame numbers have 32 bits. Of a key frame of two segments only the second arrives; the
first is lost, and so is every segment of the frames after it, until the number is given
to a frame again. That frame has one byte, and its segment completes the frame from
before: the sink gets a frame that nobody sent (`wrapped_mixes`).

The two datagrams that arrive have one byte of video each. The frames on the way are key
frames of two segments, each filled with one byte.
-/

set_option autoImplicit false

namespace MpVideo.EndToEnd

open Wire Sender Receiver

/-! ## The frames -/

/-- A key frame of two segments, filled with one byte. -/
def keyFrame (b : UInt8) : Frame where
  payloadType := 100
  ftype := 1
  data := List.replicate 1001 b
  short := by rw [List.length_replicate]; decide

theorem splits_keyFrame (b : UInt8) : (keyFrame b).splits = [List.replicate 1000 b, [b]] := by
  have sizes : frameSplit (keyFrame b).data.length = [1000, 1] := by
    rw [keyFrame, List.length_replicate]
    rfl
  rw [Frame.splits, sizes, List.splitLengths_cons, List.splitLengths_cons, List.splitLengths_nil,
    keyFrame, List.take_replicate, List.drop_replicate, List.take_replicate]
  exact congrArg (· :: [[b]]) (congrArg (List.replicate · b) (Nat.min_eq_left (by decide)))

/-- A key frame of one byte. -/
def keyByte (b : UInt8) : Frame where
  payloadType := 100
  ftype := 1
  data := [b]
  short := by rw [List.length_singleton]; decide

/-- The segment has a piece of a key frame. -/
structure IsPiece (fid : UInt32) (index total : UInt16) (bytes : List UInt8)
    (seg : SimSegment) : Prop where
  fid_eq : seg.fid = fid
  index_eq : seg.index = index
  total_eq : seg.total = total
  ftype_eq : seg.ftype = 1
  bytes_eq : seg.data.bytes = bytes

theorem segments_keyFrame (fid timestamp : UInt32) (b : UInt8) :
    ∃ first second, (keyFrame b).segments fid timestamp = [first, second] ∧
      IsPiece fid 0 2 (List.replicate 1000 b) first ∧ IsPiece fid 1 2 [b] second := by
  have total : (keyFrame b).total = 2 := by rw [Frame.total, splits_keyFrame]; rfl
  have long : (List.replicate 1000 b).take simVideoSize = List.replicate 1000 b :=
    List.take_of_length_le (by rw [List.length_replicate]; decide)
  refine ⟨(keyFrame b).segment fid timestamp (List.replicate 1000 b, 0),
    (keyFrame b).segment fid timestamp ([b], 1), ?_, ⟨rfl, rfl, total, rfl, long⟩,
    ⟨rfl, rfl, total, rfl, rfl⟩⟩
  rw [Frame.segments, splits_keyFrame, List.zipIdx_cons, List.zipIdx_cons, List.zipIdx_nil]
  rfl

theorem segments_keyByte (fid timestamp : UInt32) (b : UInt8) :
    ∃ only, (keyByte b).segments fid timestamp = [only] ∧ IsPiece fid 0 1 [b] only :=
  ⟨(keyByte b).segment fid timestamp ([b], 0), rfl, rfl, rfl, rfl, rfl, rfl⟩

/-! ## The sender -/

/-- A path with an empty queue; `n - 1` segments went through it. -/
structure ReadyPath (n : Nat) (path : PathSender) : Prop where
  pid_eq : path.pid = 1
  running : path.stop = false
  transSeq_eq : path.transSeq = UInt16.ofNat n
  packetSeed_eq : path.packetSeed = UInt32.ofNat n
  empty : path.buf = .empty
  paceMode_eq : path.paceMode = .noCongestion

/-- The segment is queued alone. -/
theorem ReadyPath.put_eq {n : Nat} {path : PathSender} (ready : ReadyPath n path)
    (seg : SimSegment) :
    ∃ queued, (path.put seg).1 = queued ∧ queued.pid = 1 ∧ queued.stop = false ∧
      queued.transSeq = UInt16.ofNat (n + 1) ∧ queued.packetSeed = UInt32.ofNat (n + 1) ∧
      queued.paceMode = .noCongestion ∧
      queued.buf = SortedMap.insert (UInt16.ofNat n) { seg with
        packetId := UInt32.ofNat n, transportSeq := UInt16.ofNat n } .empty := by
  obtain ⟨pid, running, transSeq, packetSeed, empty, mode⟩ := ready
  have other : ¬ path.paceMode = .noWebrtc := by simp [mode]
  rw [PathSender.put, if_neg (by simp [running])]
  simp only [if_neg other]
  exact ⟨_, rfl, pid, running, by rw [transSeq, UInt16.ofNat_add]; rfl,
    by rw [packetSeed, UInt32.ofNat_add]; rfl, mode, by rw [transSeq, packetSeed, empty]⟩

/-- A segment is put and sent at once. -/
theorem ReadyPath.send {n : Nat} {path : PathSender} (ready : ReadyPath n path) {fid : UInt32}
    {index total : UInt16} {bytes : List UInt8} {seg : SimSegment}
    (piece : IsPiece fid index total bytes seg) (firstTs : Int64) :
    ∃ next uid sent, (path.put seg).1.timeToSendPacket (UInt16.ofNat n) false 0 firstTs =
        (next, [messageBytes ⟨1, MsgId.simSeg.toUInt8, uid⟩ (.seg sent)]) ∧
      ReadyPath (n + 1) next ∧ IsPiece fid index total bytes sent ∧
      sent.packetId = UInt32.ofNat n := by
  obtain ⟨queued, put, pid, running, transSeq, packetSeed, mode, buf⟩ := ready.put_eq seg
  rw [put, PathSender.timeToSendPacket, if_neg (by simp [running]), PathSender.getSegment,
    if_neg (by simp [running]), buf, SortedMap.find?_insert, if_pos rfl]
  simp only [SortedMap.find?_empty, Option.getD_none]
  obtain ⟨sendTs, strm, sends⟩ := PathSender.sendSegment_eq 0 firstTs
    { seg with packetId := UInt32.ofNat n, transportSeq := UInt16.ofNat n }
    (queued.take (UInt16.ofNat n)
      { seg with packetId := UInt32.ofNat n, transportSeq := UInt16.ofNat n })
  refine ⟨_, queued.uid, _, sends.trans (by rw [← pid]; rfl), ?_, ?_, rfl⟩
  · refine ⟨pid, running, transSeq, packetSeed, ?_, mode⟩
    change queued.buf.erase _ = _
    rw [buf, SortedMap.erase_insert (SortedMap.find?_empty _)]
  · exact ⟨piece.fid_eq, piece.index_eq, piece.total_eq, piece.ftype_eq, piece.bytes_eq⟩

/-- A running sender whose path 1 has an empty queue. -/
structure Stage (fid schedule : UInt32) (pending : SortedMap UInt32 SimSegment) (n : Nat)
    (sender : MultipathSender) : Prop where
  frameSeed_eq : sender.frameSeed = fid
  scheduleSeed_eq : sender.scheduleSeed = schedule
  pendingBuf_eq : sender.pendingBuf = pending
  running : sender.stop = false
  path : ∃ path, sender.usablePath.find? 1 = some path ∧ ReadyPath n path

namespace Stage

variable {fid schedule : UInt32} {pending : SortedMap UInt32 SimSegment} {n : Nat}
  {sender : MultipathSender}

/-- A frame is taken: its segments are queued. -/
theorem sendVideo_eq (stage : Stage fid schedule pending n sender) (frame : Frame) :
    ∃ timestamp noted queued, Stage fid schedule pending n noted ∧
      noted.enqueue (frame.segments fid timestamp) = queued ∧
      sender.sendVideo 0 frame = { queued with frameSeed := queued.frameSeed + 1 } := by
  obtain ⟨firstTs, noted⟩ := MultipathSender.noteFirstTs_eq 0 sender
  obtain ⟨rfl, rfl, rfl, running, path⟩ := stage
  refine ⟨(0 - firstTs).toUInt64.toUInt32, { sender with firstTs }, _,
    ⟨rfl, rfl, rfl, running, path⟩, rfl, ?_⟩
  rw [MultipathSender.sendVideo, if_neg (by simp [running])]
  simp only [noted]

/-- A key frame of two segments is taken. -/
theorem sendVideo (stage : Stage fid schedule pending n sender) (b : UInt8) :
    ∃ first second, IsPiece fid 0 2 (List.replicate 1000 b) first ∧
      IsPiece fid 1 2 [b] second ∧
      Stage (fid + 1) (schedule + 1 + 1)
        ((pending.insert schedule first).insert (schedule + 1) second) n
        (sender.sendVideo 0 (keyFrame b)) := by
  obtain ⟨timestamp, noted, queued, ⟨rfl, rfl, rfl, running, path⟩, isQueued, taken⟩ :=
    stage.sendVideo_eq (keyFrame b)
  obtain ⟨first, second, segments, isFirst, isSecond⟩ :=
    segments_keyFrame noted.frameSeed timestamp b
  rw [segments] at isQueued
  rw [taken, ← isQueued]
  exact ⟨first, second, isFirst, isSecond, rfl, rfl, rfl, running, path⟩

/-- A key frame of one byte is taken. -/
theorem sendVideo_byte (stage : Stage fid schedule pending n sender) (b : UInt8) :
    ∃ only, IsPiece fid 0 1 [b] only ∧
      Stage (fid + 1) (schedule + 1) (pending.insert schedule only) n
        (sender.sendVideo 0 (keyByte b)) := by
  obtain ⟨timestamp, noted, queued, ⟨rfl, rfl, rfl, running, path⟩, isQueued, taken⟩ :=
    stage.sendVideo_eq (keyByte b)
  obtain ⟨only, segments, isOnly⟩ := segments_keyByte noted.frameSeed timestamp b
  rw [segments] at isQueued
  rw [taken, ← isQueued]
  exact ⟨only, isOnly, rfl, rfl, rfl, running, path⟩

/-- A pending segment is assigned to path 1 and sent. -/
theorem send (stage : Stage fid schedule pending n sender) {scheduleId : UInt32}
    {seg : SimSegment} (found : pending.find? scheduleId = some seg) {number : UInt32}
    {index total : UInt16} {bytes : List UInt8} (piece : IsPiece number index total bytes seg) :
    ∃ next uid sent,
      (sender.packetSchedule scheduleId 1).timeToSendPacket 1 (UInt16.ofNat n) false 0 =
        (next, [messageBytes ⟨1, MsgId.simSeg.toUInt8, uid⟩ (.seg sent)]) ∧
      Stage fid schedule (pending.erase scheduleId) (n + 1) next ∧
      IsPiece number index total bytes sent ∧ sent.packetId = UInt32.ofNat n := by
  obtain ⟨frameSeed, scheduleSeed, rfl, running, path, usable, ready⟩ := stage
  obtain ⟨next, uid, sent, sends, after, isPiece, packetId⟩ := ready.send piece sender.firstTs
  rw [MultipathSender.packetSchedule, found]
  simp only [usable, MultipathSender.timeToSendPacket, SortedMap.find?_set_self, sends]
  exact ⟨_, uid, sent, rfl, ⟨frameSeed, scheduleSeed, rfl, running, next,
    SortedMap.find?_set_self .., after⟩, isPiece, packetId⟩

end Stage

/-! ## Frames sent -/

/-- The schedule id of the first segment of the frame at a position. -/
def scheduleId (k : Nat) : UInt32 := UInt32.ofNat (2 * k + 1)

/-- A frame is taken, and both its segments are sent on path 1. -/
def frameEvents (k : Nat) (b : UInt8) : List SystemEvent :=
  [.sendVideo 0 (keyFrame b),
    .packetSchedule (scheduleId k) 1, .timeToSendPacket 1 (UInt16.ofNat (2 * k + 1)) false 0,
    .packetSchedule (scheduleId k + 1) 1, .timeToSendPacket 1 (UInt16.ofNat (2 * k + 2)) false 0]

/-- The sender before the frame at a position. -/
abbrev Before (k : Nat) (sender : MultipathSender) : Prop :=
  Stage (frameId k) (scheduleId k) .empty (2 * k + 1) sender

/-- The datagram of a segment on path 1. -/
def datagram (uid : UInt32) (seg : SimSegment) : UInt8 × List UInt8 :=
  (1, messageBytes ⟨1, MsgId.simSeg.toUInt8, uid⟩ (.seg seg))

theorem scheduleId_succ (k : Nat) : scheduleId k + 1 + 1 = scheduleId (k + 1) := by
  apply UInt32.toNat_inj.mp
  simp only [scheduleId, UInt32.toNat_add, UInt32.toNat_ofNat', UInt32.reduceToNat]
  omega

theorem scheduleId_ne (k : Nat) : scheduleId k ≠ scheduleId k + 1 := by
  intro same
  have equal := congrArg UInt32.toNat same
  have small := UInt32.toNat_lt (scheduleId k)
  simp only [UInt32.toNat_add, UInt32.reduceToNat] at equal
  omega

/-- The only segment that waits is found. -/
theorem find?_alone (id : UInt32) (seg : SimSegment) :
    (SortedMap.insert id seg .empty).find? id = some seg := by
  rw [SortedMap.find?_insert, if_pos rfl]
  rfl

/-- **A frame puts two datagrams on the wire.** -/
theorem run_frame {k : Nat} (system : System) (before : Before k system.sender) (b : UInt8) :
    ∃ sender uid first uid' second,
      System.machine.run system (frameEvents k b) = some ({ system with
        sender, wire := system.wire ++ [datagram uid first, datagram uid' second] }, []) ∧
      Before (k + 1) sender ∧
      IsPiece (frameId k) 1 2 [b] second ∧ second.packetId = UInt32.ofNat (2 * k + 2) := by
  obtain ⟨first, second, isFirst, isSecond, taken⟩ := before.sendVideo b
  have lookup : ((SortedMap.insert (scheduleId k) first .empty).insert (scheduleId k + 1)
      second).find? (scheduleId k) = some first := by
    rw [SortedMap.find?_insert, if_neg (scheduleId_ne k)]
    exact find?_alone _ _
  obtain ⟨middle, uid, sent, sends, stage, -, -⟩ := taken.send lookup isFirst
  have left : ((SortedMap.insert (scheduleId k) first .empty).insert (scheduleId k + 1)
      second).erase (scheduleId k) = SortedMap.insert (scheduleId k + 1) second .empty := by
    apply SortedMap.ext_find?
    intro id
    simp only [SortedMap.find?_erase, SortedMap.find?_insert, SortedMap.find?_empty,
      (scheduleId_ne k).symm, if_false]
    split_ifs with one two
    · exact absurd (one.symm.trans two) (scheduleId_ne k)
    all_goals rfl
  rw [left] at stage
  obtain ⟨last, uid', sent', sends', after, sentSecond, secondId⟩ :=
    stage.send (find?_alone _ _) isSecond
  rw [SortedMap.erase_insert (SortedMap.find?_empty _), frameId_succ, scheduleId_succ] at after
  refine ⟨last, uid, sent, uid', sent', ?_, after, sentSecond, secondId⟩
  simp only [frameEvents, Machine.run, System.machine, System.handle, System.transmit, sends, sends',
    Option.bind_some, Option.map_some, List.map_cons, List.map_nil, List.append_assoc,
    List.append_nil]
  rfl

/-- A frame of one byte is taken, and its segment is sent on path 1. -/
def byteEvents (k : Nat) (b : UInt8) : List SystemEvent :=
  [.sendVideo 0 (keyByte b), .packetSchedule (scheduleId k) 1,
    .timeToSendPacket 1 (UInt16.ofNat (2 * k + 1)) false 0]

/-- A frame of one byte puts one datagram on the wire. -/
theorem run_byte {k : Nat} (system : System) (before : Before k system.sender) (b : UInt8) :
    ∃ sender uid only,
      System.machine.run system (byteEvents k b) = some ({ system with
        sender, wire := system.wire ++ [datagram uid only] }, []) ∧
      IsPiece (frameId k) 0 1 [b] only ∧ only.packetId = UInt32.ofNat (2 * k + 1) := by
  obtain ⟨only, isOnly, taken⟩ := before.sendVideo_byte b
  obtain ⟨last, uid, sent, sends, -, sentOnly, onlyId⟩ := taken.send (find?_alone _ _) isOnly
  refine ⟨last, uid, sent, ?_, sentOnly, onlyId⟩
  simp only [byteEvents, Machine.run, System.machine, System.handle, System.transmit, sends,
    Option.bind_some, Option.map_some, List.map_cons, List.map_nil, List.append_nil]
  rfl

/-- The events of the frames from one position on. -/
def manyFrames (b : UInt8) : Nat → Nat → List SystemEvent
  | _, 0 => []
  | k, m + 1 => frameEvents k b ++ manyFrames b (k + 1) m

/-- Frames whose datagrams do not arrive change the sender and the wire only. -/
theorem run_manyFrames (b : UInt8) {k : Nat} (system : System)
    (before : Before k system.sender) (m : Nat) :
    ∃ sender lost, System.machine.run system (manyFrames b k m) =
        some ({ system with sender, wire := system.wire ++ lost }, []) ∧
      lost.length = 2 * m ∧ Before (k + m) sender := by
  induction m generalizing k system with
  | zero => exact ⟨system.sender, [], by simp [manyFrames, Machine.run], rfl, before⟩
  | succ m ih =>
      obtain ⟨sender, uid, first, uid', second, ran, after, -⟩ := run_frame system before b
      obtain ⟨last, lost, onwards, length, final⟩ := ih { system with
        sender, wire := system.wire ++ [datagram uid first, datagram uid' second] } after
      refine ⟨last, datagram uid first :: datagram uid' second :: lost, ?_, ?_, ?_⟩
      · refine Machine.run_append.mpr ⟨_, [], [], ran, ?_, rfl⟩
        simpa only [List.append_assoc, List.cons_append, List.nil_append] using onwards
      · rw [List.length_cons, List.length_cons, length]
        omega
      · rwa [show k + 1 + m = k + (m + 1) by omega] at final

/-! ## Two segments received -/

/-- The only frame of the cache is forwarded when its two slots are filled. -/
theorem forwarded_pair {receiver : MultipathReceiver} (first second : VideoPacket)
    (sink : receiver.sink = true)
    {entry : UInt32 × VideoFrame} (only : receiver.frameCache.entries = [entry]) {now : UInt32}
    (ready : entry.2.ready now = true)
    (packets : entry.2.packets = [some first, some second]) :
    (receiver.checkDeliverFrame now).2.filterMap forwarded =
      [⟨entry.2.fid, first.seg.data.bytes ++ second.seg.data.bytes, entry.2.recv,
        entry.2.total⟩] := by
  have data : entry.2.data = first.seg.data.bytes ++ second.seg.data.bytes := by
    simp [VideoFrame.data, VideoFrame.present, packets, List.reduceOption]
  rw [MultipathReceiver.forwarded_checkDeliverFrame, only, ← data]
  simp only [MultipathReceiver.checkLoop, ready, if_true, List.append_nil]
  exact MultipathReceiver.forwarded_releaseFrame sink now entry.2

/-- **Two segments with one frame number are forwarded together**, wherever they come
from: the number of segments is that of the one which arrived first. -/
theorem deliverToCache_pair {two : List UInt8} {second : SimSegment}
    (isSecond : IsPiece 1 1 2 two second) (waitting : UInt32) (sentFirstTs : Int64) :
    ∃ half, (MultipathReceiver.registered false false false).deliverToCache
        ⟨0, waitting, sentFirstTs⟩ 1 second = some (half, []) ∧
      ∀ one first waitting, IsPiece 1 0 1 one first →
        ∃ last calls,
          half.deliverToCache ⟨0, waitting, sentFirstTs⟩ 1 first = some (last, calls) ∧
            calls.filterMap forwarded = [⟨1, one ++ two, 2, 2⟩] := by
  obtain ⟨id, fid, timestamp, index, total, ftype, payloadType, remb, sendTs, seq, data⟩ := second
  obtain ⟨rfl, rfl, rfl, rfl, rfl⟩ := isSecond
  refine ⟨_, rfl, ?_⟩
  intro one first waitting isFirst
  obtain ⟨id', fid', timestamp', index', total', ftype', payloadType', remb', sendTs', seq',
    data'⟩ := first
  obtain ⟨rfl, rfl, rfl, rfl, rfl⟩ := isFirst
  refine ⟨_, _, rfl, ?_⟩
  rw [List.nil_append]
  refine (forwarded_pair
    ⟨1, 1, ⟨id', 1, timestamp', 0, 1, 1, payloadType', remb', sendTs', seq', data'⟩⟩
    ⟨0, 1, ⟨id, 1, timestamp, 1, 2, 1, payloadType, remb, sendTs, seq, data⟩⟩
    rfl rfl ?_ ?_).trans ?_
  · rfl
  · rfl
  · rfl

/-- A path on which the sequence tables keep the next segment. -/
structure Open (path : PathReceiver) (packetId : UInt32) : Prop where
  pid_eq : path.pid = 1
  running : path.stop = false
  kept : path.tables.dropped packetId = false
  size : path.strm.size = defaultPacketSize

/-- The datagram of a piece of at most 990 bytes reaches the multipath receiver. -/
theorem arrive_piece (system : System) {n : Nat} {uid : UInt32} {seg : SimSegment}
    (onWire : system.wire[n]? = some (datagram uid seg)) {fid : UInt32} {index total : UInt16}
    {bytes : List UInt8} (piece : IsPiece fid index total bytes seg) (small : index ≤ 255)
    (short : bytes.length ≤ 990)
    {path : PathReceiver} (found : system.paths.find? 1 = some path)
    (isOpen : Open path seg.packetId) (env : Env) :
    ∃ next, next.pid = 1 ∧ next.stop = false ∧
      next.tables = path.tables.arrive seg.packetId seg.index ∧
      next.strm.size = defaultPacketSize ∧
      system.arrive n env = System.deliver env [(1, seg.received)]
        { system with paths := system.paths.set 1 next } := by
  obtain ⟨pid, running, kept, size⟩ := isOpen
  have legal : (SimBody.seg seg).Legal := fun _ => piece.index_eq ▸ small
  have smallSegment : PathReceiver.SmallSegment (.seg seg) := by
    have length : seg.data.bytes.length ≤ 990 := piece.bytes_eq ▸ short
    change seg.data.size ≤ 990 at length
    simp only [PathReceiver.SmallSegment]
    split_ifs <;> omega
  obtain ⟨strm, received⟩ := PathReceiver.recvPacket_segment
    ⟨1, MsgId.simSeg.toUInt8, uid⟩ pid.symm rfl legal env
    (size ▸ (PathReceiver.smallSegment_iff _ _).mp smallSegment)
  have still : ({ path with strm } : PathReceiver).stop = false := running
  obtain ⟨tables, samePid, sameStop, calls⟩ :=
    PathReceiver.onReceiveSegment_spec still env seg.received
  have handed : deliveries (PathReceiver.onReceiveSegment env seg.received
      { path with strm }).2 = [(1, seg.received)] :=
    calls.trans ((if_neg (Bool.not_eq_true _ ▸ kept)).trans
      (congrArg (fun pid => [(pid, _)]) pid))
  have arrived : path.handle (.recvPacket env true
      (messageBytes ⟨1, MsgId.simSeg.toUInt8, uid⟩ (.seg seg))) =
        some (PathReceiver.onReceiveSegment env seg.received { path with strm }) := received
  have sameSize := PathReceiver.handle_size size arrived
  refine ⟨_, samePid.trans pid, sameStop, tables, sameSize, ?_⟩
  rw [System.arrive, onWire]
  simp only [datagram, found, received, Option.bind_some, handed]

theorem IsPiece.received {fid : UInt32} {index total : UInt16} {bytes : List UInt8}
    {seg : SimSegment} (piece : IsPiece fid index total bytes seg) :
    IsPiece fid index total bytes seg.received where
  fid_eq := piece.fid_eq
  index_eq := piece.index_eq
  total_eq := piece.total_eq
  ftype_eq := by
    change seg.ftype &&& 0x01 = 1
    rw [piece.ftype_eq]
    rfl
  bytes_eq := piece.bytes_eq

theorem deliver_one {env : Env} {seg : SimSegment} {system : System}
    {result : MultipathReceiver × List CacheCall}
    (defined : system.receiver.deliverToCache (System.cacheEnv env system.paths) 1 seg =
      some result) :
    System.deliver env [(1, seg)] system = some (system.answer result) := by
  rw [System.deliver, defined, Option.bind_some]
  simp only [System.deliver, Option.map_some, List.append_nil]

/-! ## One frame too many -/

/-- The arrivals take place at time zero, and no sender end is registered. -/
def atStart : Env := ⟨0, none⟩

/-- A path is connected, and the second segment of the first frame arrives. -/
def firstHalf (x : UInt8) : List SystemEvent :=
  [.registerPath .noCongestion, .connect 1 { uid := 9 }] ++
    (frameEvents 0 x ++ [.arrive 1 atStart])

/-- The run: after the second segment of the first frame `m` frames are lost, and one
more frame, of one byte, arrives. -/
def wrapped (x y : UInt8) (m : Nat) : List SystemEvent :=
  firstHalf x ++ (manyFrames x 1 m ++ (byteEvents (1 + m) y ++ [.arrive (2 * m + 2) atStart]))

theorem run_arrive {system : System} {n : Nat} {env : Env} {result : System × List CacheCall}
    (arrives : system.arrive n env = some result) :
    System.machine.run system [.arrive n env] = some result :=
  Machine.run_cons.mpr ⟨result.1, result.2, [], arrives, rfl, List.append_nil _⟩

/-- The multipath receiver waits for the first segment of frame 1. -/
structure HalfReceived (bytes : List UInt8) (system : System) : Prop where
  before : Before 1 system.sender
  onWire : system.wire.length = 2
  path : ∃ path, system.paths.find? 1 = some path ∧ Open path 1
  completes : ∀ one first waitting, IsPiece 1 0 1 one first →
    ∃ last calls,
      system.receiver.deliverToCache ⟨0, waitting, -1⟩ 1 first = some (last, calls) ∧
        calls.filterMap forwarded = [⟨1, one ++ bytes, 2, 2⟩]

theorem run_firstHalf (x : UInt8) :
    ∃ system, System.machine.run (System.start 7 false false false) (firstHalf x) =
        some (system, []) ∧ HalfReceived [x] system := by
  obtain ⟨connected, began, before, unsent, unused, onlyPath⟩ :
      ∃ connected, System.machine.run (System.start 7 false false false)
          [.registerPath .noCongestion, .connect 1 { uid := 9 }] = some (connected, []) ∧
        Before 0 connected.sender ∧ connected.wire = [] ∧
        connected.receiver = MultipathReceiver.registered false false false ∧
        connected.paths.find? 1 = some { uid := 9, pid := 1 } :=
    ⟨_, rfl, ⟨rfl, rfl, rfl, rfl, _, rfl, ⟨rfl, rfl, rfl, rfl, rfl, rfl⟩⟩, rfl, rfl, rfl⟩
  obtain ⟨sender, uid, first, uid', second, ran, after, isSecond, secondId⟩ :=
    run_frame connected before x
  rw [unsent, List.nil_append] at ran
  obtain ⟨path, pid, running, tables, size, arrives⟩ := arrive_piece (n := 1)
    { connected with
      sender, wire := [datagram uid first, datagram uid' second] }
    rfl isSecond (by decide) (by rw [List.length_singleton]; decide) onlyPath
    ⟨rfl, rfl, by rw [secondId]; decide, rfl⟩ atStart
  obtain ⟨half, stored, completes⟩ := deliverToCache_pair isSecond.received
    (System.getWaittingDuration (connected.paths.set 1 path)) (-1)
  rw [deliver_one (by rw [unused]; exact stored)] at arrives
  refine ⟨_, Machine.run_trans began (Machine.run_trans ran (run_arrive arrives)), after, rfl,
    ⟨path, SortedMap.find?_set_self .., pid, running, ?_, size⟩, completes⟩
  rw [tables, secondId, isSecond.index_eq]
  decide

/-- **The segments of two frames with one number are forwarded as one frame.** -/
theorem run_wrapped (x y : UInt8) {m : Nat} (again : 2 ^ 32 ∣ m + 1) :
    ∃ last calls, System.machine.run (System.start 7 false false false) (wrapped x y m) =
        some (last, calls) ∧ calls.filterMap forwarded = [⟨1, [y, x], 2, 2⟩] := by
  obtain ⟨turns, turnsEq⟩ := again
  have number : frameId (1 + m) = 1 := by
    apply UInt32.toNat_inj.mp
    simp only [frameId, UInt32.toNat_ofNat', UInt32.reduceToNat]
    omega
  have packet : UInt32.ofNat (2 * (1 + m) + 1) = 1 := by
    apply UInt32.toNat_inj.mp
    simp only [UInt32.toNat_ofNat', UInt32.reduceToNat]
    omega
  obtain ⟨system, ranFirst, before, onWire, ⟨path, found, isOpen⟩, completes⟩ := run_firstHalf x
  obtain ⟨sender, lost, ranLost, length, after⟩ := run_manyFrames x system before m
  obtain ⟨sender', uid, only, ranLast, isOnly, onlyId⟩ :=
    run_byte { system with sender, wire := system.wire ++ lost } after y
  rw [number] at isOnly
  rw [packet] at onlyId
  have sent : (system.wire ++ lost ++ [datagram uid only])[2 * m + 2]? =
      some (datagram uid only) := by
    have before : (system.wire ++ lost).length = 2 * m + 2 := by
      rw [List.length_append, length, onWire, Nat.add_comm]
    rw [List.getElem?_append_right (by omega), before, Nat.sub_self]
    rfl
  obtain ⟨next, -, -, -, -, arrives⟩ := arrive_piece (n := 2 * m + 2)
    { system with
      sender := sender'
      wire := system.wire ++ lost ++ [datagram uid only] }
    sent isOnly (by decide) (by rw [List.length_singleton]; decide) found (onlyId ▸ isOpen) atStart
  obtain ⟨last, calls, completed, forwards⟩ := completes _ only.received
    (System.getWaittingDuration (system.paths.set 1 next)) isOnly.received
  have ranArrival := run_arrive (arrives.trans (deliver_one completed))
  have fromLost := Machine.run_trans ranLost (Machine.run_trans ranLast ranArrival)
  exact ⟨_, _, Machine.run_trans ranFirst fromLost, forwards⟩

/-! ## What was sent -/

theorem mem_videoFrames {events : List SystemEvent} {frame : Frame}
    (member : frame ∈ System.videoFrames events) :
    ∃ now, SystemEvent.sendVideo now frame ∈ events := by
  induction events with
  | nil => exact absurd member List.not_mem_nil
  | cons event rest ih =>
      have later : frame ∈ System.videoFrames rest →
          ∃ now, SystemEvent.sendVideo now frame ∈ event :: rest := by
        intro inRest
        obtain ⟨now, found⟩ := ih inRest
        exact ⟨now, List.mem_cons_of_mem _ found⟩
      cases event with
      | sendVideo now other =>
          rcases List.mem_cons.mp member with rfl | inRest
          · exact ⟨now, List.mem_cons_self⟩
          · exact later inRest
      | stopSender => exact absurd member List.not_mem_nil
      | _ => exact later member

theorem mem_manyFrames {b : UInt8} {k m : Nat} {now : Int64} {frame : Frame}
    (member : SystemEvent.sendVideo now frame ∈ manyFrames b k m) : frame = keyFrame b := by
  induction m generalizing k with
  | zero => exact absurd member List.not_mem_nil
  | succ m ih =>
      cases List.mem_append.mp member with
      | inl here =>
          have sent : now = 0 ∧ frame = keyFrame b := by simpa [frameEvents] using here
          exact sent.2
      | inr later => exact ih later

/-- Every frame of the run is filled with one byte. -/
theorem mem_wrapped {x y : UInt8} {m : Nat} {frame : Frame}
    (member : frame ∈ System.videoFrames (wrapped x y m)) :
    ∃ b, ∀ byte ∈ frame.data, byte = b := by
  obtain ⟨now, sent⟩ := mem_videoFrames member
  simp only [wrapped, firstHalf, frameEvents, byteEvents, List.mem_append, List.mem_cons,
    List.not_mem_nil, or_false,
    reduceCtorEq, false_or, or_false, SystemEvent.sendVideo.injEq] at sent
  have filled : ∀ b, ∀ byte ∈ (keyFrame b).data, byte = b :=
    fun _ _ inFrame => List.eq_of_mem_replicate inFrame
  rcases sent with ⟨-, rfl⟩ | many | ⟨-, rfl⟩
  · exact ⟨x, filled x⟩
  · exact ⟨x, mem_manyFrames many ▸ filled x⟩
  · exact ⟨y, fun _ inFrame => List.mem_singleton.mp inFrame⟩

/-- **A mixed frame is not one that was sent.** -/
theorem not_integrity_wrapped {x y : UInt8} (differ : x ≠ y) {m : Nat}
    (again : 2 ^ 32 ∣ m + 1) :
    ∃ last calls,
      System.machine.run (System.start 7 false false false) (wrapped x y m) =
        some (last, calls) ∧
        ¬ Integrity (System.videoFrames (wrapped x y m)) (calls.filterMap forwarded) := by
  obtain ⟨last, calls, ran, forwards⟩ := run_wrapped x y again
  refine ⟨last, calls, ran, fun integrity => ?_⟩
  obtain ⟨k, frame, found, -, -, ⟨-, whole⟩ | ⟨part, -⟩⟩ :=
    integrity.faithful _ (forwards ▸ List.mem_singleton_self _)
  · obtain ⟨b, filled⟩ := mem_wrapped (List.mem_of_getElem? found)
    have first : y = b := filled y (whole ▸ List.mem_cons_self)
    have second : x = b := filled x (whole ▸ List.mem_cons_of_mem _ List.mem_cons_self)
    exact differ (second.trans first.symm)
  · exact absurd part (lt_irrefl _)

/-- After `2 ^ 32` frames, the frame of a one completes the first, of zeros. -/
theorem wrapped_mixes :
    ∃ last calls,
      System.machine.run (System.start 7 false false false) (wrapped 0 1 4294967295) =
        some (last, calls) ∧
        ¬ Integrity (System.videoFrames (wrapped 0 1 4294967295))
          (calls.filterMap forwarded) :=
  not_integrity_wrapped (by decide) (by decide)

end MpVideo.EndToEnd
