import MpVideo.V1.Retransmission
import MpVideo.V1.TimeBase

/-!
# Stale packets

`MpSenderV1` numbers the packets of its frames. A packet waits in `pend_buf_` until it is
scheduled, in any order, and then stays in `sent_buf_` for retransmissions. `CheckStalePacket`
erases packets from the front of `sent_buf_`, in the order of their ids, until it finds one
that is not stale.

As long as the ids have not wrapped, a packet with a greater id was not made earlier, and the
sweep leaves exactly the packets that are at most 500 milliseconds old
(`checkStalePacket_exact`). The first packet after the wrap is the youngest one and comes
first, so that no other packet is erased while it is not stale (`stale_after_wrap`).
-/

set_option autoImplicit false

namespace MpVideo.V1


/-- `max_packet_delay_threshold`. -/
def maxPacketDelayThreshold : UInt32 := 500

/-- `IsStale`. -/
def VideoPacketWrapper.isStale (now threshold : UInt32) (packet : VideoPacketWrapper) : Bool :=
  now - packet.generateTs > threshold

/-- `CheckStalePacket`. -/
def PathTables.checkStalePacket (now : UInt32) (tables : PathTables) : PathTables :=
  { tables with sentBuf := tables.sentBuf.dropWhile (·.isStale now maxPacketDelayThreshold) }

/-- The members of `MpSenderV1` that a packet passes, with the time, and the number of packets
that were made so far. -/
structure SenderBuffers where
  sender : MpSenderV1 := {}
  tables : PathTables
  now : UInt32 := 0
  generated : ℕ := 0

namespace SenderBuffers

/-- `PacketSchedule`. A packet that does not wait in `pend_buf_` is undefined (`none`); one
for a path that is not usable is dropped. What the paths write into a packet afterwards is
not read here. -/
def packetSchedule (now packetId : UInt32) (pid : UInt8) (s : SenderBuffers) :
    Option SenderBuffers :=
  if s.tables.runing then
    match s.sender.pendBuf.find? packetId with
    | none => none
    | some packet =>
        let s := { s with
          sender := { s.sender with pendBuf := s.sender.pendBuf.erase packetId } }
        match s.tables.usablePaths.find? pid with
        | some path => some { s with
            tables := { s.tables with
              usablePaths := s.tables.usablePaths.set pid
                (path.onVideoPacket now packetId packet false)
              sentBuf := s.tables.sentBuf.insert packetId packet } }
        | none => some s
  else some s

/-- What happens to the buffers. -/
inductive Call where
  | onVideoFrame (frame : Frame)
  | packetSchedule (packetId : UInt32) (pid : UInt8)
  | packetRetrans (packetId : UInt32) (pid : UInt8)
  | checkStalePacket
  | onNetworkAvailable (pid : UInt8)
  | onNetworkStop (pid : UInt8)

/-- A call at a time. -/
def call (now : UInt32) (s : SenderBuffers) : Call → Option SenderBuffers
  | .onVideoFrame frame => some { s with
      sender := (s.sender.onVideoFrame now frame).1
      generated := s.generated + frame.splits.length }
  | .packetSchedule packetId pid => s.packetSchedule now packetId pid
  | .packetRetrans packetId pid =>
      some { s with tables := s.tables.packetRetrans now packetId pid }
  | .checkStalePacket => some { s with tables := s.tables.checkStalePacket now }
  | .onNetworkAvailable pid => some { s with tables := s.tables.onNetworkAvailable pid }
  | .onNetworkStop pid => some { s with tables := s.tables.onNetworkStop pid }

/-- The calls come at times that do not decrease. -/
def machine : Machine SenderBuffers (UInt32 × Call) Empty where
  step s event :=
    if s.now ≤ event.1 then
      (s.call event.1 event.2).map fun next => ({ next with now := event.1 }, [])
    else none

/-- The sender before the first frame, with any paths. -/
def fresh (paths : PathTables) : SenderBuffers := { tables := { paths with sentBuf := .empty } }

/-- The ids for which `PacketSchedule` is called. -/
def scheduled (events : List (UInt32 × Call)) : List UInt32 :=
  events.filterMap fun event =>
    match event.2 with
    | .packetSchedule packetId _ => some packetId
    | _ => none

/-- A sweep leaves exactly the packets that were made at most 500 milliseconds ago. -/
def SweepsExactly (now : UInt32) (s next : SenderBuffers) : Prop :=
  ∀ entry, entry ∈ next.tables.sentBuf.entries ↔
    entry ∈ s.tables.sentBuf.entries ∧ now.toNat ≤ entry.2.generateTs.toNat + 500

end SenderBuffers

/-! ## Packets of a frame -/

namespace MpSenderV1

variable {now timestamp : UInt32} {frame : Frame} {sender : MpSenderV1}

theorem packetLoop_packetId (pieces : List (List UInt8 × Nat)) (sender : MpSenderV1) :
    (sender.packetLoop now timestamp frame pieces).1.packetId =
      sender.packetId + UInt32.ofNat pieces.length := by
  induction pieces generalizing sender with
  | nil => exact (UInt32.add_zero _).symm
  | cons piece rest ih =>
      rw [packetLoop]
      refine (ih _).trans ?_
      rw [List.length_cons, Nat.add_comm, UInt32.ofNat_add, ← UInt32.add_assoc]
      rfl

/-- What waits after the loop did so before, or was made now with one of the next ids. -/
theorem mem_packetLoop {pieces : List (List UInt8 × Nat)} {entry : UInt32 × VideoPacketWrapper}
    (member : entry ∈ (sender.packetLoop now timestamp frame pieces).1.pendBuf.entries) :
    entry ∈ sender.pendBuf.entries ∨ entry.2.generateTs = now ∧
      ∃ i < pieces.length, entry.1 = sender.packetId + UInt32.ofNat i := by
  induction pieces generalizing sender with
  | nil => exact .inl member
  | cons piece rest ih =>
      rw [packetLoop] at member
      rcases ih member with before | ⟨made, i, below, id⟩
      · rcases SortedMap.mem_insert_of before with rfl | old
        · exact .inr ⟨rfl, 0, Nat.succ_pos _, (UInt32.add_zero _).symm⟩
        · exact .inl old
      · refine .inr ⟨made, i + 1, Nat.succ_lt_succ below, ?_⟩
        rw [id, Nat.add_comm i 1, UInt32.ofNat_add, ← UInt32.add_assoc]
        rfl

/-- Every id of the loop waits afterwards, and so does every other id that did before. -/
theorem mem_keys_packetLoop {pieces : List (List UInt8 × Nat)} {id : UInt32}
    (waits : id ∈ sender.pendBuf.keys ∨
      ∃ i < pieces.length, id = sender.packetId + UInt32.ofNat i) :
    id ∈ (sender.packetLoop now timestamp frame pieces).1.pendBuf.keys := by
  induction pieces generalizing sender with
  | nil =>
      rcases waits with old | ⟨i, below, -⟩
      · exact old
      · exact absurd below (Nat.not_lt_zero i)
  | cons piece rest ih =>
      rw [packetLoop]
      apply ih
      rcases waits with old | ⟨i, below, rfl⟩
      · exact .inl (SortedMap.mem_keys_insert.mpr (.inr old))
      · cases i with
        | zero => exact .inl (SortedMap.mem_keys_insert.mpr (.inl (UInt32.add_zero _)))
        | succ i =>
            refine .inr ⟨i, Nat.lt_of_succ_lt_succ below, ?_⟩
            rw [Nat.add_comm i 1, UInt32.ofNat_add, ← UInt32.add_assoc]
            rfl

theorem noteFirstTs_packetId (time : Int64) (sender : MpSenderV1) :
    (sender.noteFirstTs time).packetId = sender.packetId := by
  rw [noteFirstTs]
  split_ifs <;> rfl

theorem noteFirstTs_pendBuf (time : Int64) (sender : MpSenderV1) :
    (sender.noteFirstTs time).pendBuf = sender.pendBuf := by
  rw [noteFirstTs]
  split_ifs <;> rfl

theorem onVideoFrame_packetId (now : UInt32) (frame : Frame) (sender : MpSenderV1) :
    (sender.onVideoFrame now frame).1.packetId =
      sender.packetId + UInt32.ofNat frame.splits.length := by
  refine (packetLoop_packetId ..).trans ?_
  rw [noteFirstTs_packetId, List.length_zipIdx]

/-- **What a frame makes**: packets of this time under the next ids. -/
theorem mem_onVideoFrame {entry : UInt32 × VideoPacketWrapper}
    (member : entry ∈ (sender.onVideoFrame now frame).1.pendBuf.entries) :
    entry ∈ sender.pendBuf.entries ∨ entry.2.generateTs = now ∧
      ∃ i < frame.splits.length, entry.1 = sender.packetId + UInt32.ofNat i := by
  have made := mem_packetLoop member
  rwa [noteFirstTs_packetId, noteFirstTs_pendBuf, List.length_zipIdx] at made

theorem mem_keys_onVideoFrame {id : UInt32}
    (waits : id ∈ sender.pendBuf.keys ∨
      ∃ i < frame.splits.length, id = sender.packetId + UInt32.ofNat i) :
    id ∈ (sender.onVideoFrame now frame).1.pendBuf.keys := by
  apply mem_keys_packetLoop
  rwa [noteFirstTs_packetId, noteFirstTs_pendBuf, List.length_zipIdx]

end MpSenderV1

/-! ## The order of the packets -/

namespace SenderBuffers

variable {s next : SenderBuffers} {now : UInt32} {out : List Empty}

/-- The packets that wait, and those that were sent. -/
def buffered (s : SenderBuffers) : List (UInt32 × VideoPacketWrapper) :=
  s.sender.pendBuf.entries ++ s.tables.sentBuf.entries

/-- The ids were given in order, at times that did not decrease. -/
structure Ordered (s : SenderBuffers) : Prop where
  packetId : s.sender.packetId = UInt32.ofNat (s.generated + 1)
  below : ∀ entry ∈ s.buffered, entry.1.toNat ≤ s.generated
  past : ∀ entry ∈ s.buffered, entry.2.generateTs ≤ s.now
  ordered : ∀ earlier ∈ s.buffered, ∀ later ∈ s.buffered, earlier.1 ≤ later.1 →
    earlier.2.generateTs ≤ later.2.generateTs

theorem ordered_fresh (paths : PathTables) : (fresh paths).Ordered where
  packetId := rfl
  below _ member := absurd member List.not_mem_nil
  past _ member := absurd member List.not_mem_nil
  ordered _ member := absurd member List.not_mem_nil

/-- No packet is made: those that are there were there before. -/
structure MakesNone (s next : SenderBuffers) : Prop where
  packetId : next.sender.packetId = s.sender.packetId
  generated : next.generated = s.generated
  subset : ∀ entry ∈ next.buffered, entry ∈ s.buffered

/-- What makes no packet keeps the order. -/
theorem Ordered.of_makesNone (ordered : s.Ordered) (later : s.now ≤ now)
    (none : MakesNone s next) : Ordered { next with now := now } where
  packetId := by
    change next.sender.packetId = UInt32.ofNat (next.generated + 1)
    rw [none.packetId, none.generated]
    exact ordered.packetId
  below entry member := by
    change entry.1.toNat ≤ next.generated
    rw [none.generated]
    exact ordered.below entry (none.subset entry member)
  past entry member := UInt32.le_trans (ordered.past entry (none.subset entry member)) later
  ordered first isFirst second isSecond :=
    ordered.ordered first (none.subset first isFirst) second (none.subset second isSecond)

/-- **A frame keeps the order**, unless the ids wrap. -/
theorem Ordered.onVideoFrame (ordered : s.Ordered) (later : s.now ≤ now) (frame : Frame)
    (few : s.generated + frame.splits.length < 2 ^ 32) :
    Ordered { s with
      sender := (s.sender.onVideoFrame now frame).1
      generated := s.generated + frame.splits.length
      now := now } := by
  have cases : ∀ entry ∈ buffered { s with sender := (s.sender.onVideoFrame now frame).1 },
      entry ∈ s.buffered ∨ entry.2.generateTs = now ∧ s.generated < entry.1.toNat ∧
        entry.1.toNat ≤ s.generated + frame.splits.length := by
    intro entry member
    rcases List.mem_append.mp member with waits | sent
    · rcases MpSenderV1.mem_onVideoFrame waits with old | ⟨made, i, below, id⟩
      · exact .inl (List.mem_append_left _ old)
      · refine .inr ⟨made, ?_⟩
        rw [id, ordered.packetId, ← UInt32.ofNat_add,
          UInt32.toNat_ofNat_of_lt' (show _ < 2 ^ 32 by omega)]
        omega
    · exact .inl (List.mem_append_right _ sent)
  constructor
  · change (s.sender.onVideoFrame now frame).1.packetId =
      UInt32.ofNat (s.generated + frame.splits.length + 1)
    rw [MpSenderV1.onVideoFrame_packetId, ordered.packetId, ← UInt32.ofNat_add,
      Nat.add_right_comm]
  · intro entry member
    rcases cases entry member with old | ⟨-, -, most⟩
    · exact (ordered.below entry old).trans (Nat.le_add_right _ _)
    · exact most
  · intro entry member
    rcases cases entry member with old | ⟨made, -⟩
    · exact UInt32.le_trans (ordered.past entry old) later
    · exact made ▸ UInt32.le_refl now
  · intro first isFirst second isSecond le
    rw [UInt32.le_iff_toNat_le] at le
    rcases cases first isFirst with old | ⟨made, more, -⟩
    · rcases cases second isSecond with old' | ⟨made', -⟩
      · exact ordered.ordered first old second old' (UInt32.le_iff_toNat_le.mpr le)
      · exact made' ▸ UInt32.le_trans (ordered.past first old) later
    · rcases cases second isSecond with old' | ⟨made', -⟩
      · have below := ordered.below second old'
        omega
      · rw [made, made']

theorem packetRetrans_sentBuf (now packetId : UInt32) (pid : UInt8) (tables : PathTables) :
    (tables.packetRetrans now packetId pid).sentBuf = tables.sentBuf := by
  rw [PathTables.packetRetrans]
  split <;> rfl

theorem onNetworkAvailable_sentBuf (pid : UInt8) (tables : PathTables) :
    (tables.onNetworkAvailable pid).sentBuf = tables.sentBuf := by
  rw [PathTables.onNetworkAvailable]
  cases tables.waittingPaths.find? pid <;> rfl

/-- A packet that is scheduled waited before. -/
theorem packetSchedule_makesNone {packetId : UInt32} {pid : UInt8}
    (scheduled : s.packetSchedule now packetId pid = some next) : MakesNone s next := by
  rw [packetSchedule] at scheduled
  cases runing : s.tables.runing with
  | false =>
      rw [runing, if_neg Bool.false_ne_true] at scheduled
      obtain rfl := Option.some.inj scheduled
      exact ⟨rfl, rfl, fun _ member => member⟩
  | true =>
      rw [runing, if_pos rfl] at scheduled
      cases waits : s.sender.pendBuf.find? packetId with
      | none =>
          rw [waits] at scheduled
          cases scheduled
      | some packet =>
          rw [waits] at scheduled
          have waited : (packetId, packet) ∈ s.buffered :=
            List.mem_append_left _ (SortedMap.mem_of_find? waits)
          have others : ∀ entry ∈ (s.sender.pendBuf.erase packetId).entries,
              entry ∈ s.buffered :=
            fun entry member => List.mem_append_left _ (SortedMap.mem_erase.mp member).1
          cases usable : s.tables.usablePaths.find? pid with
          | none =>
              simp only [usable] at scheduled
              obtain rfl := Option.some.inj scheduled
              refine ⟨rfl, rfl, fun entry member => ?_⟩
              rcases List.mem_append.mp member with left | sent
              · exact others entry left
              · exact List.mem_append_right _ sent
          | some path =>
              simp only [usable] at scheduled
              obtain rfl := Option.some.inj scheduled
              refine ⟨rfl, rfl, fun entry member => ?_⟩
              rcases List.mem_append.mp member with left | sent
              · exact others entry left
              · rcases SortedMap.mem_insert_of sent with rfl | old
                · exact waited
                · exact List.mem_append_right _ old

/-- A call makes the packets of a frame, or none. -/
theorem call_cases {done : Call} (called : s.call now done = some next) :
    (∃ frame : Frame, next = { s with
        sender := (s.sender.onVideoFrame now frame).1
        generated := s.generated + frame.splits.length }) ∨ MakesNone s next := by
  cases done with
  | onVideoFrame frame => exact .inl ⟨frame, (Option.some.inj called).symm⟩
  | packetSchedule packetId pid => exact .inr (packetSchedule_makesNone called)
  | packetRetrans packetId pid =>
      obtain rfl := Option.some.inj called
      refine .inr ⟨rfl, rfl, fun entry member => ?_⟩
      rwa [buffered, packetRetrans_sentBuf] at member
  | checkStalePacket =>
      obtain rfl := Option.some.inj called
      refine .inr ⟨rfl, rfl, fun entry member => ?_⟩
      rcases List.mem_append.mp member with waits | sent
      · exact List.mem_append_left _ waits
      · exact List.mem_append_right _ (SortedMap.mem_dropWhile.mp sent).1
  | onNetworkAvailable pid =>
      obtain rfl := Option.some.inj called
      refine .inr ⟨rfl, rfl, fun entry member => ?_⟩
      rwa [buffered, onNetworkAvailable_sentBuf] at member
  | onNetworkStop pid =>
      obtain rfl := Option.some.inj called
      exact .inr ⟨rfl, rfl, fun _ member => member⟩

/-- A step is a call at a time that is not before the last one. -/
theorem of_step {done : Call} (stepped : machine.step s (now, done) = some (next, out)) :
    s.now ≤ now ∧ ∃ after, s.call now done = some after ∧ next = { after with now := now } := by
  change (if s.now ≤ now then _ else none) = some (next, out) at stepped
  split_ifs at stepped with later
  obtain ⟨after, called, same⟩ := Option.map_eq_some_iff.mp stepped
  exact ⟨later, after, called, (Prod.mk.inj same).1.symm⟩

/-- **A step keeps the order**, unless the ids wrap. -/
theorem Ordered.step {event : UInt32 × Call} (ordered : s.Ordered)
    (stepped : machine.step s event = some (next, out)) (few : next.generated < 2 ^ 32) :
    next.Ordered := by
  obtain ⟨later, after, called, rfl⟩ := of_step stepped
  rcases call_cases called with ⟨frame, rfl⟩ | none
  · exact ordered.onVideoFrame later frame few
  · exact ordered.of_makesNone later none

/-- No step takes packets back. -/
theorem generated_le {event : UInt32 × Call} (stepped : machine.step s event = some (next, out)) :
    s.generated ≤ next.generated := by
  obtain ⟨-, after, called, rfl⟩ := of_step stepped
  rcases call_cases called with ⟨frame, rfl⟩ | none
  · exact Nat.le_add_right _ _
  · exact Nat.le_of_eq none.generated.symm

/-- A run keeps the order, unless the ids wrap. -/
theorem ordered_of_run {paths : PathTables} {events : List (UInt32 × Call)}
    (ran : machine.run (fresh paths) events = some (s, out)) (few : s.generated < 2 ^ 32) :
    s.Ordered := by
  refine Machine.run_invariant (fun s => s.generated < 2 ^ 32 → s.Ordered) ?_
    (fun _ => ordered_fresh paths) ran few
  intro s event next out ordered stepped few
  exact (ordered ((generated_le stepped).trans_lt few)).step stepped few

/-! ## The sweep -/

/-- The subtraction of `IsStale` does not wrap for a packet that was made before. -/
theorem isStale_eq_false_iff {packet : VideoPacketWrapper} (past : packet.generateTs ≤ now) :
    packet.isStale now maxPacketDelayThreshold = false ↔
      now.toNat ≤ packet.generateTs.toNat + 500 := by
  have age := UInt32.toNat_sub_of_le _ _ past
  rw [UInt32.le_iff_toNat_le] at past
  rw [VideoPacketWrapper.isStale, decide_eq_false_iff_not, gt_iff_lt, UInt32.lt_iff_toNat_lt, age]
  change ¬500 < _ ↔ _
  omega

/-- **The sweep leaves exactly the packets that are not stale.** -/
theorem Ordered.sweep (ordered : s.Ordered) (later : s.now ≤ now) :
    SweepsExactly now s { s with tables := s.tables.checkStalePacket now } := by
  intro entry
  have past : ∀ other ∈ s.tables.sentBuf.entries, other.2.generateTs ≤ now :=
    fun other member =>
      UInt32.le_trans (ordered.past other (List.mem_append_right _ member)) later
  refine (SortedMap.mem_dropWhile_of_ordered ?_).trans (and_congr_right fun member => ?_)
  · intro first isFirst second isSecond le stale
    by_contra recent
    refine Bool.eq_false_iff.mp ?_ stale
    rw [isStale_eq_false_iff (past second isSecond)]
    have young := (isStale_eq_false_iff (past first isFirst)).mp (Bool.eq_false_iff.mpr recent)
    have made := UInt32.le_iff_toNat_le.mp (ordered.ordered first
      (List.mem_append_right _ isFirst) second (List.mem_append_right _ isSecond) le)
    omega
  · exact isStale_eq_false_iff (past entry member)

/-- **Every sweep is exact** in a run that makes fewer packets than there are ids. -/
theorem checkStalePacket_exact {paths : PathTables} {events : List (UInt32 × Call)}
    (ran : machine.run (fresh paths) events = some (s, out)) (few : s.generated < 2 ^ 32)
    (swept : machine.step s (now, .checkStalePacket) = some (next, [])) :
    SweepsExactly now s next := by
  obtain ⟨later, after, called, rfl⟩ := of_step swept
  obtain rfl := Option.some.inj called
  exact (ordered_of_run ran few).sweep later

/-- One packet. -/
def smallFrame : Frame where
  payloadType := 0
  ftype := 0
  data := [0]
  short := by decide
  few := by decide

/-- Path 1 is usable. -/
def onePath : PathTables := { usablePaths := SortedMap.empty.insert 1 {} }

/-- Two packets, sent in the other order. -/
def twoPackets : List (UInt32 × Call) :=
  [(1, .onVideoFrame smallFrame), (600, .onVideoFrame smallFrame), (600, .packetSchedule 2 1),
    (601, .packetSchedule 1 1)]

theorem checkStalePacket_exact_twoPackets :
    ∃ s next, machine.run (fresh onePath) twoPackets = some (s, []) ∧
      machine.step s (602, .checkStalePacket) = some (next, []) ∧
      s.tables.sentBuf.keys = [1, 2] ∧ next.tables.sentBuf.keys = [2] ∧
      SweepsExactly 602 s next := by
  have ran : ∃ s, machine.run (fresh onePath) twoPackets = some (s, []) ∧
      s.now = 601 ∧ s.generated = 2 ∧ s.tables.sentBuf.keys = [1, 2] ∧
      (s.tables.checkStalePacket 602).sentBuf.keys = [2] :=
    ⟨_, rfl, rfl, rfl, by decide, by decide⟩
  obtain ⟨s, ran, now, generated, before, after⟩ := ran
  have swept : machine.step s (602, .checkStalePacket) =
      some ({ s with tables := s.tables.checkStalePacket 602, now := 602 }, []) := by
    refine if_pos ?_
    rw [now]
    decide
  exact ⟨s, _, ran, swept, before, after, checkStalePacket_exact ran (by omega) swept⟩

/-! ## After the wrap -/

/-- 255000 bytes. -/
def largeVideo : Sender.Frame where
  payloadType := 0
  ftype := 0
  data := List.replicate 255000 0
  short := by
    rw [List.length_replicate]
    decide

theorem length_splits_largeVideo : largeVideo.splits.length = 255 := by
  have pieces : (Sender.frameSplit 255000).length = 255 := by
    rw [Sender.frameSplit, if_neg (by decide), List.length_append, List.length_replicate]
    rfl
  rw [Sender.Frame.splits, List.length_splitLengths, largeVideo, List.length_replicate]
  exact pieces

/-- 255 packets. -/
def largeFrame : Frame where
  toFrame := largeVideo
  few := by
    rw [Sender.Frame.total, length_splits_largeVideo]
    decide

theorem length_splits_largeFrame : largeFrame.splits.length = 255 := length_splits_largeVideo

/-- Frames of 255 packets were sent at time 1: the packets wait, the last one among them, and
no id is zero so far. -/
structure Filled (frames : ℕ) (s : SenderBuffers) : Prop where
  tables : s.tables = onePath
  now : s.now ≤ 1
  packetId : s.sender.packetId = UInt32.ofNat (255 * frames + 1)
  made : ∀ entry ∈ s.sender.pendBuf.entries, entry.2.generateTs = 1 ∧ entry.1 ≠ 0
  last : 0 < frames → UInt32.ofNat (255 * frames) ∈ s.sender.pendBuf.keys

theorem Filled.step {frames : ℕ} {frame : Frame} (filled : Filled frames s)
    (pieces : frame.splits.length = 255) (few : 255 * (frames + 1) < 2 ^ 32) :
    ∃ next, machine.step s (1, .onVideoFrame frame) = some (next, []) ∧
      Filled (frames + 1) next := by
  refine ⟨_, if_pos filled.now, filled.tables, UInt32.le_refl 1, ?_, ?_, fun _ => ?_⟩
  · refine (MpSenderV1.onVideoFrame_packetId ..).trans ?_
    rw [filled.packetId, pieces, ← UInt32.ofNat_add, Nat.add_right_comm]
    rfl
  · intro entry member
    rcases MpSenderV1.mem_onVideoFrame member with old | ⟨made, i, below, id⟩
    · exact filled.made entry old
    · refine ⟨made, fun zero => ?_⟩
      rw [pieces] at below
      have small : 255 * frames + 1 + i < 2 ^ 32 := by omega
      have value := congrArg UInt32.toNat (id.symm.trans zero)
      rw [filled.packetId, ← UInt32.ofNat_add, UInt32.toNat_ofNat_of_lt' small] at value
      change _ = 0 at value
      omega
  · refine MpSenderV1.mem_keys_onVideoFrame (.inr ⟨254, by omega, ?_⟩)
    rw [filled.packetId, ← UInt32.ofNat_add, Nat.add_assoc]
    rfl

/-- Frames at time 1. -/
def sameFrames (frame : Frame) (frames : ℕ) : List (UInt32 × Call) :=
  List.replicate frames (1, .onVideoFrame frame)

theorem filled_run {frame : Frame} (pieces : frame.splits.length = 255) (frames : ℕ)
    (few : 255 * frames < 2 ^ 32) :
    ∃ s, machine.run (fresh onePath) (sameFrames frame frames) = some (s, []) ∧
      Filled frames s := by
  induction frames with
  | zero =>
      refine ⟨fresh onePath, rfl, rfl, by decide, rfl, ?_, fun none => absurd none (by decide)⟩
      exact fun _ member => absurd member List.not_mem_nil
  | succ frames ih =>
      obtain ⟨s, ran, filled⟩ := ih (by omega)
      obtain ⟨next, stepped, more⟩ := filled.step pieces few
      refine ⟨next, ?_, more⟩
      rw [sameFrames, List.replicate_succ']
      exact Machine.run_trans ran (Machine.run_cons.mpr ⟨next, [], [], stepped, rfl, rfl⟩)

theorem scheduled_sameFrames (frame : Frame) (frames : ℕ) (more : List (UInt32 × Call)) :
    scheduled (sameFrames frame frames ++ more) = scheduled more := by
  induction frames with
  | zero => rfl
  | succ frames ih => exact ih

/-- The last packet before the wrap is scheduled, and then the first one after it. -/
def wrapped : List (UInt32 × Call) :=
  [(1, .packetSchedule 4294967295 1), (600, .onVideoFrame smallFrame), (600, .packetSchedule 0 1)]

/-- A packet that waits is sent on a usable path, which stays usable. -/
theorem step_packetSchedule {packetId : UInt32} {pid : UInt8} {packet : VideoPacketWrapper}
    (later : s.now ≤ now) (runing : s.tables.runing = true)
    (waits : s.sender.pendBuf.find? packetId = some packet)
    (usable : pid ∈ s.tables.usablePaths.keys) :
    ∃ next, machine.step s (now, .packetSchedule packetId pid) = some (next, []) ∧
      next.now = now ∧ next.tables.runing = true ∧ pid ∈ next.tables.usablePaths.keys ∧
      next.sender = { s.sender with pendBuf := s.sender.pendBuf.erase packetId } ∧
      next.tables.sentBuf = s.tables.sentBuf.insert packetId packet := by
  obtain ⟨path, found⟩ := SortedMap.mem_keys_iff.mp usable
  have scheduled : ∃ next, s.packetSchedule now packetId pid = some next ∧
      next.tables.runing = true ∧ pid ∈ next.tables.usablePaths.keys ∧
      next.sender = { s.sender with pendBuf := s.sender.pendBuf.erase packetId } ∧
      next.tables.sentBuf = s.tables.sentBuf.insert packetId packet := by
    rw [packetSchedule, if_pos runing, waits]
    simp only [found]
    exact ⟨_, rfl, runing, SortedMap.mem_keys_set.mpr (.inl rfl), rfl, rfl⟩
  obtain ⟨next, called, facts⟩ := scheduled
  refine ⟨{ next with now := now }, ?_, rfl, facts⟩
  refine (if_pos later).trans ?_
  rw [call, called]
  rfl

/-- The last packet before the wrap is sent, and the packet after it is made later. -/
structure Wrapping (old : VideoPacketWrapper) (s : SenderBuffers) : Prop where
  now : s.now = 1
  runing : s.tables.runing = true
  usable : 1 ∈ s.tables.usablePaths.keys
  packetId : s.sender.packetId = 0
  waits : ∀ entry ∈ s.sender.pendBuf.entries, entry.1 ≠ 0
  sentBuf : s.tables.sentBuf = SortedMap.empty.insert 4294967295 old
  made : old.generateTs = 1

theorem Filled.wrapping (filled : Filled 16843009 s) :
    ∃ next old, machine.step s (1, .packetSchedule 4294967295 1) = some (next, []) ∧
      Wrapping old next := by
  obtain ⟨old, waits⟩ := SortedMap.mem_keys_iff.mp (filled.last (by decide))
  have path : (1 : UInt8) ∈ s.tables.usablePaths.keys := by
    rw [filled.tables]
    exact List.mem_singleton.mpr rfl
  obtain ⟨next, stepped, now, runing, usable, sender, sentBuf⟩ :=
    step_packetSchedule filled.now (filled.tables ▸ rfl) waits path
  refine ⟨next, old, stepped, now, runing, usable, ?_, ?_, ?_, ?_⟩
  · rw [sender, filled.packetId]
    rfl
  · intro entry member
    rw [sender] at member
    exact (filled.made entry (SortedMap.mem_erase.mp member).1).2
  · rw [sentBuf, filled.tables]
    rfl
  · exact (filled.made _ (SortedMap.mem_of_find? waits)).1

/-- The younger packet comes before the old one. -/
theorem Wrapping.run {old : VideoPacketWrapper} (wrapping : Wrapping old s) :
    ∃ next new, machine.run s [(600, .onVideoFrame smallFrame), (600, .packetSchedule 0 1)] =
        some (next, []) ∧
      next.now = 600 ∧ new.generateTs = 600 ∧
      next.tables.sentBuf = (SortedMap.empty.insert 4294967295 old).insert 0 new := by
  have key : (0 : UInt32) ∈ (s.sender.onVideoFrame 600 smallFrame).1.pendBuf.keys := by
    refine MpSenderV1.mem_keys_onVideoFrame (.inr ⟨0, by decide, ?_⟩)
    rw [wrapping.packetId]
    rfl
  obtain ⟨new, waits⟩ := SortedMap.mem_keys_iff.mp key
  have made : new.generateTs = 600 := by
    rcases MpSenderV1.mem_onVideoFrame (SortedMap.mem_of_find? waits) with before | ⟨made, -⟩
    · exact absurd rfl (wrapping.waits _ before)
    · exact made
  let framed : SenderBuffers := { s with
    sender := (s.sender.onVideoFrame 600 smallFrame).1
    generated := s.generated + smallFrame.splits.length
    now := 600 }
  have stepped : machine.step s (600, .onVideoFrame smallFrame) = some (framed, []) := by
    refine if_pos ?_
    rw [wrapping.now]
    decide
  obtain ⟨next, sent, now, -, -, -, sentBuf⟩ :=
    step_packetSchedule (s := framed) (UInt32.le_refl 600) wrapping.runing waits wrapping.usable
  refine ⟨next, new, ?_, now, made, ?_⟩
  · exact Machine.run_cons.mpr ⟨framed, [], [], stepped,
      Machine.run_cons.mpr ⟨next, [], [], sent, rfl, rfl⟩, rfl⟩
  · rw [sentBuf]
    exact congrArg (SortedMap.insert 0 new) wrapping.sentBuf

/-- Packet 4294967295 is 699 milliseconds old and stays behind packet 0. -/
theorem stale_after_wrap :
    ¬ ∀ paths events s out now next,
        machine.run (fresh paths) events = some (s, out) → (scheduled events).Nodup →
        machine.step s (now, .checkStalePacket) = some (next, []) → SweepsExactly now s next := by
  intro always
  obtain ⟨s₁, ran₁, filled⟩ := filled_run length_splits_largeFrame 16843009 (by decide)
  obtain ⟨s₂, old, stepped, wrapping⟩ := filled.wrapping
  obtain ⟨s₃, new, ran₃, now, young, sentBuf⟩ := wrapping.run
  have ran : machine.run (fresh onePath) (sameFrames largeFrame 16843009 ++ wrapped) =
      some (s₃, []) :=
    Machine.run_trans ran₁ (Machine.run_cons.mpr ⟨s₂, [], [], stepped, ran₃, rfl⟩)
  have once : (scheduled (sameFrames largeFrame 16843009 ++ wrapped)).Nodup := by
    rw [scheduled_sameFrames]
    decide
  have later : s₃.now ≤ 700 := by
    rw [now]
    decide
  have sweeps := always onePath _ s₃ [] 700 _ ran once (if_pos later)
  have first : (0, new) ∈ s₃.tables.sentBuf.entries := by
    rw [sentBuf]
    exact SortedMap.find?_eq_some_iff.mp (by simp [SortedMap.find?_insert])
  have second : (4294967295, old) ∈ s₃.tables.sentBuf.entries := by
    rw [sentBuf]
    exact SortedMap.find?_eq_some_iff.mp (by simp [SortedMap.find?_insert])
  have recent : new.isStale 700 maxPacketDelayThreshold = false := by
    rw [VideoPacketWrapper.isStale, young]
    decide
  have stays := SortedMap.mem_dropWhile.mpr ⟨second, (0, new), first,
    show (0 : UInt32) ≤ 4294967295 by decide, recent⟩
  have kept := ((sweeps (4294967295, old)).mp stays).2
  rw [wrapping.made] at kept
  exact absurd kept (by decide)

end SenderBuffers

end MpVideo.V1
