import MpVideo.Lib.Machine
import MpVideo.Lib.MachineInt
import MpVideo.Lib.SortedMap
import MpVideo.Sender.FrameSplit
import MpVideo.V1.VideoProto

/-!
# The time base of the second generation

`MpSenderV1::OnVideoFrame` writes the time of a frame into its packets as an offset
from `first_ts_`, the time of the first frame. A receiver adds `first_ts_` again, which
it reads from the sender when a packet arrives.

The value zero of `first_ts_` means that there was no frame yet, and it is also what a
frame at time zero leaves there. So a later frame can move the reference after packets
were stamped with the old one. Every packet has the time of its frame at every later
point exactly when the first frame is not at time zero, or all of them are
(`frameTimestamp_stable_iff`).
-/

set_option autoImplicit false

namespace MpVideo.V1

/-- A frame that `OnVideoFrame` takes: it asserts that the number of packets has 8 bits. -/
structure Frame extends Sender.Frame where
  few : toFrame.total < 256

/-- The members of `MpSenderV1` that a frame changes. -/
structure MpSenderV1 where
  packetId : UInt32 := 1
  fid : UInt32 := 1
  firstTs : Int64 := 0
  pendBuf : SortedMap UInt32 VideoPacketWrapper := .empty

namespace MpSenderV1

/-- `get_first_ts`. -/
def getFirstTs (sender : MpSenderV1) : UInt32 := sender.firstTs.toUInt64.toUInt32

/-- The segment of a piece of a frame. -/
def segment (timestamp : UInt32) (frame : Frame) (piece : List UInt8 × Nat) (sender : MpSenderV1) :
    VideoSegment where
  fid := sender.fid
  timestamp := timestamp
  index := UInt8.ofNat piece.2
  total := frame.total.toUInt8
  ftype := frame.ftype.toUInt32.toUInt8
  sendTs := 0
  data := .clip videoPacketSize piece.1

/-- The packet of a piece of a frame. -/
def packet (now : UInt32) (timestamp : UInt32) (frame : Frame) (piece : List UInt8 × Nat)
    (sender : MpSenderV1) : VideoPacketWrapper :=
  let packet : VideoPacketWrapper := { packetId := sender.packetId, refTime := sender.getFirstTs }
  packet.onNewSegment (sender.segment timestamp frame piece) now

/-- The loop of `OnVideoFrame` over the pieces: the packets, which wait in `pend_buf_`. -/
def packetLoop (now timestamp : UInt32) (frame : Frame) :
    List (List UInt8 × Nat) → MpSenderV1 → MpSenderV1 × List VideoPacketWrapper
  | [], sender => (sender, [])
  | piece :: rest, sender =>
      let packet := sender.packet now timestamp frame piece
      let (last, packets) := packetLoop now timestamp frame rest { sender with
        pendBuf := sender.pendBuf.insert sender.packetId packet
        packetId := sender.packetId + 1 }
      (last, packet :: packets)

/-- The first frame sets `first_ts_`. -/
def noteFirstTs (now : Int64) (sender : MpSenderV1) : MpSenderV1 :=
  if sender.firstTs = 0 then { sender with firstTs := now } else sender

/-- `OnVideoFrame` at a time in milliseconds: the packets of the frame. The scheduler
that it calls at the end acts by `PacketSchedule`. -/
def onVideoFrame (now : UInt32) (frame : Frame) (sender : MpSenderV1) :
    MpSenderV1 × List VideoPacketWrapper :=
  let time := now.toUInt64.toInt64
  let sender := sender.noteFirstTs time
  let timestamp := (time - sender.firstTs).toUInt64.toUInt32
  let (sender, packets) := sender.packetLoop now timestamp frame frame.splits.zipIdx
  ({ sender with fid := sender.fid + 1 }, packets)

/-- The sender as a machine: the frames with their times come in, the packets go out,
each with the time of its frame. -/
def machine : Machine MpSenderV1 (UInt32 × Frame) (UInt32 × VideoPacketWrapper) where
  step sender event :=
    let (sender, packets) := sender.onVideoFrame event.1 event.2
    some (sender, packets.map (event.1, ·))

end MpSenderV1

namespace PathSenderV1

/-- `PathSenderV1::get_first_ts`, with the sender the path is registered at, if any. -/
def getFirstTs (mpsender : Option MpSenderV1) : Int64 :=
  match mpsender with
  | some sender => sender.getFirstTs.toUInt64.toInt64
  | none => -1

end PathSenderV1

namespace PathReceiverV1

/-- The branch of `OnIncomingMessage` for stream packets: what it hands on. The number
in front of the video bytes, and the delay that is kept, are left out. -/
def onStream (quic : QuicData) (now : UInt32) (mpsender : Option MpSenderV1)
    (videoBuf : List UInt8) : Option VideoPacketReceiveWrapper :=
  let firstTs := PathSenderV1.getFirstTs mpsender
  (VideoPacketReceiveWrapper.deserialize quic now videoBuf).map fun packet =>
    if firstTs ≠ -1 then packet.setFirstTs firstTs.toUInt64.toUInt32 else packet

end PathReceiverV1

/-! ## The reference time -/

theorem toUInt32_ofUInt32 (now : UInt32) : now.toUInt64.toInt64.toUInt64.toUInt32 = now := by
  simp

theorem toInt64_eq_zero_iff (now : UInt32) : now.toUInt64.toInt64 = 0 ↔ now = 0 := by
  constructor
  · intro zero
    rw [← toUInt32_ofUInt32 now, zero]
    rfl
  · rintro rfl
    rfl

/-- A time in 32 bits is no negative number. -/
theorem toInt64_ne_neg_one (now : UInt32) : now.toUInt64.toInt64 ≠ -1 := by
  intro negative
  have small := UInt32.toNat_lt now
  have same := congrArg (fun x : Int64 => x.toUInt64.toNat) negative
  have largest : (-1 : Int64).toUInt64.toNat = 2 ^ 64 - 1 := by decide
  rw [largest, UInt64.toUInt64_toInt64, UInt32.toNat_toUInt64] at same
  omega

namespace MpSenderV1

variable {sender : MpSenderV1}

/-- An offset from a reference, added to the reference. -/
theorem offset_add_getFirstTs (now : UInt32) (sender : MpSenderV1) :
    (now.toUInt64.toInt64 - sender.firstTs).toUInt64.toUInt32 + sender.getFirstTs = now := by
  rw [getFirstTs, Int64.toUInt64_sub, UInt64.toUInt32_sub, toUInt32_ofUInt32, UInt32.sub_add_cancel]

/-- The loop leaves the reference time, and stamps every packet. -/
theorem packetLoop_spec (now timestamp : UInt32) (frame : Frame) (pieces : List (List UInt8 × Nat))
    (sender : MpSenderV1) :
    (sender.packetLoop now timestamp frame pieces).1.firstTs = sender.firstTs ∧
      (sender.packetLoop now timestamp frame pieces).2.length = pieces.length ∧
      ∀ packet ∈ (sender.packetLoop now timestamp frame pieces).2,
        packet.Stamped timestamp ∧ packet.payloadSize ≤ 1015 := by
  induction pieces generalizing sender with
  | nil => exact ⟨rfl, rfl, fun _ member => absurd member List.not_mem_nil⟩
  | cons piece rest ih =>
      obtain ⟨firstTs, length, stamped⟩ := ih { sender with
        pendBuf := sender.pendBuf.insert sender.packetId (sender.packet now timestamp frame piece)
        packetId := sender.packetId + 1 }
      refine ⟨firstTs, congrArg (· + 1) length, ?_⟩
      intro packet member
      rcases List.mem_cons.mp member with rfl | later
      · refine ⟨⟨_, rfl, rfl⟩, ?_⟩
        have bounded := (sender.segment timestamp frame piece).data.bounded
        change videoSegmentHeaderSize +
          UInt32.ofNat (sender.segment timestamp frame piece).data.size
          ≤ 1015
        rw [UInt32.le_iff_toNat_le, UInt32.toNat_add, UInt32.toNat_ofNat', Wire.Payload.size]
        simp only [videoSegmentHeaderSize, videoPacketSize, UInt32.reduceToNat] at bounded ⊢
        omega
      · exact stamped packet later

/-- The reference time is this number of milliseconds. -/
def Refers (ref : UInt32) (sender : MpSenderV1) : Prop := sender.firstTs = ref.toUInt64.toInt64

theorem Refers.getFirstTs {ref : UInt32} (refers : sender.Refers ref) :
    sender.getFirstTs = ref := by
  rw [MpSenderV1.getFirstTs, refers, toUInt32_ofUInt32]

/-- The reference time after frames at these times. -/
def reference (ref : UInt32) (times : List UInt32) : UInt32 :=
  times.foldl (fun ref now => if ref = 0 then now else ref) ref

theorem reference_of_ne_zero {ref : UInt32} (set : ref ≠ 0) (times : List UInt32) :
    reference ref times = ref := by
  induction times with
  | nil => rfl
  | cons now rest ih =>
      rw [reference, List.foldl_cons, if_neg set]
      exact ih

/-- The reference stays zero over frames at time zero only. -/
theorem reference_zero_iff (times : List UInt32) :
    reference 0 times = 0 ↔ ∀ now ∈ times, now = 0 := by
  induction times with
  | nil => exact iff_of_true rfl fun _ member => absurd member List.not_mem_nil
  | cons now rest ih =>
      rw [reference, List.foldl_cons, if_pos rfl, List.forall_mem_cons]
      by_cases zero : now = 0
      · subst zero
        exact ih.trans (and_iff_right rfl).symm
      · exact iff_of_false (fun same => zero ((reference_of_ne_zero zero rest).symm.trans same))
          fun all => zero all.1

/-- The packet has the time that it goes out with as an offset from a reference. -/
def OffsetFrom (ref : UInt32) (out : UInt32 × VideoPacketWrapper) : Prop :=
  ∃ timestamp, out.2.Stamped timestamp ∧ timestamp + ref = out.1 ∧ out.2.payloadSize ≤ 1015

/-- **One frame**: it sets the reference if there is none, and its packets are offset
from the reference. -/
theorem step_spec {ref : UInt32} (refers : sender.Refers ref) (event : UInt32 × Frame) :
    ∃ next out, machine.step sender event = some (next, out) ∧ out ≠ [] ∧
      next.Refers (reference ref [event.1]) ∧
      ∀ packet ∈ out, packet.1 = event.1 ∧ OffsetFrom (reference ref [event.1]) packet := by
  obtain ⟨now, frame⟩ := event
  have noted : (sender.noteFirstTs now.toUInt64.toInt64).Refers (reference ref [now]) := by
    change (sender.noteFirstTs now.toUInt64.toInt64).firstTs =
      (if ref = 0 then now else ref).toUInt64.toInt64
    have zero : sender.firstTs = 0 ↔ ref = 0 := by rw [refers, toInt64_eq_zero_iff]
    rw [noteFirstTs]
    by_cases unset : ref = 0
    · rw [if_pos unset, if_pos (zero.mpr unset)]
    · rw [if_neg unset, if_neg (mt zero.mp unset)]
      exact refers
  obtain ⟨firstTs, length, stamped⟩ := packetLoop_spec now (now.toUInt64.toInt64 -
    (sender.noteFirstTs now.toUInt64.toInt64).firstTs).toUInt64.toUInt32 frame frame.splits.zipIdx
    (sender.noteFirstTs now.toUInt64.toInt64)
  refine ⟨_, _, rfl, ?_, firstTs.trans noted, ?_⟩
  · have some := frame.length_splits_pos
    rw [← List.length_pos_iff, List.length_map]
    simp only [length, List.length_zipIdx]
    exact some
  · intro packet member
    obtain ⟨wrapper, isPacket, rfl⟩ := List.mem_map.mp member
    obtain ⟨carried, small⟩ := stamped wrapper isPacket
    refine ⟨rfl, _, carried, ?_, small⟩
    rw [← noted.getFirstTs]
    exact offset_add_getFirstTs now _

/-- **A run of frames**: the reference is the first time that is not zero, and each
packet is offset from the reference that its frame left. -/
theorem run_spec {ref : UInt32} (refers : sender.Refers ref) (frames : List (UInt32 × Frame)) :
    ∃ last out, machine.run sender frames = some (last, out) ∧
      last.Refers (reference ref (frames.map Prod.fst)) ∧
      ((ref ≠ 0 ∨ ∀ frame ∈ frames, frame.1 = 0) → ∀ packet ∈ out, OffsetFrom ref packet) := by
  induction frames generalizing sender ref with
  | nil => exact ⟨sender, [], rfl, refers, fun _ _ member => absurd member List.not_mem_nil⟩
  | cons frame rest ih =>
      obtain ⟨next, first, stepped, -, then', packets⟩ := step_spec refers frame
      obtain ⟨last, more, onwards, final, offsets⟩ := ih then'
      refine ⟨last, first ++ more,
        Machine.run_cons.mpr ⟨next, first, more, stepped, onwards, rfl⟩, final, ?_⟩
      intro steady packet member
      have same : reference ref [frame.1] = ref := by
        rcases steady with set | zero
        · exact reference_of_ne_zero set _
        · by_cases set : ref = 0
          · subst set
            exact zero frame List.mem_cons_self
          · exact reference_of_ne_zero set _
      rw [same] at packets offsets
      cases List.mem_append.mp member with
      | inl now => exact (packets packet now).2
      | inr later =>
          exact offsets (steady.imp_right fun zero other isLater =>
            zero other (List.mem_cons_of_mem _ isLater)) packet later

/-! ## What is read at a later point -/

/-- However the packet went through queues and retransmissions before, and whenever it
is sent and received: when it arrives at this state of the sender, its frame timestamp
is the time that it goes out with. -/
def ReadsTime (quic : QuicData) (sender : MpSenderV1) (out : UInt32 × VideoPacketWrapper) :
    Prop :=
  ∀ (events : List PacketEvent) (len sentAt : UInt32) (buf : List UInt8),
    ((events.foldl (VideoPacketWrapper.after quic) out.2).serialize quic len sentAt).1 =
      some buf →
    ∀ receivedAt, ∃ received,
      PathReceiverV1.onStream quic receivedAt (some sender) buf = some received ∧
        received.getFrameTimestamp = out.1

/-- What arrives has the timestamp of its segment and the reference of the sender. -/
theorem onStream_spec {quic : QuicData} {packet : VideoPacketWrapper} {timestamp ref : UInt32}
    (stamped : packet.Stamped timestamp) (refers : sender.Refers ref) {len sentAt : UInt32}
    {buf : List UInt8} (sent : (packet.serialize quic len sentAt).1 = some buf)
    (receivedAt : UInt32) : ∃ received,
      PathReceiverV1.onStream quic receivedAt (some sender) buf = some received ∧
        received.getFrameTimestamp = timestamp + ref := by
  obtain ⟨received, read, same⟩ := deserialize_serialize stamped sent receivedAt
  refine ⟨received.setFirstTs ref, ?_, ?_⟩
  · simp only [PathReceiverV1.onStream, PathSenderV1.getFirstTs, read, refers.getFirstTs,
      toUInt32_ofUInt32, Option.map_some, if_pos (toInt64_ne_neg_one ref)]
  · rw [VideoPacketReceiveWrapper.getFrameTimestamp, VideoPacketReceiveWrapper.setFirstTs, same]

/-- **The time is read if and only if it is an offset from the reference of then.** -/
theorem readsTime_iff {quic : QuicData} {ref ref' : UInt32} {out : UInt32 × VideoPacketWrapper}
    (offset : OffsetFrom ref out) (refers : sender.Refers ref') :
    ReadsTime quic sender out ↔ ref' = ref := by
  obtain ⟨timestamp, stamped, sum, small⟩ := offset
  constructor
  · intro reads
    obtain ⟨segment, carried, same⟩ := stamped
    have fits : ¬ out.2.payloadSize > 1400 :=
      not_lt.mpr (UInt32.le_trans small (by decide))
    obtain ⟨buf, sent⟩ : ∃ buf, (out.2.serialize quic 1400 0).1 = some buf := by
      simp only [VideoPacketWrapper.serialize, carried, if_neg fits]
      exact ⟨_, rfl⟩
    obtain ⟨received, arrived, time⟩ := reads [] 1400 0 buf sent 0
    obtain ⟨received', arrived', time'⟩ := onStream_spec ⟨segment, carried, same⟩ refers sent 0
    obtain rfl := Option.some.inj (arrived.symm.trans arrived')
    have equal : timestamp + ref' = timestamp + ref := by rw [← time', time, sum]
    exact UInt32.add_right_inj timestamp |>.mp equal
  · rintro rfl events len sentAt buf sent receivedAt
    obtain ⟨received, arrived, time⟩ :=
      onStream_spec (stamped.foldl_after events) refers sent receivedAt
    exact ⟨received, arrived, time.trans sum⟩

/-! ## Runs -/

/-- In a run of the sender, at every point each packet sent so far is read with the time
of its frame. -/
def TimeStable (quic : QuicData) (frames : List (UInt32 × Frame)) : Prop :=
  ∀ n sender out, machine.run {} (frames.take n) = some (sender, out) →
    ∀ packet ∈ out, ReadsTime quic sender packet

theorem refers_fresh : Refers 0 {} := rfl

/-- With frames at time zero only, or none there at first, the reference does not move. -/
theorem timeStable_of_reference {quic : QuicData} {frames : List (UInt32 × Frame)}
    (steady : (∀ frame ∈ frames, frame.1 = 0) ∨ ∀ frame ∈ frames.head?, frame.1 ≠ 0) :
    TimeStable quic frames := by
  intro n sender out ran packet member
  rcases steady with zero | set
  · have part : ∀ frame ∈ frames.take n, frame.1 = 0 :=
      fun frame isPart => zero frame (List.mem_of_mem_take isPart)
    obtain ⟨last, all, ran', refers, offsets⟩ := run_spec refers_fresh (frames.take n)
    obtain ⟨rfl, rfl⟩ := Prod.mk.inj (Option.some.inj (ran.symm.trans ran'))
    apply (readsTime_iff (offsets (.inr part) packet member) refers).mpr
    refine (reference_zero_iff _).mpr ?_
    intro now isTime
    obtain ⟨frame, isPart, rfl⟩ := List.mem_map.mp isTime
    exact part frame isPart
  · cases part : frames.take n with
    | nil =>
        rw [part] at ran
        obtain ⟨-, rfl⟩ := Prod.mk.inj (Option.some.inj ran)
        cases member
    | cons frame rest =>
        have first : frame ∈ frames.head? := by
          cases n with
          | zero => cases part
          | succ n =>
              have head := List.head?_take (l := frames) (i := n + 1)
              rw [part, if_neg (Nat.succ_ne_zero n)] at head
              exact head.symm
        have ref : reference 0 [frame.1] = frame.1 := by
          rw [reference, List.foldl_cons, if_pos rfl]
          rfl
        obtain ⟨next, head, stepped, -, refers, now⟩ := step_spec refers_fresh frame
        rw [ref] at refers now
        obtain ⟨last, more, onwards, final, later⟩ := run_spec refers rest
        have ran' := Machine.run_cons.mpr ⟨next, head, more, stepped, onwards, rfl⟩
        rw [part] at ran
        obtain ⟨rfl, rfl⟩ := Prod.mk.inj (Option.some.inj (ran.symm.trans ran'))
        rw [reference_of_ne_zero (set frame first)] at final
        cases List.mem_append.mp member with
        | inl isNow => exact (readsTime_iff (now packet isNow).2 final).mpr rfl
        | inr isLater =>
            exact (readsTime_iff (later (.inl (set frame first)) packet isLater) final).mpr rfl

/-- **After a frame at time zero, the first frame at another time moves the reference**, and
the packets of the frame at time zero are read with a wrong time. -/
theorem not_timeStable_of_zero {quic : QuicData} {frame : UInt32 × Frame}
    {rest : List (UInt32 × Frame)} (zero : frame.1 = 0) {later : UInt32 × Frame}
    (member : later ∈ rest) (moves : later.1 ≠ 0) : ¬ TimeStable quic (frame :: rest) := by
  intro stable
  have ref : reference 0 [frame.1] = 0 := by
    rw [zero]
    rfl
  obtain ⟨next, head, stepped, some, refers, now⟩ := step_spec refers_fresh frame
  rw [ref] at refers now
  obtain ⟨last, more, onwards, final, -⟩ := run_spec refers rest
  have ran := Machine.run_cons.mpr ⟨next, head, more, stepped, onwards, rfl⟩
  rw [← List.take_length (l := frame :: rest)] at ran
  obtain ⟨packet, others, rfl⟩ := List.exists_cons_of_ne_nil some
  have reads := stable _ last _ ran packet (List.mem_append_left _ List.mem_cons_self)
  have still := (readsTime_iff (now packet List.mem_cons_self).2 final).mp reads
  exact moves ((reference_zero_iff _).mp still later.1 (List.mem_map_of_mem member))

/-- **Every packet has the time of its frame at every later point if and only if** all
frames are at time zero, or the first one is not. -/
theorem frameTimestamp_stable_iff (quic : QuicData) (frames : List (UInt32 × Frame)) :
    TimeStable quic frames ↔
      (∀ frame ∈ frames, frame.1 = 0) ∨ ∀ frame ∈ frames.head?, frame.1 ≠ 0 := by
  refine ⟨?_, timeStable_of_reference⟩
  intro stable
  by_contra neither
  obtain ⟨some, zero⟩ := not_or.mp neither
  push Not at some zero
  obtain ⟨first, isFirst, atZero⟩ := zero
  obtain ⟨later, member, moves⟩ := some
  obtain ⟨rest, rfl⟩ := List.head?_eq_some_iff.mp isFirst
  have isLater : later ∈ rest := by
    rcases List.mem_cons.mp member with rfl | isLater
    · exact absurd atZero moves
    · exact isLater
  exact not_timeStable_of_zero atZero isLater moves stable

/-- A frame at the start of the simulation and one 40 milliseconds later. -/
def fromStart : List (UInt32 × Frame) :=
  [(0, ⟨⟨0, 1, [43], by decide⟩, by decide⟩), (40, ⟨⟨0, 0, [44], by decide⟩, by decide⟩)]

/-- The packet of the first of them is read with the time of the second. -/
theorem fromStart_moves : ¬ TimeStable networkOrder fromStart :=
  not_timeStable_of_zero rfl List.mem_cons_self (by decide)

end MpSenderV1

end MpVideo.V1
