import MpVideo.Lib.Machine
import MpVideo.Sender.PathSender

/-!
# The byte counters of the queue

`len_` and `pending_len_` count the bytes of the segments in `buf_`. They are right exactly
when both are the sum of the sizes that are held (`Accurate`).

Two steps break this. A segment that is put under a transport number still in use is counted
and not queued, and `FreePendingBuf` takes the segments that it frees out of `len_` only. A
run passes only accurate states if and only if it makes neither of these steps
(`accurate_iff`).
-/

set_option autoImplicit false

namespace MpVideo.Sender

open Wire

namespace PathSender

/-- `SendPadding`; the bytes of the body are whatever its buffer holds. -/
def sendPadding (body : Payload paddingDataSize) (ts : UInt32) (path : PathSender) :
    PathSender × List (List UInt8) :=
  let strm := simEncodeMsg path.strm ⟨path.pid, MsgId.simPad.toUInt8, path.uid⟩
    (.pad ⟨ts, path.transSeq, body⟩)
  ({ path with transSeq := path.transSeq + 1, strm }, [strm.data])

/-- The bytes of a segment and its header. -/
def segmentBytes (seg : SimSegment) : Nat := seg.data.size + simSegmentHeaderSize

/-- The bytes in `buf_`. -/
def held (path : PathSender) : Nat := path.buf.total segmentBytes

/-- Both counters are the bytes in `buf_`. -/
def Accurate (path : PathSender) : Prop :=
  path.len.toNat = path.held ∧ path.pendingLen.toNat = path.held

end PathSender

/-- What happens to the queue of a path. -/
inductive QueueEvent where
  | put (seg : SimSegment)
  | timeToSendPacket (seq : UInt16) (retransmission : Bool) (now : UInt32) (firstTs : Int64)
  | getSegment (seq : UInt16) (retrans : Bool)
  | getFirstSegment
  | sendPadding (body : Payload paddingDataSize) (ts : UInt32)
  | stop

namespace QueueEvent

/-- What a path does on an event, with the datagrams that it sends. -/
def handle (path : PathSender) : QueueEvent → PathSender × List (List UInt8)
  | put seg => ((path.put seg).1, [])
  | timeToSendPacket seq retransmission now firstTs =>
      path.timeToSendPacket seq retransmission now firstTs
  | getSegment seq retrans => ((path.getSegment seq retrans).2, [])
  | getFirstSegment => (path.getFirstSegment.2, [])
  | sendPadding body ts => path.sendPadding body ts
  | stop => (path.stopPath, [])

/-- A path as a machine. -/
def machine : Machine PathSender QueueEvent (List UInt8) :=
  ⟨fun path event => some (handle path event)⟩

/-- A segment that is queued gets a transport number that is not in use, and a path is
stopped with an empty queue. After that nothing is queued any more. -/
def Safe (path : PathSender) : QueueEvent → Prop
  | put _ => path.stop = false → path.transSeq ∉ path.buf.keys
  | stop => path.stop = false → path.buf = .empty
  | _ => True

end QueueEvent

namespace PathSender

/-! ## The bytes that are held -/

theorem segmentBytes_pos (seg : SimSegment) : 0 < segmentBytes seg := by
  rw [segmentBytes, simSegmentHeaderSize]
  omega

theorem segmentBytes_le (seg : SimSegment) : segmentBytes seg ≤ 2 ^ 11 := by
  have fits : seg.data.size ≤ 1000 := seg.data.bounded
  have header : simSegmentHeaderSize ≤ 48 := by decide
  rw [segmentBytes]
  omega

theorem segmentLen_toNat (seg : SimSegment) : (segmentLen seg).toNat = segmentBytes seg := by
  have small := segmentBytes_le seg
  have sum : segmentLen seg = UInt32.ofNat (segmentBytes seg) := by
    rw [segmentLen, segmentBytes, UInt32.ofNat_add]
  rw [sum]
  exact UInt32.toNat_ofNat_of_lt' (lt_of_le_of_lt small (by decide))

/-- At most `2 ^ 16` segments are held, so their bytes are far below 32 bits. -/
theorem held_le (path : PathSender) : path.held ≤ 2 ^ 27 := by
  have count : path.buf.entries.length ≤ 2 ^ 16 := by
    have := UInt16.length_le_of_nodup path.buf.keys_nodup
    rwa [SortedMap.length_keys, SortedMap.size] at this
  have sum := List.sum_le_card_nsmul (path.buf.entries.map fun entry => segmentBytes entry.2)
    (2 ^ 11) (by
      intro bytes member
      obtain ⟨entry, -, rfl⟩ := List.mem_map.mp member
      exact segmentBytes_le entry.2)
  rw [List.length_map, nsmul_eq_mul, Nat.cast_id] at sum
  exact sum.trans (by omega)

theorem held_eq_zero_iff {path : PathSender} : path.held = 0 ↔ path.buf = .empty := by
  rw [held, SortedMap.total_eq_zero_iff]
  exact fun entry _ => segmentBytes_pos entry.2

/-- The counters of a path that was just connected. -/
theorem accurate_fresh (pid : UInt8) (uid : UInt32) (paceMode : PaceMode) :
    Accurate { pid, uid, paceMode } := ⟨rfl, rfl⟩

/-! ## One event -/

/-- Adding to a counter that fits. -/
theorem toNat_add_segmentLen {counter : UInt32} {path : PathSender}
    (counts : counter.toNat = path.held) (seg : SimSegment) :
    (counter + segmentLen seg).toNat = path.held + segmentBytes seg := by
  have total := held_le path
  have one := segmentBytes_le seg
  rw [UInt32.toNat_add, counts, segmentLen_toNat, Nat.mod_eq_of_lt (by omega)]

/-- **A segment is counted exactly if its transport number is free.** -/
theorem put_accurate_iff {path : PathSender} (accurate : path.Accurate)
    (running : path.stop = false) (seg : SimSegment) :
    (path.put seg).1.Accurate ↔ path.transSeq ∉ path.buf.keys := by
  obtain ⟨pacing, pacingRunning, queued⟩ := put_eq running seg
  have grown := toNat_add_segmentLen accurate.1 seg
  have grown' := toNat_add_segmentLen accurate.2 seg
  have after : (path.put seg).1.held = (path.buf.insert path.transSeq
      { seg with packetId := path.packetSeed, transportSeq := path.transSeq }).total
        segmentBytes := by
    rw [queued, held]
  rw [Accurate, after, queued, SortedMap.mem_keys_iff]
  dsimp only
  rw [grown, grown', and_self]
  cases used : path.buf.find? path.transSeq with
  | none =>
      refine iff_of_true ?_ (by simp)
      rw [SortedMap.total_insert segmentBytes used, add_comm]
      rfl
  | some old =>
      refine iff_of_false ?_ (by simp)
      have positive := segmentBytes_pos seg
      rw [SortedMap.insert_of_find?_some used, ← held]
      omega

/-- Taking a segment out of a counter that counts it. -/
theorem toNat_sub_segmentLen {counter : UInt32} {rest : Nat} {seg : SimSegment}
    (counts : counter.toNat = segmentBytes seg + rest) :
    (counter - segmentLen seg).toNat = rest := by
  have covered : segmentLen seg ≤ counter := by
    rw [UInt32.le_iff_toNat_le, segmentLen_toNat, counts]
    exact Nat.le_add_right ..
  rw [UInt32.toNat_sub_of_le _ _ covered, segmentLen_toNat, counts]
  omega

/-- **A segment that is taken out is taken out of both counters.** -/
theorem Accurate.take {path : PathSender} (accurate : path.Accurate) {id : UInt16}
    {seg : SimSegment} (found : path.buf.find? id = some seg) : (path.take id seg).Accurate := by
  have split : path.held = segmentBytes seg + (path.take id seg).held :=
    SortedMap.total_erase segmentBytes found
  exact ⟨toNat_sub_segmentLen (accurate.1.trans split),
    toNat_sub_segmentLen (accurate.2.trans split)⟩

theorem Accurate.getSegment {path : PathSender} (accurate : path.Accurate) (seq : UInt16)
    (retrans : Bool) : (path.getSegment seq retrans).2.Accurate := by
  rw [PathSender.getSegment]
  split_ifs
  · exact accurate
  · cases found : path.buf.find? seq with
    | none => exact accurate
    | some seg => exact accurate.take found

theorem Accurate.getFirstSegment {path : PathSender} (accurate : path.Accurate) :
    path.getFirstSegment.2.Accurate := by
  rw [PathSender.getFirstSegment]
  cases queued : path.buf.entries with
  | nil => exact accurate
  | cons entry rest =>
      refine accurate.take (SortedMap.find?_eq_some_iff.mpr ?_)
      exact queued ▸ List.mem_cons_self

theorem Accurate.timeToSendPacket {path : PathSender} (accurate : path.Accurate) (seq : UInt16)
    (retransmission : Bool) (now : UInt32) (firstTs : Int64) :
    (path.timeToSendPacket seq retransmission now firstTs).1.Accurate := by
  have taken := accurate.getSegment seq retransmission
  rw [PathSender.timeToSendPacket]
  split_ifs
  · exact accurate
  · split
    next seg after found =>
      rw [found] at taken
      obtain ⟨sendTs, strm, sent⟩ := sendSegment_eq now firstTs seg after
      rw [sent]
      exact taken
    next after found =>
      rw [found] at taken
      exact taken

/-- **A running path is stopped accurately exactly if its queue is empty**: `pending_len_`
keeps what was in it. -/
theorem stopPath_accurate_iff {path : PathSender} (accurate : path.Accurate)
    (running : path.stop = false) : path.stopPath.Accurate ↔ path.buf = .empty := by
  rw [stopPath, if_neg (by simp [running])]
  constructor
  · rintro ⟨-, pending⟩
    exact held_eq_zero_iff.mp (accurate.2.symm.trans pending)
  · intro nothing
    have none : path.held = 0 := held_eq_zero_iff.mpr nothing
    refine ⟨?_, accurate.2.trans none⟩
    rw [nothing]
    exact accurate.1.trans none

/-! ## Runs -/

/-- Whether the event keeps an accurate path accurate. -/
theorem handle_accurate_iff {path : PathSender} (accurate : path.Accurate) (event : QueueEvent) :
    (event.handle path).1.Accurate ↔ event.Safe path := by
  cases event with
  | put seg =>
      cases running : path.stop with
      | false =>
          simp only [QueueEvent.Safe, running, forall_const]
          exact put_accurate_iff accurate running seg
      | true =>
          refine iff_of_true ?_ (by simp [QueueEvent.Safe, running])
          rw [QueueEvent.handle, put, if_pos running]
          exact accurate
  | timeToSendPacket seq retransmission now firstTs =>
      exact iff_of_true (accurate.timeToSendPacket seq retransmission now firstTs) trivial
  | getSegment seq retrans => exact iff_of_true (accurate.getSegment seq retrans) trivial
  | getFirstSegment => exact iff_of_true accurate.getFirstSegment trivial
  | sendPadding body ts => exact iff_of_true accurate trivial
  | stop =>
      cases running : path.stop with
      | false =>
          simp only [QueueEvent.Safe, running, forall_const]
          exact stopPath_accurate_iff accurate running
      | true =>
          refine iff_of_true ?_ (by simp [QueueEvent.Safe, running])
          rw [QueueEvent.handle, stopPath, if_pos running]
          exact accurate

/-- **The counters of a path are the bytes in its queue in every state of a run if and only
if every segment is put under a transport number that is not in use and the path is stopped
with an empty queue.** -/
theorem accurate_iff (pid : UInt8) (uid : UInt32) (paceMode : PaceMode)
    (events : List QueueEvent) :
    (∀ n last out, QueueEvent.machine.run { pid, uid, paceMode } (events.take n) =
        some (last, out) → last.Accurate) ↔
      QueueEvent.machine.Along (fun path event => event.Safe path) { pid, uid, paceMode }
        events := by
  have decides : ∀ path event next out, True → path.Accurate →
      QueueEvent.machine.step path event = some (next, out) →
        (next.Accurate ↔ event.Safe path) := by
    intro path event next out _ accurate stepped
    obtain ⟨rfl, -⟩ := Prod.mk.inj (Option.some.inj stepped)
    exact handle_accurate_iff accurate event
  exact Machine.prefixes_good_iff (fun path event => ⟨_, _, rfl⟩) (fun _ _ _ _ _ _ => trivial)
    decides trivial (accurate_fresh pid uid paceMode)

/-- A segment without data. -/
def blank : SimSegment := ⟨0, 1, 0, 0, 1, 0, 0, 0, 0, 0, .empty⟩

/-- A connected path that is stopped with one segment in its queue. -/
theorem stopPath_inaccurate :
    ¬ ∀ n last out, QueueEvent.machine.run { pid := 1, uid := 1 }
        ([.put blank, .stop].take n) = some (last, out) → last.Accurate := by
  intro always
  exact absurd (always 2 _ _ rfl) (by unfold Accurate; decide)

end PathSender

end MpVideo.Sender
