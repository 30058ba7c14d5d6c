import MpVideo.Lib.Slots
import MpVideo.Receiver.Tracing
import MpVideo.Wire.RoundTrip

/-!
# The slots of a cached frame

`DeliverToCache` allocates the slots of a frame for the total of the segment that
arrives first, and writes every segment of the frame to the slot of its index. Neither
number is checked when a segment is decoded.

While no index is outside the slots, a cached frame counts its occupied slots and
never counts more than it has (`cache_sound_iff`). An index outside of them is an
access to memory the frame does not own.
-/

set_option autoImplicit false

namespace MpVideo.Receiver

open Wire

namespace VideoFrame

/-- A frame counts the slots that are occupied. -/
def Counts (frame : VideoFrame) : Prop := frame.recv.toNat = frame.present.length

theorem length_present_le_total (frame : VideoFrame) :
    frame.present.length ≤ frame.total.toNat :=
  frame.allocated ▸ List.reduceOption_length_le _

theorem Counts.recv_le_total {frame : VideoFrame} (counts : frame.Counts) :
    frame.recv ≤ frame.total := by
  rw [UInt32.le_iff_toNat_le, counts]
  exact frame.length_present_le_total

theorem counts_new (fid : UInt32) (total : UInt16) (ftype : UInt8) :
    (new fid total ftype).Counts := by
  simp [Counts, new, present, List.reduceOption_replicate_none]

theorem Counts.stamp {frame : VideoFrame} (counts : frame.Counts) (traced : Bool) (env : CacheEnv)
    (seg : SimSegment) : (frame.stamp traced env seg).Counts := by
  rw [VideoFrame.stamp]
  split_ifs <;> exact counts

theorem Counts.await {frame : VideoFrame} (counts : frame.Counts) (env : CacheEnv) :
    (frame.await env).Counts := by
  rw [VideoFrame.await]
  split_ifs <;> exact counts

theorem stamp_packets (traced : Bool) (env : CacheEnv) (seg : SimSegment) (frame : VideoFrame) :
    (frame.stamp traced env seg).packets = frame.packets := by
  rw [stamp]
  split_ifs <;> rfl

/-- A packet that enters an empty slot is counted. The counter does not wrap, since
the slots are as many as a counter can say. -/
theorem Counts.place {frame : VideoFrame} (counts : frame.Counts) {index : UInt16}
    (empty : frame.packets[index.toNat]? = some none) (packet : VideoPacket) (now : UInt32) :
    (frame.place index packet now).Counts := by
  have longer := Slots.length_reduceOption_set packet empty
  have bounded := (frame.place index packet now).length_present_le_total
  have small := UInt32.toNat_lt frame.total
  change (frame.recv + 1).toNat = (frame.packets.set index.toNat (some packet)).reduceOption.length
  change (frame.packets.set index.toNat (some packet)).reduceOption.length ≤ frame.total.toNat
    at bounded
  rw [Counts, present] at counts
  rw [UInt32.toNat_add, longer, counts]
  simp only [UInt32.reduceToNat]
  omega

end VideoFrame

namespace MultipathReceiver

/-- Every cached frame counts its occupied slots, has no more of them than its total,
and has as many slots as its total. -/
def SoundCache (receiver : MultipathReceiver) : Prop :=
  ∀ entry ∈ receiver.frameCache.entries,
    entry.2.recv.toNat = entry.2.present.length ∧ entry.2.recv ≤ entry.2.total ∧
      entry.2.packets.length = entry.2.total.toNat

/-- The segment is discarded, or its index is below the total of its frame: the one of
the segment that the frame was cached for, or its own when it is the first. -/
def InRange (receiver : MultipathReceiver) : CacheEvent → Prop
  | .deliverToCache _ _ seg =>
      receiver.stop = true ∨ receiver.checkLateFrame seg.fid = true ∨
        seg.index.toNat < (receiver.frameOf seg).total.toNat
  | _ => True

/-! ## One event -/

/-- What every event keeps: the frames count, and before the first segment there are none. -/
structure Counting (receiver : MultipathReceiver) : Prop where
  counts : ∀ entry ∈ receiver.frameCache.entries, entry.2.Counts
  idle : receiver.firstPacket = false → receiver.frameCache.entries = []

theorem Counting.sound {receiver : MultipathReceiver} (counting : receiver.Counting) :
    receiver.SoundCache := fun entry member =>
  ⟨counting.counts entry member, (counting.counts entry member).recv_le_total,
    entry.2.allocated⟩

/-- A check leaves some of the frames. -/
theorem Counting.checkDeliverFrame {receiver : MultipathReceiver} (counting : receiver.Counting)
    (now : UInt32) : (receiver.checkDeliverFrame now).1.Counting where
  counts entry member :=
    counting.counts entry ((checkLoop_suffix now _ receiver).subset member)
  idle unused := by
    rw [(steady_checkDeliverFrame now receiver).firstPacket] at unused
    have left := (checkLoop_suffix now receiver.frameCache.entries receiver)
    rw [counting.idle unused] at left
    simp only [MultipathReceiver.checkDeliverFrame, counting.idle unused]
    exact List.suffix_nil.mp left

theorem Counting.heartBeat {receiver : MultipathReceiver} (counting : receiver.Counting)
    (now : UInt32) : (receiver.heartBeat now).1.Counting := by
  simp only [MultipathReceiver.heartBeat, process]
  split_ifs
  · exact counting
  · exact ⟨counting.counts, counting.idle⟩
  · have checked := counting.checkDeliverFrame now
    exact ⟨checked.counts, checked.idle⟩

theorem Counting.firstHeartBeat {receiver : MultipathReceiver} (counting : receiver.Counting)
    (now : UInt32) : (receiver.firstHeartBeat now).1.Counting := by
  simp only [MultipathReceiver.firstHeartBeat]
  split_ifs
  · exact counting
  · exact ⟨(counting.heartBeat now).counts, fun unused => by cases unused⟩

theorem firstHeartBeat_firstPacket (receiver : MultipathReceiver) (now : UInt32) :
    (receiver.firstHeartBeat now).1.firstPacket = true := by
  simp only [firstHeartBeat]
  split_ifs with began
  · exact began
  · rfl

theorem takeObject_frameCache (receiver : MultipathReceiver) :
    receiver.takeObject.2.frameCache = receiver.frameCache ∧
      receiver.takeObject.2.firstPacket = receiver.firstPacket := by
  rw [takeObject]
  cases receiver.freeSegs <;> exact ⟨rfl, rfl⟩

theorem Counting.frameOf {receiver : MultipathReceiver} (counting : receiver.Counting)
    (seg : SimSegment) : (receiver.frameOf seg).Counts := by
  rw [MultipathReceiver.frameOf]
  cases found : receiver.frameCache.find? seg.fid with
  | none => exact VideoFrame.counts_new ..
  | some frame => exact counting.counts _ (SortedMap.find?_eq_some_iff.mp found)

/-- **A segment that finds its slot empty is counted in its frame.** -/
theorem Counting.store {receiver : MultipathReceiver} (counting : receiver.Counting)
    (began : receiver.firstPacket = true) {seg : SimSegment}
    (empty : (receiver.frameOf seg).packets[seg.index.toNat]? = some none) (env : CacheEnv)
    (pid : UInt8) : (receiver.store env pid seg).Counting := by
  obtain ⟨cache, first⟩ := takeObject_frameCache receiver
  refine ⟨?_, ?_⟩
  · intro entry member
    rcases SortedMap.mem_setList_of member with rfl | old
    · have stamped := (counting.frameOf seg).stamp receiver.takeObject.2.frameInfoCb env seg
      rw [← VideoFrame.stamp_packets receiver.takeObject.2.frameInfoCb env seg] at empty
      exact (stamped.place empty _ env.now).await env
    · exact counting.counts entry (cache ▸ old)
  · intro unused
    rw [show (receiver.store env pid seg).firstPacket = receiver.firstPacket from first,
      began] at unused
    cases unused

/-- The first heartbeat finds nothing to deliver. -/
theorem Counting.firstHeartBeat_frames {receiver : MultipathReceiver}
    (counting : receiver.Counting) (now : UInt32) :
    (receiver.firstHeartBeat now).1.frameCache = receiver.frameCache ∧
      (receiver.firstHeartBeat now).1.minFid = receiver.minFid := by
  cases began : receiver.firstPacket with
  | true => simp [MultipathReceiver.firstHeartBeat, began]
  | false =>
      have empty := SortedMap.entries_eq_nil_iff.mp (counting.idle began)
      simp only [MultipathReceiver.firstHeartBeat, began, MultipathReceiver.heartBeat, process,
        Bool.false_eq_true, if_false]
      split_ifs
      · exact ⟨rfl, rfl⟩
      · exact ⟨rfl, rfl⟩
      · simp [MultipathReceiver.checkDeliverFrame, empty, SortedMap.empty, checkLoop]

/-- A segment is accepted exactly when its index is in range. -/
theorem accept_defined_iff (env : CacheEnv) (pid : UInt8) (seg : SimSegment)
    (receiver : MultipathReceiver) :
    (∃ result, receiver.accept env pid seg = some result) ↔
      receiver.checkLateFrame seg.fid = true ∨
        seg.index.toNat < (receiver.frameOf seg).total.toNat := by
  rw [accept, ← (receiver.frameOf seg).allocated]
  cases late : receiver.checkLateFrame seg.fid with
  | true => exact iff_of_true ⟨_, rfl⟩ (.inl rfl)
  | false =>
      rw [or_iff_right Bool.false_ne_true, if_neg Bool.false_ne_true]
      cases slot : (receiver.frameOf seg).packets[seg.index.toNat]? with
      | none =>
          refine iff_of_false ?_ (not_lt_of_ge (List.getElem?_eq_none_iff.mp slot))
          rintro ⟨result, accepted⟩
          cases accepted
      | some stored =>
          refine iff_of_true ?_ (List.getElem?_eq_some_iff.mp slot).1
          cases stored with
          | some packet => exact ⟨_, rfl⟩
          | none => exact ⟨_, rfl⟩

/-- **An event has a defined result if and only if its segment is in range.** -/
theorem Counting.handle_defined_iff {receiver : MultipathReceiver} (counting : receiver.Counting)
    (event : CacheEvent) :
    (∃ next calls, receiver.handle event = some (next, calls)) ↔ receiver.InRange event := by
  cases event with
  | heartBeatExpired now => exact iff_of_true ⟨_, _, rfl⟩ trivial
  | stop => exact iff_of_true ⟨_, _, rfl⟩ trivial
  | deliverToCache env pid seg =>
      cases stopped : receiver.stop with
      | true =>
          refine iff_of_true ⟨receiver, [], ?_⟩ (.inl stopped)
          rw [handle, deliverToCache, stopped, if_pos rfl]
      | false =>
          obtain ⟨cache, minFid⟩ := counting.firstHeartBeat_frames env.now
          have frame : (receiver.firstHeartBeat env.now).1.frameOf seg = receiver.frameOf seg := by
            rw [MultipathReceiver.frameOf, cache, MultipathReceiver.frameOf]
          have late : (receiver.firstHeartBeat env.now).1.checkLateFrame seg.fid =
              receiver.checkLateFrame seg.fid := by
            rw [checkLateFrame, minFid, checkLateFrame]
          rw [handle, deliverToCache_running stopped, InRange, stopped,
            or_iff_right Bool.false_ne_true, ← late, ← frame, ← accept_defined_iff env pid seg]
          constructor
          · rintro ⟨next, calls, defined⟩
            obtain ⟨result, accepted, -⟩ := Option.map_eq_some_iff.mp defined
            exact ⟨result, accepted⟩
          · rintro ⟨result, accepted⟩
            exact ⟨_, _, Option.map_eq_some_iff.mpr ⟨result, accepted, rfl⟩⟩

/-- A segment is discarded, or it finds its slot empty and is stored. -/
theorem accept_cases {receiver next : MultipathReceiver} {env : CacheEnv} {pid : UInt8}
    {seg : SimSegment} {calls : List CacheCall}
    (accepted : receiver.accept env pid seg = some (next, calls)) :
    next = receiver ∨ (receiver.frameOf seg).packets[seg.index.toNat]? = some none ∧
      next = ((receiver.store env pid seg).checkDeliverFrame env.now).1 := by
  rw [MultipathReceiver.accept] at accepted
  split_ifs at accepted with late
  · exact .inl (Prod.mk.inj (Option.some.inj accepted)).1.symm
  · cases slot : (receiver.frameOf seg).packets[seg.index.toNat]? with
    | none =>
        rw [slot] at accepted
        cases accepted
    | some stored =>
        rw [slot] at accepted
        cases stored with
        | some packet => exact .inl (Prod.mk.inj (Option.some.inj accepted)).1.symm
        | none => exact .inr ⟨rfl, (congrArg Prod.fst (Option.some.inj accepted)).symm⟩

theorem Counting.accept {receiver next : MultipathReceiver} (counting : receiver.Counting)
    (began : receiver.firstPacket = true) {env : CacheEnv} {pid : UInt8} {seg : SimSegment}
    {calls : List CacheCall} (accepted : receiver.accept env pid seg = some (next, calls)) :
    next.Counting := by
  rcases accept_cases accepted with rfl | ⟨empty, rfl⟩
  · exact counting
  · exact (counting.store began empty env pid).checkDeliverFrame env.now

/-- What an event can do. -/
theorem handle_cases {receiver next : MultipathReceiver} {event : CacheEvent}
    {calls : List CacheCall} (handled : receiver.handle event = some (next, calls)) :
    next = receiver ∨
    (∃ now, event = .heartBeatExpired now ∧
      next = ({ receiver with hbTimer := false }.heartBeat now).1) ∨
    (event = .stop ∧ next = receiver.stopReceiver) ∨
    ∃ env pid seg more, event = .deliverToCache env pid seg ∧
      (receiver.firstHeartBeat env.now).1.accept env pid seg = some (next, more) := by
  cases event with
  | heartBeatExpired now =>
      exact .inr (.inl ⟨now, rfl, (congrArg Prod.fst (Option.some.inj handled)).symm⟩)
  | stop => exact .inr (.inr (.inl ⟨rfl, (Prod.mk.inj (Option.some.inj handled)).1.symm⟩))
  | deliverToCache env pid seg =>
      rw [MultipathReceiver.handle] at handled
      cases stopped : receiver.stop with
      | true =>
          rw [deliverToCache, stopped, if_pos rfl] at handled
          exact .inl (Prod.mk.inj (Option.some.inj handled)).1.symm
      | false =>
          rw [deliverToCache_running stopped] at handled
          obtain ⟨⟨last, more⟩, accepted, same⟩ := Option.map_eq_some_iff.mp handled
          obtain ⟨rfl, -⟩ := Prod.mk.inj same
          exact .inr (.inr (.inr ⟨env, pid, seg, more, rfl, accepted⟩))

/-- **Every event leaves the frames counting.** -/
theorem Counting.handle {receiver next : MultipathReceiver} (counting : receiver.Counting)
    {event : CacheEvent} {calls : List CacheCall}
    (handled : receiver.handle event = some (next, calls)) : next.Counting := by
  obtain rfl | ⟨now, -, rfl⟩ | ⟨-, rfl⟩ | ⟨env, pid, seg, more, -, accepted⟩ :=
    handle_cases handled
  · exact counting
  · have expired : ({ receiver with hbTimer := false } : MultipathReceiver).Counting :=
      ⟨counting.counts, counting.idle⟩
    exact expired.heartBeat now
  · exact ⟨counting.counts, counting.idle⟩
  · exact (counting.firstHeartBeat env.now).accept
      (firstHeartBeat_firstPacket receiver env.now) accepted

/-! ## Runs -/

/-- A receiver before its first segment, with or without a sink and callbacks. -/
def unused (sink gapCb recvLenCb frameInfoCb : Bool) : MultipathReceiver :=
  { sink, gapCb, recvLenCb, frameInfoCb }

/-- **The cache stays sound if and only if every index is in range.** Every access to the
slots is in bounds, and after every prefix of the events each cached frame counts its
occupied slots and has no more of them than its total. -/
theorem cache_sound_iff (sink gapCb recvLenCb frameInfoCb : Bool) (events : List CacheEvent) :
    (∀ n, ∃ last calls, machine.run (unused sink gapCb recvLenCb frameInfoCb) (events.take n) =
        some (last, calls) ∧ last.SoundCache) ↔
      machine.Along InRange (unused sink gapCb recvLenCb frameInfoCb) events := by
  have initial : (unused sink gapCb recvLenCb frameInfoCb).Counting :=
    ⟨fun entry member => absurd member List.not_mem_nil, fun _ => rfl⟩
  exact Machine.prefixes_defined_iff (fun _ _ _ _ counting handled => counting.handle handled)
    (fun _ counting => counting.sound) (fun _ event counting => counting.handle_defined_iff event)
    initial

/-- A segment with index 5 of a frame of two segments. -/
def outside : SimSegment := ⟨1, 1, 0, 5, 2, 0, 0, 0xff, 0, 1, .empty⟩

/-- It can be decoded from a message, and its slot is outside of its frame. -/
theorem outside_unsound :
    (∃ strm, ((decodeBody .simSeg).run strm).1 = .seg outside) ∧
      ¬ ∀ n, ∃ last calls, machine.run (unused true false false false)
        ([CacheEvent.deliverToCache ⟨0, 0, 0⟩ 0 outside].take n) = some (last, calls) ∧
          last.SoundCache := by
  constructor
  · refine ⟨{ binStreamInit with data := segmentBytes outside }, ?_⟩
    decide
  · intro sound
    obtain ⟨last, calls, ran, -⟩ := sound 1
    have undefined : machine.run (unused true false false false)
        ([CacheEvent.deliverToCache ⟨0, 0, 0⟩ 0 outside].take 1) = none := by decide
    rw [undefined] at ran
    cases ran

end MultipathReceiver

end MpVideo.Receiver
