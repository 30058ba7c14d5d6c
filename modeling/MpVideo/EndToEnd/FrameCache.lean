import MpVideo.Lib.Slots
import MpVideo.Receiver.Tracing
import MpVideo.Sender.MultipathSender

/-!
# The frame cache and the frames sent

The multipath receiver against the list of frames that were passed to `SendVideo`.
A cached frame is a list of slots that are filled with the pieces of one sent frame
(`Cached`); the cache holds frames above the last one forwarded, and what was
forwarded has increasing numbers and faithful contents (`CacheInv`).

A frame number is the position of the frame in 32 bits, so the statements here
assume that no more frames were sent than there are numbers.
-/

set_option autoImplicit false

namespace MpVideo.EndToEnd

open Wire Sender Receiver

/-! ## Frame numbers -/

/-- The number that `SendVideo` gives to the frame at a position. -/
def frameId (k : Nat) : UInt32 := UInt32.ofNat (k + 1)

theorem frameId_succ (k : Nat) : frameId k + 1 = frameId (k + 1) := by
  apply UInt32.toNat_inj.mp
  simp [frameId]

theorem frameId_injective {k l : Nat} (kSmall : k < 2 ^ 32) (lSmall : l < 2 ^ 32)
    (same : frameId k = frameId l) : k = l := by
  have equal := congrArg UInt32.toNat same
  simp only [frameId, UInt32.toNat_ofNat'] at equal
  omega

/-- The segment carries a piece of one of the frames sent, under its number. -/
def Genuine (sent : List Frame) (seg : SimSegment) : Prop :=
  ∃ k frame, sent[k]? = some frame ∧ Carries (frameId k) frame seg

theorem Genuine.mono {sent more : List Frame} {seg : SimSegment} (genuine : Genuine sent seg) :
    Genuine (sent ++ more) seg := by
  obtain ⟨k, frame, found, carries⟩ := genuine
  exact ⟨k, frame, List.getElem?_append_left (List.getElem?_eq_some_iff.mp found).1 ▸ found, carries⟩

/-- The fields that the path sender fills in do not matter. -/
theorem unnumbered_genuine (sent : List Frame) : PathSender.Unnumbered (Genuine sent) where
  numbered _ _ _ := fun ⟨k, frame, found, carries⟩ =>
    ⟨k, frame, found, carries.fid_eq, carries.total_eq, carries.ftype_eq, carries.piece⟩
  sent _ _ := fun ⟨k, frame, found, carries⟩ =>
    ⟨k, frame, found, carries.fid_eq, carries.total_eq, carries.ftype_eq, carries.piece⟩

/-- A genuine segment survives the wire. -/
theorem Genuine.received {sent : List Frame} {seg : SimSegment} (genuine : Genuine sent seg) :
    Genuine sent seg.received := by
  obtain ⟨k, frame, found, carries⟩ := genuine
  refine ⟨k, frame, found, carries.fid_eq, carries.total_eq, ?_, carries.piece⟩
  rw [← carries.ftype_eq]
  exact received_ftype seg

theorem Genuine.legal {sent : List Frame} {seg : SimSegment} (genuine : Genuine sent seg) :
    (SimBody.seg seg).Legal := by
  obtain ⟨k, frame, found, carries⟩ := genuine
  intro small
  have below : seg.index < seg.total := carries.index_lt
  exact le_trans (le_of_lt below) small

/-- What was forwarded comes from the frame with its number: the whole frame, or the
pieces received of a frame that is no key frame. -/
def Faithful (sent : List Frame) (out : Forwarded) : Prop :=
  ∃ k frame, sent[k]? = some frame ∧ out.fid = frameId k ∧ out.total = frame.total.toUInt32 ∧
    (out.recv = out.total ∧ out.data = frame.data ∨
      out.recv < out.total ∧ frame.ftype ≠ 1 ∧
        ∃ kept, List.Sublist kept frame.splits ∧ kept.length = out.recv.toNat ∧
          kept.length < frame.splits.length ∧ out.data = kept.flatten)

theorem Faithful.mono {sent more : List Frame} {out : Forwarded} (faithful : Faithful sent out) :
    Faithful (sent ++ more) out := by
  obtain ⟨k, frame, found, rest⟩ := faithful
  exact ⟨k, frame, List.getElem?_append_left (List.getElem?_eq_some_iff.mp found).1 ▸ found, rest⟩

/-- **Integrity of what was forwarded**: numbers increase, contents are faithful. -/
structure Integrity (sent : List Frame) (log : List Forwarded) : Prop where
  increasing : log.Pairwise fun first second => first.fid < second.fid
  faithful : ∀ out ∈ log, Faithful sent out

/-! ## One cached frame -/

/-- The slots are filled with pieces of the frame. -/
structure Cached (frame : Frame) (fid : UInt32) (cached : VideoFrame) : Prop where
  fid_eq : cached.fid = fid
  total_eq : cached.total = frame.total.toUInt32
  recv_eq : cached.recv.toNat = cached.present.length
  key : frame.ftype.toUInt32.toUInt8 &&& 0x01 = 1 → cached.waittingTs = -1
  fills : Slots.Fills (fun packet : VideoPacket => packet.seg.data.bytes) cached.packets
    frame.splits

namespace Cached

variable {frame : Frame} {fid : UInt32} {cached : VideoFrame}

theorem toNat_total (holds : Cached frame fid cached) :
    cached.total.toNat = frame.splits.length := by
  rw [holds.total_eq, UInt16.toNat_toUInt32, frame.toNat_total]

/-- A new frame has only empty slots. -/
theorem new {seg : SimSegment} (carries : Carries fid frame seg)
    (reduced : seg.ftype &&& 0x01 = seg.ftype) :
    Cached frame fid (VideoFrame.new seg.fid seg.total seg.ftype) where
  fid_eq := carries.fid_eq
  total_eq := congrArg UInt16.toUInt32 carries.total_eq
  recv_eq := by
    simp [VideoFrame.new, VideoFrame.present, List.reduceOption_replicate_none]
  key isKey := by
    have one : seg.ftype = 1 := by rw [← reduced, carries.ftype_eq, isKey]
    simp [VideoFrame.new, one]
  fills := by
    have length : seg.total.toNat = frame.splits.length := by
      rw [carries.total_eq, frame.toNat_total]
    simp only [VideoFrame.new, length]
    exact Slots.fills_empty _

theorem stamp (holds : Cached frame fid cached) (traced : Bool) (env : CacheEnv)
    (seg : SimSegment) : Cached frame fid (cached.stamp traced env seg) := by
  rw [VideoFrame.stamp]
  split_ifs <;> exact ⟨holds.fid_eq, holds.total_eq, holds.recv_eq, holds.key, holds.fills⟩

/-- A segment of the frame fills its slot. -/
theorem place (holds : Cached frame fid cached) {seg : SimSegment}
    (carries : Carries fid frame seg) (empty : cached.packets[seg.index.toNat]? = some none)
    (object : Nat) (pid : UInt8) (now : UInt32) :
    Cached frame fid (cached.place seg.index ⟨object, pid, seg⟩ now) where
  fid_eq := holds.fid_eq
  total_eq := holds.total_eq
  recv_eq := by
    have longer := Slots.length_reduceOption_set (⟨object, pid, seg⟩ : VideoPacket) empty
    have bounded := List.reduceOption_length_le
      (cached.packets.set seg.index.toNat (some ⟨object, pid, seg⟩))
    rw [List.length_set, cached.allocated] at bounded
    have recv := holds.recv_eq
    have small := UInt32.toNat_lt cached.total
    change (cached.recv + 1).toNat = (cached.packets.set _ _).reduceOption.length
    simp only [VideoFrame.present] at recv
    rw [UInt32.toNat_add, longer, recv]
    simp only [UInt32.reduceToNat]
    omega
  key := holds.key
  fills := holds.fills.set carries.piece

theorem await (holds : Cached frame fid cached) (env : CacheEnv) :
    Cached frame fid (cached.await env) := by
  rw [VideoFrame.await]
  split_ifs with waits
  · exact ⟨holds.fid_eq, holds.total_eq, holds.recv_eq,
      fun isKey => absurd (holds.key isKey) waits.2, holds.fills⟩
  · exact holds

/-- **What leaves the cache is faithful.** -/
theorem faithful (holds : Cached frame fid cached) {sent : List Frame} {k : Nat}
    (found : sent[k]? = some frame) (number : fid = frameId k) {now : UInt32}
    (ready : cached.ready now = true) :
    Faithful sent ⟨cached.fid, cached.data, cached.recv, cached.total⟩ := by
  have data : cached.data = (cached.present.map fun packet => packet.seg.data.bytes).flatten := by
    rw [VideoFrame.data, List.flatMap_def]
  refine ⟨k, frame, found, holds.fid_eq.trans number, holds.total_eq, ?_⟩
  simp only [VideoFrame.ready, decide_eq_true_eq] at ready
  rcases ready with complete | ⟨short, mayWait, -⟩
  · refine .inl ⟨complete, ?_⟩
    have full : cached.present.length = cached.packets.length := by
      rw [cached.allocated, ← complete, holds.recv_eq]
    change cached.data = frame.data
    rw [data, VideoFrame.present, holds.fills.full full, frame.flatten_splits]
  · refine .inr ⟨short, fun isKey => mayWait (holds.key ?_), _, holds.fills.sublist, ?_, ?_, data⟩
    · rw [isKey]
      decide
    · rw [List.length_map]
      exact holds.recv_eq.symm
    · rw [List.length_map, ← holds.toNat_total]
      have less := UInt32.lt_iff_toNat_lt.mp short
      rw [holds.recv_eq] at less
      exact less

end Cached

/-! ## The cache -/

/-- The entries are frames sent, above the last one forwarded; what was forwarded
has integrity. -/
structure CacheInv (sent : List Frame) (entries : List (UInt32 × VideoFrame))
    (receiver : MultipathReceiver) (log : List Forwarded) : Prop extends Integrity sent log where
  sink : receiver.sink = true
  cached : ∀ entry ∈ entries, ∃ k frame, sent[k]? = some frame ∧ entry.1 = frameId k ∧
    Cached frame entry.1 entry.2
  above : ∀ entry ∈ entries, receiver.minFid < entry.1
  below : ∀ out ∈ log, out.fid ≤ receiver.minFid

namespace CacheInv

variable {sent : List Frame} {entries : List (UInt32 × VideoFrame)}
  {receiver : MultipathReceiver} {log : List Forwarded}

theorem mono (inv : CacheInv sent entries receiver log) (more : List Frame) :
    CacheInv (sent ++ more) entries receiver log where
  increasing := inv.increasing
  faithful out member := (inv.faithful out member).mono
  sink := inv.sink
  cached entry member := by
    obtain ⟨k, frame, found, rest⟩ := inv.cached entry member
    have small := (List.getElem?_eq_some_iff.mp found).1
    exact ⟨k, frame, List.getElem?_append_left small ▸ found, rest⟩
  above := inv.above
  below := inv.below

/-- Only the sink and the last number forwarded matter. -/
theorem congr (inv : CacheInv sent entries receiver log) {next : MultipathReceiver}
    (sink : next.sink = receiver.sink) (minFid : next.minFid = receiver.minFid) :
    CacheInv sent entries next log where
  increasing := inv.increasing
  faithful := inv.faithful
  sink := sink.trans inv.sink
  cached := inv.cached
  above := minFid ▸ inv.above
  below := minFid ▸ inv.below

/-- The first frame of the cache is forwarded. -/
theorem releaseFrame {entry : UInt32 × VideoFrame} {rest : List (UInt32 × VideoFrame)}
    (inv : CacheInv sent (entry :: rest) receiver log)
    (sorted : (entry :: rest).Pairwise fun first second => first.1 < second.1) {now : UInt32}
    (ready : entry.2.ready now = true) :
    CacheInv sent rest (receiver.releaseFrame now entry.2).1
      (log ++ (receiver.releaseFrame now entry.2).2.filterMap forwarded) := by
  obtain ⟨k, frame, found, number, cached⟩ := inv.cached entry List.mem_cons_self
  have first := inv.above entry List.mem_cons_self
  have later := (List.pairwise_cons.mp sorted).1
  have released := MultipathReceiver.forwarded_releaseFrame inv.sink now entry.2
  have steady := MultipathReceiver.steady_releaseFrame now entry.2 receiver
  have minFid : (receiver.releaseFrame now entry.2).1.minFid = entry.1 := by
    simp only [MultipathReceiver.releaseFrame, MultipathReceiver.deliverFrame, inv.sink, if_true,
      MultipathReceiver.buffCollection, cached.fid_eq, first]
  rw [released]
  refine ⟨⟨?_, ?_⟩, steady.sink.trans inv.sink, ?_, ?_, ?_⟩
  · refine List.pairwise_append.mpr ⟨inv.increasing, List.pairwise_singleton _ _, ?_⟩
    intro out member last isLast
    obtain rfl := List.mem_singleton.mp isLast
    exact lt_of_le_of_lt (inv.below out member) (cached.fid_eq.symm ▸ first)
  · intro out member
    cases List.mem_append.mp member with
    | inl old => exact inv.faithful out old
    | inr isLast => exact List.mem_singleton.mp isLast ▸ cached.faithful found number ready
  · exact fun other member => inv.cached other (List.mem_cons_of_mem _ member)
  · exact fun other member => minFid ▸ later other member
  · intro out member
    rw [minFid]
    cases List.mem_append.mp member with
    | inl old => exact le_trans (inv.below out old) (le_of_lt first)
    | inr isLast => exact List.mem_singleton.mp isLast ▸ le_of_eq cached.fid_eq

theorem checkLoop (inv : CacheInv sent entries receiver log)
    (sorted : entries.Pairwise fun first second => first.1 < second.1) (now : UInt32) :
    CacheInv sent (MultipathReceiver.checkLoop now entries receiver).1
      (MultipathReceiver.checkLoop now entries receiver).2.1
      (log ++ (MultipathReceiver.checkLoop now entries receiver).2.2.filterMap forwarded) := by
  induction entries generalizing receiver log with
  | nil => simpa [MultipathReceiver.checkLoop] using inv
  | cons entry rest ih =>
      rw [MultipathReceiver.checkLoop]
      split_ifs with ready
      · have more := ih (inv.releaseFrame sorted ready) (List.pairwise_cons.mp sorted).2
        simpa only [List.filterMap_append, List.append_assoc] using more
      · simpa using inv

end CacheInv

/-- The invariant of the whole receiver. -/
abbrev ReceiverInv (sent : List Frame) (receiver : MultipathReceiver) (log : List Forwarded) :
    Prop :=
  CacheInv sent receiver.frameCache.entries receiver log

namespace ReceiverInv

variable {sent : List Frame} {receiver : MultipathReceiver} {log : List Forwarded}

/-- **`CheckDeliverFrame` forwards with integrity.** -/
theorem checkDeliverFrame (inv : ReceiverInv sent receiver log) (now : UInt32) :
    ReceiverInv sent (receiver.checkDeliverFrame now).1
      (log ++ (receiver.checkDeliverFrame now).2.filterMap forwarded) := by
  rw [MultipathReceiver.forwarded_checkDeliverFrame]
  exact (inv.checkLoop receiver.frameCache.sorted now).congr rfl rfl

theorem heartBeat (inv : ReceiverInv sent receiver log) (now : UInt32) :
    ReceiverInv sent (receiver.heartBeat now).1
      (log ++ (receiver.heartBeat now).2.filterMap forwarded) := by
  have same : ReceiverInv sent receiver (log ++ [].filterMap forwarded) := by simpa using inv
  simp only [MultipathReceiver.heartBeat, MultipathReceiver.process]
  split_ifs
  · exact same
  · exact same.congr rfl rfl
  · exact (inv.checkDeliverFrame now).congr rfl rfl

theorem heartBeatExpired (inv : ReceiverInv sent receiver log) (now : UInt32) :
    ReceiverInv sent (receiver.heartBeatExpired now).1
      (log ++ (receiver.heartBeatExpired now).2.filterMap forwarded) := by
  have expired : ReceiverInv sent { receiver with hbTimer := false } log := inv.congr rfl rfl
  exact expired.heartBeat now

theorem firstHeartBeat (inv : ReceiverInv sent receiver log) (now : UInt32) :
    ReceiverInv sent (receiver.firstHeartBeat now).1
      (log ++ (receiver.firstHeartBeat now).2.filterMap forwarded) := by
  simp only [MultipathReceiver.firstHeartBeat]
  split_ifs
  · simpa using inv
  · exact (inv.heartBeat now).congr rfl rfl

/-- A genuine segment that finds its slot empty is stored. -/
theorem store (inv : ReceiverInv sent receiver log) {seg : SimSegment} {k : Nat} {frame : Frame}
    (found : sent[k]? = some frame) (carries : Carries (frameId k) frame seg)
    (cached : Cached frame (frameId k) (receiver.frameOf seg))
    (late : receiver.checkLateFrame seg.fid = false)
    (empty : (receiver.frameOf seg).packets[seg.index.toNat]? = some none)
    (env : CacheEnv) (pid : UInt8) : ReceiverInv sent (receiver.store env pid seg) log := by
  have members : receiver.takeObject.2.frameCache = receiver.frameCache ∧
      receiver.takeObject.2.sink = receiver.sink ∧
      receiver.takeObject.2.minFid = receiver.minFid := by
    rw [MultipathReceiver.takeObject]
    cases receiver.freeSegs <;> exact ⟨rfl, rfl, rfl⟩
  obtain ⟨cache, sink, minFid⟩ := members
  have stamped := cached.stamp receiver.takeObject.2.frameInfoCb env seg
  have slot : ((receiver.frameOf seg).stamp receiver.takeObject.2.frameInfoCb env seg).packets =
      (receiver.frameOf seg).packets := by
    rw [VideoFrame.stamp]
    split_ifs <;> rfl
  have placed := (stamped.place carries (slot ▸ empty) receiver.takeObject.1 pid env.now).await env
  have fid := carries.fid_eq
  refine ⟨inv.toIntegrity, sink.trans inv.sink, ?_, ?_, ?_⟩
  · intro entry member
    rcases SortedMap.mem_setList_of member with rfl | old
    · exact ⟨k, frame, found, fid, fid.symm ▸ placed⟩
    · exact inv.cached entry (cache ▸ old)
  · intro entry member
    change receiver.takeObject.2.minFid < entry.1
    rw [minFid]
    rcases SortedMap.mem_setList_of member with rfl | old
    · simpa [MultipathReceiver.checkLateFrame] using late
    · exact inv.above entry (cache ▸ old)
  · intro out member
    change out.fid ≤ receiver.takeObject.2.minFid
    rw [minFid]
    exact inv.below out member

/-- The frame that a genuine segment finds is the one it belongs to. -/
theorem frameOf (inv : ReceiverInv sent receiver log) (few : sent.length ≤ 2 ^ 32)
    {seg : SimSegment} {k : Nat} {frame : Frame} (found : sent[k]? = some frame)
    (carries : Carries (frameId k) frame seg) (reduced : seg.ftype &&& 0x01 = seg.ftype) :
    Cached frame (frameId k) (receiver.frameOf seg) := by
  rw [MultipathReceiver.frameOf]
  cases old : receiver.frameCache.find? seg.fid with
  | none => exact Cached.new carries reduced
  | some cached =>
      obtain ⟨l, other, foundOther, number, holds⟩ :=
        inv.cached (seg.fid, cached) (SortedMap.find?_eq_some_iff.mp old)
      have kSmall := (List.getElem?_eq_some_iff.mp found).1
      have lSmall := (List.getElem?_eq_some_iff.mp foundOther).1
      have same : l = k :=
        frameId_injective (by omega) (by omega) (number.symm.trans carries.fid_eq)
      subst same
      obtain rfl := Option.some.inj (foundOther.symm.trans found)
      exact carries.fid_eq ▸ holds

/-- **The arrival of a genuine segment is defined and forwards with integrity.** -/
theorem deliverToCache (inv : ReceiverInv sent receiver log) (few : sent.length ≤ 2 ^ 32)
    {seg : SimSegment} (genuine : Genuine sent seg) (reduced : seg.ftype &&& 0x01 = seg.ftype)
    (env : CacheEnv) (pid : UInt8) :
    ∃ next calls, receiver.deliverToCache env pid seg = some (next, calls) ∧
      ReceiverInv sent next (log ++ calls.filterMap forwarded) := by
  cases stopped : receiver.stop with
  | true =>
      refine ⟨receiver, [], ?_, by simpa using inv⟩
      rw [MultipathReceiver.deliverToCache, if_pos stopped]
  | false =>
      obtain ⟨k, frame, found, carries⟩ := genuine
      have began := inv.firstHeartBeat env.now
      have cached := began.frameOf few found carries reduced
      rw [MultipathReceiver.deliverToCache_running stopped]
      generalize receiver.firstHeartBeat env.now = first at began cached
      have onward : ∀ next calls, first.1.accept env pid seg = some (next, calls) →
          ReceiverInv sent next (log ++ first.2.filterMap forwarded ++ calls.filterMap forwarded) →
          ∃ next calls, (first.1.accept env pid seg).map (fun result =>
            (result.1, first.2 ++ result.2)) = some (next, calls) ∧
              ReceiverInv sent next (log ++ calls.filterMap forwarded) := by
        intro next calls accepted holds
        refine ⟨next, first.2 ++ calls, by rw [accepted]; rfl, ?_⟩
        rwa [List.filterMap_append, ← List.append_assoc]
      cases late : first.1.checkLateFrame seg.fid with
      | true =>
          refine onward first.1 [] ?_ (by simpa using began)
          rw [MultipathReceiver.accept, if_pos late]
      | false =>
          cases slot : (first.1.frameOf seg).packets[seg.index.toNat]? with
          | none =>
              have beyond := List.getElem?_eq_none_iff.mp slot
              rw [(first.1.frameOf seg).allocated, cached.total_eq, UInt16.toNat_toUInt32,
                ← carries.total_eq] at beyond
              exact absurd carries.index_lt (Nat.not_lt.mpr beyond)
          | some content =>
              cases content with
              | some packet =>
                  refine onward first.1 [] ?_ (by simpa using began)
                  rw [MultipathReceiver.accept, if_neg (by simp [late]), slot]
              | none =>
                  have stored := began.store found carries cached late slot env pid
                  exact onward _ _ (MultipathReceiver.accept_stored late slot)
                    (stored.checkDeliverFrame env.now)

end ReceiverInv

end MpVideo.EndToEnd
