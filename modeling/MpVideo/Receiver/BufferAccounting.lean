import MpVideo.Receiver.SlotBounds

/-!
# The receive buffer

`recv_buf_len_` grows with every packet that is stored and shrinks with every packet of a
frame that leaves the cache. The packet objects move from the pool to the slots of the
frames and back.

In every state the bytes in the cache are `recv_buf_len_`, and each of the `seg_c_` objects
that were allocated is either in the pool or in one slot (`Accounts`). Both members count in
32 bits (`recvBuf_accounts`), and a key frame that stays incomplete lets the cache grow beyond
that (`recvBufLen_wraps`).
-/

set_option autoImplicit false

namespace MpVideo.Receiver

open Wire

/-- The bytes that a cached packet takes: its data and the header of a segment. -/
def VideoPacket.bytes (packet : VideoPacket) : Nat := packet.seg.data.size + simSegmentHeaderSize

/-- The packets in some frames. -/
def packetsOf (entries : List (UInt32 × VideoFrame)) : List VideoPacket :=
  entries.flatMap fun entry => entry.2.present

/-- The bytes of some packets. -/
def bytesOf (packets : List VideoPacket) : Nat := (packets.map VideoPacket.bytes).sum

@[simp] theorem packetsOf_cons (entry : UInt32 × VideoFrame)
    (entries : List (UInt32 × VideoFrame)) :
    packetsOf (entry :: entries) = entry.2.present ++ packetsOf entries :=
  List.flatMap_cons

@[simp] theorem bytesOf_cons (packet : VideoPacket) (packets : List VideoPacket) :
    bytesOf (packet :: packets) = packet.bytes + bytesOf packets := by
  rw [bytesOf, List.map_cons, List.sum_cons, bytesOf]

theorem bytesOf_append (first second : List VideoPacket) :
    bytesOf (first ++ second) = bytesOf first + bytesOf second := by
  rw [bytesOf, List.map_append, List.sum_append, bytesOf, bytesOf]

theorem bytesOf_perm {first second : List VideoPacket} (perm : first.Perm second) :
    bytesOf first = bytesOf second :=
  (perm.map _).sum_eq

namespace VideoFrame

@[simp] theorem present_new (fid : UInt32) (total : UInt16) (ftype : UInt8) :
    (new fid total ftype).present = [] := by
  simp [new, present, List.reduceOption_replicate_none]

@[simp] theorem present_stamp (traced : Bool) (env : CacheEnv) (seg : SimSegment)
    (frame : VideoFrame) : (frame.stamp traced env seg).present = frame.present := by
  rw [present, stamp_packets, present]

@[simp] theorem present_await (env : CacheEnv) (frame : VideoFrame) :
    (frame.await env).present = frame.present := by
  rw [await]
  split_ifs <;> rfl

theorem present_place {frame : VideoFrame} {index : UInt16}
    (empty : frame.packets[index.toNat]? = some none) (packet : VideoPacket) (now : UInt32) :
    (frame.place index packet now).present.Perm (packet :: frame.present) :=
  Slots.reduceOption_set_perm packet empty

theorem total_stored (frame : VideoFrame) (traced : Bool) (env : CacheEnv) (seg : SimSegment)
    (packet : VideoPacket) :
    (((frame.stamp traced env seg).place seg.index packet env.now).await env).total =
      frame.total := by
  rw [await, stamp]
  split_ifs <;> rfl

end VideoFrame

namespace MultipathReceiver

/-- The packets in the cache. -/
def cachedPackets (receiver : MultipathReceiver) : List VideoPacket :=
  packetsOf receiver.frameCache.entries

/-- The members agree with the packets in some frames and in the pool. -/
structure Accounts (entries : List (UInt32 × VideoFrame)) (receiver : MultipathReceiver) :
    Prop where
  sink : receiver.sink = true
  bytes : receiver.recvBufLen = UInt32.ofNat (bytesOf (packetsOf entries))
  objects : (receiver.freeSegs ++ (packetsOf entries).map VideoPacket.object).Perm
    (List.range receiver.objects)
  segC : receiver.segC = UInt32.ofNat receiver.objects

/-- The packets of the cache are accounted for. -/
abbrev Accounted (receiver : MultipathReceiver) : Prop :=
  Accounts receiver.frameCache.entries receiver

variable {receiver : MultipathReceiver} {entries : List (UInt32 × VideoFrame)}

/-! ## Delivery -/

theorem segmentLen_eq (packet : VideoPacket) :
    segmentLen packet.seg = UInt32.ofNat packet.bytes :=
  (UInt32.ofNat_add ..).symm

/-- The packets that are delivered no longer count. -/
theorem foldl_segmentLen (packets : List VideoPacket) (others : Nat) :
    packets.foldl (fun len packet => len - segmentLen packet.seg)
      (UInt32.ofNat (bytesOf packets + others)) = UInt32.ofNat others := by
  induction packets with
  | nil => rw [bytesOf, List.map_nil, List.sum_nil, Nat.zero_add, List.foldl_nil]
  | cons packet rest ih =>
      rw [List.foldl_cons, bytesOf_cons, Nat.add_assoc, Nat.add_comm, UInt32.ofNat_add,
        segmentLen_eq, UInt32.add_sub_cancel, ih]

/-- A frame leaves the cache. -/
theorem Accounts.releaseFrame {entry : UInt32 × VideoFrame}
    (accounts : Accounts (entry :: entries) receiver) (now : UInt32) :
    Accounts entries (receiver.releaseFrame now entry.2).1 := by
  have steady := steady_releaseFrame now entry.2 receiver
  refine ⟨steady.sink.trans accounts.sink, ?_, ?_, ?_⟩
  · simp only [MultipathReceiver.releaseFrame, deliverFrame, accounts.sink, if_true,
      buffCollection, accounts.bytes, packetsOf_cons, bytesOf_append]
    exact foldl_segmentLen _ _
  · have objects := accounts.objects
    simp only [packetsOf_cons, List.map_append] at objects
    simp only [MultipathReceiver.releaseFrame, deliverFrame, accounts.sink, if_true,
      buffCollection, List.append_assoc]
    exact objects
  · simp only [MultipathReceiver.releaseFrame, deliverFrame, accounts.sink, if_true,
      buffCollection]
    exact accounts.segC

theorem Accounts.checkLoop (accounts : Accounts entries receiver) (now : UInt32) :
    Accounts (checkLoop now entries receiver).1 (checkLoop now entries receiver).2.1 := by
  induction entries generalizing receiver with
  | nil => exact accounts
  | cons entry rest ih =>
      rw [MultipathReceiver.checkLoop]
      split_ifs with ready
      · exact ih (accounts.releaseFrame now)
      · exact accounts

theorem Accounted.checkDeliverFrame (accounted : receiver.Accounted) (now : UInt32) :
    (receiver.checkDeliverFrame now).1.Accounted := by
  have checked := accounted.checkLoop now
  exact ⟨checked.sink, checked.bytes, checked.objects, checked.segC⟩

theorem Accounted.heartBeat (accounted : receiver.Accounted) (now : UInt32) :
    (receiver.heartBeat now).1.Accounted := by
  simp only [MultipathReceiver.heartBeat, process]
  split_ifs
  · exact accounted
  · exact ⟨accounted.sink, accounted.bytes, accounted.objects, accounted.segC⟩
  · have checked := Accounted.checkDeliverFrame accounted now
    exact ⟨checked.sink, checked.bytes, checked.objects, checked.segC⟩

theorem Accounted.firstHeartBeat (accounted : receiver.Accounted) (now : UInt32) :
    (receiver.firstHeartBeat now).1.Accounted := by
  simp only [MultipathReceiver.firstHeartBeat]
  split_ifs
  · exact accounted
  · have beaten := Accounted.heartBeat accounted now
    exact ⟨beaten.sink, beaten.bytes, beaten.objects, beaten.segC⟩

/-! ## Arrival -/

/-- The packet objects after one was taken. -/
theorem takeObject_objects (objects : (receiver.freeSegs ++
      (packetsOf entries).map VideoPacket.object).Perm (List.range receiver.objects)) :
    (receiver.takeObject.2.freeSegs ++ receiver.takeObject.1 ::
      (packetsOf entries).map VideoPacket.object).Perm
        (List.range receiver.takeObject.2.objects) := by
  rw [takeObject]
  cases free : receiver.freeSegs with
  | cons object rest =>
      rw [free] at objects
      exact List.perm_middle.trans objects
  | nil =>
      rw [free, List.nil_append] at objects
      dsimp only
      rw [List.nil_append, List.range_succ]
      exact (objects.cons _).trans (List.perm_append_singleton _ _).symm

theorem takeObject_segC (segC : receiver.segC = UInt32.ofNat receiver.objects) :
    receiver.takeObject.2.segC = UInt32.ofNat receiver.takeObject.2.objects := by
  rw [takeObject]
  cases receiver.freeSegs with
  | cons object rest => exact segC
  | nil =>
      dsimp only
      rw [segC, UInt32.ofNat_add]
      rfl

/-- What storing a segment does to the members besides the buffer. -/
theorem store_members (env : CacheEnv) (pid : UInt8) (seg : SimSegment)
    (receiver : MultipathReceiver) :
    (receiver.store env pid seg).stop = receiver.stop ∧
      (receiver.store env pid seg).firstPacket = receiver.firstPacket ∧
      (receiver.store env pid seg).minFid = receiver.minFid ∧
      (receiver.store env pid seg).frameCache = receiver.frameCache.set seg.fid
        ((((receiver.frameOf seg).stamp receiver.takeObject.2.frameInfoCb env seg).place
          seg.index ⟨receiver.takeObject.1, pid, seg⟩ env.now).await env) := by
  simp only [store, takeObject]
  cases receiver.freeSegs <;> exact ⟨rfl, rfl, rfl, rfl⟩

/-- A segment that finds its slot empty adds one packet to the cache. -/
theorem packetsOf_store {seg : SimSegment}
    (empty : (receiver.frameOf seg).packets[seg.index.toNat]? = some none) (env : CacheEnv)
    (pid : UInt8) :
    (receiver.store env pid seg).cachedPackets.Perm
      (⟨receiver.takeObject.1, pid, seg⟩ :: receiver.cachedPackets) := by
  obtain ⟨-, -, -, cache⟩ := store_members env pid seg receiver
  have slot := empty
  rw [← VideoFrame.stamp_packets receiver.takeObject.2.frameInfoCb env seg] at slot
  have placed := VideoFrame.present_place slot ⟨receiver.takeObject.1, pid, seg⟩ env.now
  rw [VideoFrame.present_stamp] at placed
  -- the frame of the segment, and the other frames
  have others : (receiver.frameCache.entries.flatMap fun entry => entry.2.present).Perm
      ((receiver.frameOf seg).present ++
        packetsOf (receiver.frameCache.erase seg.fid).entries) := by
    rw [frameOf]
    cases found : receiver.frameCache.find? seg.fid with
    | none =>
        rw [Option.getD_none, VideoFrame.present_new, List.nil_append,
          SortedMap.erase_of_find?_none found, packetsOf]
    | some frame =>
        exact (SortedMap.entries_perm_erase found).flatMap_right _
  rw [cachedPackets, packetsOf, cache]
  refine ((SortedMap.entries_perm_set _ _ _).flatMap_right _).trans ?_
  rw [List.flatMap_cons, VideoFrame.present_await]
  exact (placed.append_right _).trans (others.symm.cons _)

theorem Accounted.store (accounted : receiver.Accounted) {seg : SimSegment}
    (empty : (receiver.frameOf seg).packets[seg.index.toNat]? = some none) (env : CacheEnv)
    (pid : UInt8) : (receiver.store env pid seg).Accounted := by
  have stored := packetsOf_store empty env pid
  have members : receiver.takeObject.2.sink = receiver.sink ∧
      receiver.takeObject.2.recvBufLen = receiver.recvBufLen := by
    rw [takeObject]
    cases receiver.freeSegs <;> exact ⟨rfl, rfl⟩
  refine ⟨members.1.trans accounted.sink, ?_, ?_, takeObject_segC accounted.segC⟩
  · change receiver.takeObject.2.recvBufLen + segmentLen seg =
      UInt32.ofNat (bytesOf (receiver.store env pid seg).cachedPackets)
    rw [members.2, accounted.bytes, bytesOf_perm stored, bytesOf_cons, Nat.add_comm,
      UInt32.ofNat_add, ← segmentLen_eq]
    rfl
  · exact ((stored.map VideoPacket.object).append_left _).trans
      (takeObject_objects accounted.objects)

theorem Accounted.accept {next : MultipathReceiver} (accounted : receiver.Accounted)
    {env : CacheEnv} {pid : UInt8} {seg : SimSegment} {calls : List CacheCall}
    (accepted : receiver.accept env pid seg = some (next, calls)) : next.Accounted := by
  rcases accept_cases accepted with rfl | ⟨empty, rfl⟩
  · exact accounted
  · exact Accounted.checkDeliverFrame (Accounted.store accounted empty env pid) env.now

/-- **Every event keeps the accounts.** -/
theorem Accounted.handle {next : MultipathReceiver} (accounted : receiver.Accounted)
    {event : CacheEvent} {calls : List CacheCall}
    (handled : receiver.handle event = some (next, calls)) : next.Accounted := by
  obtain rfl | ⟨now, -, rfl⟩ | ⟨-, rfl⟩ | ⟨env, pid, seg, more, -, accepted⟩ :=
    handle_cases handled
  · exact accounted
  · have expired : ({ receiver with hbTimer := false } : MultipathReceiver).Accounted :=
      ⟨accounted.sink, accounted.bytes, accounted.objects, accounted.segC⟩
    exact Accounted.heartBeat expired now
  · exact ⟨accounted.sink, accounted.bytes, accounted.objects, accounted.segC⟩
  · exact Accounted.accept (Accounted.firstHeartBeat accounted env.now) accepted

/-! ## Runs -/

/-- The segments belong to well-formed frames: every number has one total, and every index
is below it. -/
def WellFormed (total : UInt32 → UInt16) (events : List CacheEvent) : Prop :=
  ∀ env pid seg, .deliverToCache env pid seg ∈ events →
    seg.total = total seg.fid ∧ seg.index < seg.total

/-- The cached frames have the totals of their numbers. -/
def Totals (total : UInt32 → UInt16) (receiver : MultipathReceiver) : Prop :=
  ∀ entry ∈ receiver.frameCache.entries, entry.2.total = (total entry.1).toUInt32

variable {total : UInt32 → UInt16}

theorem Totals.frameOf (totals : receiver.Totals total) {seg : SimSegment}
    (same : seg.total = total seg.fid) :
    (receiver.frameOf seg).total = seg.total.toUInt32 := by
  rw [MultipathReceiver.frameOf]
  cases found : receiver.frameCache.find? seg.fid with
  | none => rfl
  | some frame => rw [same]; exact totals _ (SortedMap.find?_eq_some_iff.mp found)

theorem Totals.checkDeliverFrame (totals : receiver.Totals total) (now : UInt32) :
    (receiver.checkDeliverFrame now).1.Totals total := fun entry member =>
  totals entry ((checkLoop_suffix now _ receiver).subset member)

theorem Totals.heartBeat (totals : receiver.Totals total) (now : UInt32) :
    (receiver.heartBeat now).1.Totals total := by
  simp only [MultipathReceiver.heartBeat, process]
  split_ifs
  · exact totals
  · exact totals
  · exact totals.checkDeliverFrame now

theorem Totals.firstHeartBeat (totals : receiver.Totals total) (now : UInt32) :
    (receiver.firstHeartBeat now).1.Totals total := by
  simp only [MultipathReceiver.firstHeartBeat]
  split_ifs
  · exact totals
  · exact totals.heartBeat now

theorem Totals.accept {next : MultipathReceiver} (totals : receiver.Totals total) {env : CacheEnv}
    {pid : UInt8} {seg : SimSegment} (same : seg.total = total seg.fid) {calls : List CacheCall}
    (accepted : receiver.accept env pid seg = some (next, calls)) : next.Totals total := by
  rcases accept_cases accepted with rfl | ⟨-, rfl⟩
  · exact totals
  · refine Totals.checkDeliverFrame ?_ env.now
    intro entry member
    rcases SortedMap.mem_setList_of member with rfl | old
    · rw [VideoFrame.total_stored, totals.frameOf same, same]
    · exact totals entry ((takeObject_frameCache receiver).1 ▸ old)

theorem Totals.handle {next : MultipathReceiver} (totals : receiver.Totals total)
    {event : CacheEvent} (wellFormed : WellFormed total [event]) {calls : List CacheCall}
    (handled : receiver.handle event = some (next, calls)) : next.Totals total := by
  obtain rfl | ⟨now, -, rfl⟩ | ⟨-, rfl⟩ | ⟨env, pid, seg, more, rfl, accepted⟩ :=
    handle_cases handled
  · exact totals
  · have expired : ({ receiver with hbTimer := false } : MultipathReceiver).Totals total := totals
    exact expired.heartBeat now
  · exact totals
  · obtain ⟨same, -⟩ := wellFormed env pid seg List.mem_cons_self
    exact (totals.firstHeartBeat env.now).accept same accepted

/-- What holds in every state between events. -/
structure Kept (total : UInt32 → UInt16) (receiver : MultipathReceiver) : Prop where
  counting : receiver.Counting
  totals : receiver.Totals total
  accounted : receiver.Accounted

theorem kept_unused (total : UInt32 → UInt16) (gapCb recvLenCb frameInfoCb : Bool) :
    (unused true gapCb recvLenCb frameInfoCb).Kept total where
  counting := ⟨fun _ member => absurd member List.not_mem_nil, fun _ => rfl⟩
  totals := fun _ member => absurd member List.not_mem_nil
  accounted := ⟨rfl, rfl, .refl _, rfl⟩

/-- An event with a segment of a well-formed frame has a result. -/
theorem Kept.step (kept : receiver.Kept total) {event : CacheEvent}
    (wellFormed : WellFormed total [event]) :
    ∃ next calls, machine.step receiver event = some (next, calls) ∧ next.Kept total := by
  have inRange : receiver.InRange event := by
    cases event with
    | deliverToCache env pid seg =>
        obtain ⟨same, small⟩ := wellFormed env pid seg List.mem_cons_self
        refine .inr (.inr ?_)
        rw [kept.totals.frameOf same, UInt16.toNat_toUInt32]
        exact UInt16.lt_iff_toNat_lt.mp small
    | heartBeatExpired now => trivial
    | stop => trivial
  obtain ⟨next, calls, handled⟩ := (kept.counting.handle_defined_iff event).mpr inRange
  exact ⟨next, calls, handled, kept.counting.handle handled,
    kept.totals.handle wellFormed handled, Accounted.handle kept.accounted handled⟩

theorem Kept.run (kept : receiver.Kept total) {events : List CacheEvent}
    (wellFormed : WellFormed total events) :
    ∃ last calls, machine.run receiver events = some (last, calls) ∧ last.Kept total := by
  induction events generalizing receiver with
  | nil => exact ⟨receiver, [], rfl, kept⟩
  | cons event rest ih =>
      have first : WellFormed total [event] := fun env pid seg member =>
        wellFormed env pid seg (List.mem_singleton.mp member ▸ List.mem_cons_self)
      obtain ⟨next, calls, stepped, after⟩ := kept.step first
      obtain ⟨last, more, onwards, final⟩ := ih after fun env pid seg member =>
        wellFormed env pid seg (List.mem_cons_of_mem _ member)
      exact ⟨last, calls ++ more,
        Machine.run_cons.mpr ⟨next, calls, more, stepped, onwards, rfl⟩, final⟩

/-- No object is twice among the free and the cached ones, and they are counted. -/
theorem Accounted.pool (accounted : receiver.Accounted) :
    receiver.segC = UInt32.ofNat (receiver.freeSegs.length + receiver.cachedPackets.length) ∧
      (receiver.freeSegs ++ receiver.cachedPackets.map VideoPacket.object).Nodup := by
  have objects := accounted.objects
  refine ⟨?_, objects.nodup_iff.mpr List.nodup_range⟩
  have count := objects.length_eq
  rw [List.length_append, List.length_map, List.length_range] at count
  rw [accounted.segC, ← count, cachedPackets]

/-! ## Frames behind an incomplete key frame -/

/-- The first one of two segments of the key frame 1. -/
def blocking : SimSegment := ⟨1, 1, 0, 0, 2, 1, 0, 0xff, 0, 1, .empty⟩

/-- A frame of one full segment. -/
def single (fid : UInt32) : SimSegment :=
  ⟨1, fid, 0, 0, 1, 0, 0, 0xff, 0, 1, .zeros simVideoSize⟩

/-- The segment of a frame arrives. -/
def arrives (seg : SimSegment) : CacheEvent := .deliverToCache ⟨0, 0, 0⟩ 0 seg

/-- The key frame, and some frames behind it. -/
def flood (n : Nat) : List CacheEvent :=
  arrives blocking :: (List.range n).map fun i => arrives (single (UInt32.ofNat (i + 2)))

/-- The cache behind the key frame. -/
structure Flooded (n : Nat) (receiver : MultipathReceiver) : Prop where
  stop : receiver.stop = false
  firstPacket : receiver.firstPacket = true
  minFid : receiver.minFid = 0
  front : ∃ frame, receiver.frameCache.find? 1 = some frame ∧ frame.ready 0 = false
  keys : ∀ k ∈ receiver.frameCache.keys, 1 ≤ k ∧ k.toNat ≤ n + 1
  bytes : bytesOf receiver.cachedPackets = 30 + n * 1030

/-- The first frame holds up the others. -/
theorem checkDeliverFrame_blocked {entry : UInt32 × VideoFrame} {now : UInt32}
    (front : receiver.frameCache.entries.head? = some entry) (waits : entry.2.ready now = false) :
    (receiver.checkDeliverFrame now).1 = receiver := by
  obtain ⟨rest, entries⟩ := List.head?_eq_some_iff.mp front
  have loop : checkLoop now receiver.frameCache.entries receiver =
      (receiver.frameCache.entries, receiver, []) := by
    rw [entries, checkLoop, waits, if_neg Bool.false_ne_true]
  simp only [checkDeliverFrame, loop]

/-- One more frame is stored. -/
theorem Flooded.step {n : Nat} (flooded : receiver.Flooded n) (few : n + 2 < 2 ^ 32) :
    ∃ next calls, machine.run receiver [arrives (single (UInt32.ofNat (n + 2)))] =
      some (next, calls) ∧ next.Flooded (n + 1) := by
  have number : (UInt32.ofNat (n + 2)).toNat = n + 2 := by
    rw [UInt32.toNat_ofNat', Nat.mod_eq_of_lt few]
  generalize UInt32.ofNat (n + 2) = fid at number
  have new : receiver.frameCache.find? fid = none := by
    refine Option.eq_none_iff_forall_ne_some.mpr fun frame found => ?_
    have bound := (flooded.keys fid (SortedMap.mem_keys_iff.mpr ⟨frame, found⟩)).2
    omega
  have frame : receiver.frameOf (single fid) = .new fid 1 0 := by
    rw [frameOf]
    change (receiver.frameCache.find? fid).getD _ = _
    rw [new]
    rfl
  have empty : (receiver.frameOf (single fid)).packets[(single fid).index.toNat]? = some none := by
    rw [frame]
    rfl
  have late : receiver.checkLateFrame (single fid).fid = false := by
    rw [checkLateFrame, flooded.minFid]
    change decide (fid ≤ 0) = false
    rw [decide_eq_false_iff_not, UInt32.le_iff_toNat_le, number]
    exact Nat.not_succ_le_zero _
  have other : (1 : UInt32) ≠ fid := by
    rintro rfl
    exact absurd number (by simp)
  obtain ⟨stop, firstPacket, minFid, cache⟩ :=
    store_members ⟨0, 0, 0⟩ 0 (single fid) receiver
  have stored := packetsOf_store empty ⟨0, 0, 0⟩ 0
  obtain ⟨front, found, waits⟩ := flooded.front
  have keys : ∀ k ∈ (receiver.store ⟨0, 0, 0⟩ 0 (single fid)).frameCache.keys,
      1 ≤ k ∧ k.toNat ≤ n + 1 + 1 := by
    intro k member
    rw [cache] at member
    rcases SortedMap.mem_keys_set.mp member with rfl | old
    · refine ⟨UInt32.le_iff_toNat_le.mpr ?_, number.le⟩
      change 1 ≤ k.toNat
      omega
    · exact ⟨(flooded.keys k old).1, (flooded.keys k old).2.trans (Nat.le_succ _)⟩
  have still : (receiver.store ⟨0, 0, 0⟩ 0 (single fid)).frameCache.find? 1 = some front := by
    rw [cache]
    exact (SortedMap.find?_set_of_ne _ other _).trans found
  have blocked := checkDeliverFrame_blocked
    (SortedMap.front_of_le still fun k member => (keys k member).1) waits
  have after : (receiver.store ⟨0, 0, 0⟩ 0 (single fid)).Flooded (n + 1) := by
    refine ⟨stop.trans flooded.stop, firstPacket.trans flooded.firstPacket,
      minFid.trans flooded.minFid, ⟨front, still, waits⟩, keys, ?_⟩
    rw [bytesOf_perm stored, bytesOf_cons, flooded.bytes]
    change (Payload.zeros simVideoSize).size + 30 + (30 + n * 1030) = 30 + (n + 1) * 1030
    rw [Payload.size_zeros, simVideoSize]
    omega
  rw [← blocked] at after
  have handled : receiver.handle (arrives (single fid)) =
      some ((receiver.store ⟨0, 0, 0⟩ 0 (single fid)).checkDeliverFrame 0) := by
    have began : receiver.firstHeartBeat 0 = (receiver, []) := by
      rw [firstHeartBeat, flooded.firstPacket, if_pos rfl]
    rw [arrives, handle, deliverToCache_running flooded.stop, began, accept_stored late empty]
    rfl
  exact ⟨_, _, Machine.run_cons.mpr ⟨_, _, [], handled, rfl, rfl⟩, after⟩

theorem flooded_of_run (n : Nat) (few : n + 1 < 2 ^ 32) :
    ∃ last calls, machine.run (unused true false false false) (flood n) = some (last, calls) ∧
      last.Flooded n := by
  induction n with
  | zero =>
      refine ⟨_, _, rfl, rfl, rfl, rfl, ⟨_, rfl, by decide⟩, ?_, by decide⟩
      intro k member
      obtain rfl := List.mem_singleton.mp member
      exact ⟨le_rfl, le_rfl⟩
  | succ n ih =>
      obtain ⟨middle, calls, ran, flooded⟩ := ih (by omega)
      obtain ⟨last, more, onwards, after⟩ := flooded.step (by omega)
      refine ⟨last, calls ++ more, ?_, after⟩
      have split : flood (n + 1) = flood n ++ [arrives (single (UInt32.ofNat (n + 2)))] := by
        simp [flood, List.range_succ]
      rw [split]
      exact Machine.run_trans ran onwards

/-- The frames of the flood are well formed. -/
theorem wellFormed_flood (n : Nat) (few : n + 1 < 2 ^ 32) :
    WellFormed (fun fid => if fid = 1 then 2 else 1) (flood n) := by
  intro env pid seg member
  rcases List.mem_cons.mp member with first | later
  · obtain ⟨-, -, rfl⟩ := CacheEvent.deliverToCache.inj first
    exact ⟨rfl, by decide⟩
  · obtain ⟨i, small, same⟩ := List.mem_map.mp later
    obtain ⟨-, -, rfl⟩ := CacheEvent.deliverToCache.inj same
    have differ : UInt32.ofNat (i + 2) ≠ 1 := by
      intro equal
      have words := congrArg UInt32.toNat equal
      have bound := List.mem_range.mp small
      rw [UInt32.toNat_ofNat', Nat.mod_eq_of_lt (by omega)] at words
      simp at words
    exact ⟨(if_neg differ).symm, Nat.zero_lt_one⟩

/-! ## The accounts -/

/-- **The receive buffer is accounted for.** A run on segments of well-formed frames is
defined, and after it `recv_buf_len_` and `seg_c_` are what is in the cache and in the pool, as
numbers of 32 bits. -/
theorem recvBuf_accounts (gapCb recvLenCb frameInfoCb : Bool) {events : List CacheEvent}
    (wellFormed : WellFormed total events) :
    ∃ last calls, machine.run (unused true gapCb recvLenCb frameInfoCb) events =
        some (last, calls) ∧
      last.recvBufLen.toNat = bytesOf last.cachedPackets % 2 ^ 32 ∧
      last.segC.toNat = (last.freeSegs.length + last.cachedPackets.length) % 2 ^ 32 ∧
      (last.freeSegs ++ last.cachedPackets.map VideoPacket.object).Nodup := by
  obtain ⟨last, calls, ran, kept⟩ := (kept_unused total gapCb recvLenCb frameInfoCb).run wellFormed
  obtain ⟨segC, distinct⟩ := Accounted.pool kept.accounted
  refine ⟨last, calls, ran, ?_, ?_, distinct⟩
  · rw [kept.accounted.bytes, UInt32.toNat_ofNat', cachedPackets]
  · rw [segC, UInt32.toNat_ofNat']

/-- The numbers of segments: the frames 1 and 4 have two. -/
def twoSegments (fid : UInt32) : UInt16 := if fid = 1 ∨ fid = 4 then 2 else 1

/-- Two frames wait behind the key frame until its second segment arrives; then the first
segment of another key frame arrives. -/
def unblocked : List CacheEvent :=
  [blocking, single 2, single 3, ⟨2, 1, 0, 1, 2, 1, 0, 0xff, 0, 2, .empty⟩,
    ⟨5, 4, 0, 0, 2, 1, 0, 0xff, 0, 5, .empty⟩].map arrives

theorem wellFormed_unblocked : WellFormed twoSegments unblocked := by
  intro env pid seg member
  rw [unblocked, List.mem_map] at member
  obtain ⟨other, listed, same⟩ := member
  obtain ⟨-, -, rfl⟩ := CacheEvent.deliverToCache.inj same
  simp only [List.mem_cons, List.not_mem_nil, or_false] at listed
  rcases listed with rfl | rfl | rfl | rfl | rfl <;> exact ⟨rfl, by decide⟩

/-- Three frames are delivered, and a segment of the pool is used again. -/
theorem recvBuf_accounts_unblocked :
    ∃ last calls, machine.run (unused true false false false) unblocked = some (last, calls) ∧
      last.freeSegs.length = 3 ∧ last.cachedPackets.length = 1 ∧
      last.recvBufLen.toNat = bytesOf last.cachedPackets % 2 ^ 32 ∧
      last.segC.toNat = (last.freeSegs.length + last.cachedPackets.length) % 2 ^ 32 ∧
      (last.freeSegs ++ last.cachedPackets.map VideoPacket.object).Nodup := by
  obtain ⟨last, calls, ran, accounts⟩ := recvBuf_accounts false false false wellFormed_unblocked
  have counts : (machine.run (unused true false false false) unblocked).map
      (fun result => (result.1.freeSegs.length, result.1.cachedPackets.length)) = some (3, 1) := by
    decide +kernel
  rw [ran, Option.map_some, Option.some.injEq, Prod.mk.injEq] at counts
  exact ⟨last, calls, ran, counts.1, counts.2, accounts⟩

/-- With 4170000 frames behind an incomplete key frame, the cache holds more bytes than
`recv_buf_len_` can say. -/
theorem recvBufLen_wraps :
    ∃ total events last calls, WellFormed total events ∧
      machine.run (unused true false false false) events = some (last, calls) ∧
      last.recvBufLen.toNat ≠ bytesOf last.cachedPackets := by
  obtain ⟨last, calls, ran, flooded⟩ := flooded_of_run 4170000 (by decide)
  refine ⟨_, _, last, calls, wellFormed_flood 4170000 (by decide), ran, ?_⟩
  have bound := UInt32.toNat_lt last.recvBufLen
  rw [flooded.bytes]
  omega

end MultipathReceiver

end MpVideo.Receiver
