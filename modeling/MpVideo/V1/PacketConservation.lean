import MpVideo.V1.MultipathRuns
import Mathlib.Algebra.Order.Group.Multiset
import Mathlib.Tactic.Abel

/-!
# Where the packets are

Every packet that the multipath sender makes is in one place at any time: it waits in
`pend_buf_`, it is queued or in flight on one of the usable paths, it is acknowledged, or it was
dropped, because it was stale when it got lost or because its path was not usable
(`packets_conserved`). A packet that is found lost leaves its number and is queued again, so
that it is never in flight twice.

The packet ids must not wrap, since the id zero stands for no packet.
-/

set_option autoImplicit false

namespace MpVideo.V1


/-! ## Places -/

/-- The packet ids that a path notes for a number of sequence numbers. -/
def PathSenderV1.idsFrom (i n : ℕ) (path : PathSenderV1) : Multiset UInt32 :=
  ↑((List.range' i n).filterMap fun k => path.packetIdOf (UInt64.ofNat k))

/-- The packets that are queued on a path. -/
def PathSenderV1.queued (path : PathSenderV1) : Multiset UInt32 :=
  ↑((path.resendingQueue ++ path.sendingQueue).map (·.packetId))

/-- The packets whose numbers are neither acknowledged nor lost. -/
def PathSenderV1.inFlight (path : PathSenderV1) : Multiset UInt32 :=
  path.idsFrom (path.recvSeq.toNat + 1) (path.seq.toNat - (path.recvSeq.toNat + 1))

/-- The packets on a path. -/
def PathSenderV1.held (path : PathSenderV1) : Multiset UInt32 := path.queued + path.inFlight

/-- The packets on the usable paths. -/
def PathTables.held (tables : PathTables) : Multiset UInt32 :=
  tables.usablePaths.total PathSenderV1.held

/-- The packets that wait to be scheduled. -/
def SenderBuffers.pending (s : SenderBuffers) : Multiset UInt32 := ↑s.sender.pendBuf.keys

/-- The packets that were made. -/
def madeIds (log : List PacketNews) : Multiset UInt32 :=
  ↑(log.filterMap fun | .made packetId => some packetId | _ => none)

/-- The packets that were acknowledged. -/
def deliveredIds (log : List PacketNews) : Multiset UInt32 :=
  ↑(log.filterMap fun | .delivered packetId => some packetId | _ => none)

/-- The packets that were dropped. -/
def droppedIds (log : List PacketNews) : Multiset UInt32 :=
  ↑(log.filterMap fun | .stale packetId | .misrouted packetId _ => some packetId | _ => none)

theorem madeIds_append (log more : List PacketNews) :
    madeIds (log ++ more) = madeIds log + madeIds more := by
  rw [madeIds, List.filterMap_append, ← Multiset.coe_add]
  rfl

theorem deliveredIds_append (log more : List PacketNews) :
    deliveredIds (log ++ more) = deliveredIds log + deliveredIds more := by
  rw [deliveredIds, List.filterMap_append, ← Multiset.coe_add]
  rfl

theorem droppedIds_append (log more : List PacketNews) :
    droppedIds (log ++ more) = droppedIds log + droppedIds more := by
  rw [droppedIds, List.filterMap_append, ← Multiset.coe_add]
  rfl

/-! ## What changes on a path -/

namespace PathSenderV1

variable {path next : PathSenderV1} {now : UInt32}

theorem idsFrom_congr {i n : ℕ} (same : ∀ k, i ≤ k → k < i + n →
    next.packetIdOf (UInt64.ofNat k) = path.packetIdOf (UInt64.ofNat k)) :
    next.idsFrom i n = path.idsFrom i n := by
  rw [idsFrom, idsFrom]
  refine congrArg _ (List.filterMap_congr fun k member => ?_)
  obtain ⟨least, most⟩ := List.mem_range'_1.mp member
  exact same k least most

theorem idsFrom_add (i m n : ℕ) (path : PathSenderV1) :
    path.idsFrom i (m + n) = path.idsFrom i m + path.idsFrom (i + m) n := by
  rw [idsFrom, ← List.range'_append_1, List.filterMap_append, ← Multiset.coe_add]
  rfl

theorem idsFrom_one (i : ℕ) (path : PathSenderV1) :
    path.idsFrom i 1 = ↑(path.packetIdOf (UInt64.ofNat i)).toList := by
  rw [idsFrom, List.range'_one, List.filterMap_cons]
  cases path.packetIdOf (UInt64.ofNat i) with
  | none => rfl
  | some packetId => rfl

theorem inFlight_congr (same : SameNumbers path next) : next.inFlight = path.inFlight := by
  rw [inFlight, inFlight, same.recvSeq, same.seq]
  refine idsFrom_congr fun k _ _ => ?_
  rw [packetIdOf, packetIdOf, same.seqIdMap]

/-- A packet that is queued is on the path. -/
theorem held_onVideoPacket (now packetId : UInt32) (packet : VideoPacketWrapper)
    (isRetrans : Bool) (path : PathSenderV1) :
    (path.onVideoPacket now packetId packet isRetrans).held = path.held + {packet.packetId} := by
  have queue : (path.onVideoPacket now packetId packet isRetrans).queued =
      path.queued + {packet.packetId} := by
    cases isRetrans with
    | true =>
        change (↑(((path.resendingQueue ++ [packet.setEnqueueTime now]) ++
          path.sendingQueue).map (·.packetId)) : Multiset UInt32) = _
        rw [queued, List.map_append, List.map_append, List.map_append, ← Multiset.coe_add,
          ← Multiset.coe_add, ← Multiset.coe_add, add_right_comm]
        rfl
    | false =>
        change (↑((path.resendingQueue ++ (path.sendingQueue ++
          [packet.setEnqueueTime now])).map (·.packetId)) : Multiset UInt32) = _
        rw [queued, ← List.append_assoc, List.map_append, ← Multiset.coe_add]
        rfl
  rw [held, queue, held, add_right_comm]
  rfl

/-- What an acknowledgement measures leaves the numbers as they are. -/
theorem updateRtt_numbers (now : UInt32) (seq : UInt64) (path : PathSenderV1) :
    (path.updateRtt now seq).mpsender = path.mpsender ∧
      (path.updateRtt now seq).seq = path.seq ∧
      (path.updateRtt now seq).recvSeq = path.recvSeq := by
  simp only [updateRtt, updateIdDelay]
  split
  · exact ⟨rfl, rfl, rfl⟩
  · split
    · exact ⟨rfl, rfl, rfl⟩
    · exact ⟨rfl, rfl, rfl⟩

/-- What an acknowledgement measures leaves the packets where they are. -/
theorem held_updateRtt (now : UInt32) (seq : UInt64) (path : PathSenderV1) :
    (path.updateRtt now seq).held = path.held := by
  simp only [updateRtt, updateIdDelay]
  split
  · rfl
  · split
    · rfl
    · rfl

/-- A number that is taken carries its packet, if that has an id. -/
theorem held_number (now packetId : UInt32) (unsent : path.seqIdMap.find? path.seq = none)
    (behind : path.recvSeq < path.seq) (room : path.seq.toNat + 1 < 2 ^ 64) :
    (path.number now packetId).held =
      path.held + ↑((some packetId).filter (· ≠ 0)).toList := by
  have less := UInt64.lt_iff_toNat_lt.mp behind
  have advance : (path.seq + 1).toNat = path.seq.toNat + 1 := by
    rw [UInt64.toNat_add]
    exact Nat.mod_eq_of_lt room
  have ids (seq : UInt64) : (path.number now packetId).packetIdOf seq =
      if seq = path.seq then (some packetId).filter (· ≠ 0) else path.packetIdOf seq := by
    change ((path.seqIdMap.insert path.seq packetId).find? seq).filter (· ≠ 0) = _
    rw [SortedMap.find?_insert, unsent, Option.getD_none]
    split_ifs <;> rfl
  have flight : (path.number now packetId).inFlight =
      path.inFlight + ↑((some packetId).filter (· ≠ 0)).toList := by
    change (path.number now packetId).idsFrom (path.recvSeq.toNat + 1)
      ((path.seq + 1).toNat - (path.recvSeq.toNat + 1)) = _
    have count : (path.seq + 1).toNat - (path.recvSeq.toNat + 1) =
        path.seq.toNat - (path.recvSeq.toNat + 1) + 1 := by omega
    have last : path.recvSeq.toNat + 1 + (path.seq.toNat - (path.recvSeq.toNat + 1)) =
        path.seq.toNat := by omega
    rw [count, idsFrom_add, idsFrom_one, last, UInt64.ofNat_toNat, ids, if_pos rfl, inFlight]
    refine congrArg (· + _) (idsFrom_congr fun k least most => ?_)
    rw [ids, if_neg]
    intro same
    have value := congrArg UInt64.toNat same
    rw [UInt64.toNat_ofNat_of_lt' (show k < 2 ^ 64 by omega)] at value
    omega
  rw [held, flight, held, add_assoc]
  rfl

/-- The table without the numbers up to one. -/
theorem packetIdOf_popLe (acked seq : UInt64) (path : PathSenderV1) :
    ((path.seqIdMap.popLe acked).find? seq).filter (· ≠ 0) =
      if acked < seq then path.packetIdOf seq else none := by
  rw [SortedMap.find?_popLe, packetIdOf]
  split_ifs <;> rfl

/-- An acknowledgement takes the numbers up to its own away. -/
theorem held_acked {acked : UInt64} (ahead : path.recvSeq < acked) (below : acked < path.seq) :
    path.held = PathSenderV1.held
        { path with recvSeq := acked, seqIdMap := path.seqIdMap.popLe acked } +
      (path.idsFrom (path.recvSeq.toNat + 1) (acked.toNat - (path.recvSeq.toNat + 1)) +
        ↑(path.packetIdOf acked).toList) := by
  have first := UInt64.lt_iff_toNat_lt.mp ahead
  have second := UInt64.lt_iff_toNat_lt.mp below
  have small := path.seq.toNat_lt
  have count : path.seq.toNat - (path.recvSeq.toNat + 1) =
      acked.toNat - (path.recvSeq.toNat + 1) + 1 + (path.seq.toNat - (acked.toNat + 1)) := by
    omega
  have last : path.recvSeq.toNat + 1 + (acked.toNat - (path.recvSeq.toNat + 1)) =
      acked.toNat := by omega
  have after : path.recvSeq.toNat + 1 + (acked.toNat - (path.recvSeq.toNat + 1) + 1) =
      acked.toNat + 1 := by omega
  have rest : PathSenderV1.inFlight
      { path with recvSeq := acked, seqIdMap := path.seqIdMap.popLe acked } =
        path.idsFrom (acked.toNat + 1) (path.seq.toNat - (acked.toNat + 1)) := by
    refine idsFrom_congr fun k least most => (packetIdOf_popLe acked _ path).trans (if_pos ?_)
    change acked.toNat + 1 ≤ k at least
    change k < acked.toNat + 1 + (path.seq.toNat - (acked.toNat + 1)) at most
    rw [UInt64.lt_iff_toNat_lt, UInt64.toNat_ofNat_of_lt' (show k < 2 ^ 64 by omega)]
    omega
  rw [held, inFlight, count, idsFrom_add, idsFrom_add, idsFrom_one, last, after,
    UInt64.ofNat_toNat, held, rest]
  change path.queued + _ = path.queued + _ + _
  abel

/-- An acknowledgement of a number that is settled takes nothing away. -/
theorem held_settled {acked : UInt64} (stale : acked ≤ path.recvSeq) :
    PathSenderV1.held { path with seqIdMap := path.seqIdMap.popLe acked } = path.held := by
  have least := UInt64.le_iff_toNat_le.mp stale
  have small := path.seq.toNat_lt
  have flight : PathSenderV1.inFlight { path with seqIdMap := path.seqIdMap.popLe acked } =
      path.inFlight := by
    refine idsFrom_congr fun k above most => (packetIdOf_popLe acked _ path).trans (if_pos ?_)
    have bound : k < 2 ^ 64 := by
      change k < path.recvSeq.toNat + 1 + (path.seq.toNat - (path.recvSeq.toNat + 1)) at most
      have recv := path.recvSeq.toNat_lt
      omega
    change path.recvSeq.toNat + 1 ≤ k at above
    rw [UInt64.lt_iff_toNat_lt, UInt64.toNat_ofNat_of_lt' bound]
    omega
  rw [held, flight]
  rfl

end PathSenderV1

/-! ## What changes on all paths -/

namespace PathTables

variable {tables next : PathTables} {now : UInt32} {pid : UInt8} {path : PathSenderV1}
  {news : List PacketNews}

/-- A path that holds more adds to what the paths hold. -/
theorem held_withPath {changed : PathSenderV1} {more : Multiset UInt32}
    (found : tables.getPathInfo pid = some path) (grows : changed.held = path.held + more) :
    (tables.withPath pid changed).held = tables.held + more := by
  change (tables.usablePaths.set pid changed).total _ = tables.usablePaths.total _ + more
  rw [SortedMap.total_set, SortedMap.total_erase _ found, grows, add_right_comm]

/-- A path that holds less takes from what the paths hold. -/
theorem held_of_withPath {changed : PathSenderV1} {less : Multiset UInt32}
    (found : tables.getPathInfo pid = some path) (shrinks : path.held = changed.held + less) :
    tables.held = (tables.withPath pid changed).held + less := by
  change tables.usablePaths.total _ = (tables.usablePaths.set pid changed).total _ + less
  rw [SortedMap.total_set, SortedMap.total_erase _ found, shrinks, add_right_comm]

/-- A path that becomes usable holds nothing. -/
theorem held_onNetworkAvailable (unused : Unused tables.waittingPaths) :
    (tables.onNetworkAvailable pid).held = tables.held := by
  rw [onNetworkAvailable]
  cases waits : tables.waittingPaths.find? pid with
  | none => rfl
  | some sender =>
      obtain ⟨traceLossCb, fresh⟩ := unused _ (SortedMap.mem_of_find? waits)
      have nothing : sender.held = 0 := by
        rw [show sender = _ from fresh]
        rfl
      change (tables.usablePaths.insert pid sender).total _ = tables.usablePaths.total _
      cases usable : tables.usablePaths.find? pid with
      | none => rw [SortedMap.total_insert _ usable, nothing, zero_add]
      | some old => rw [SortedMap.insert_of_find?_some usable]

/-- The packets in `sent_buf_` have the ids of their entries. -/
def SentIds (tables : PathTables) : Prop :=
  ∀ packetId packet, tables.sentBuf.find? packetId = some packet → packet.packetId = packetId

/-- A report moves its packet to a path, or drops it. -/
theorem Retransmits.held {packetId : UInt32} (sentIds : tables.SentIds)
    (retransmits : Retransmits now tables packetId next news) :
    next.held + droppedIds news = tables.held + {packetId} ∧ madeIds news = 0 ∧
      deliveredIds news = 0 := by
  cases retransmits with
  | requeued target path packet kept usable =>
      refine ⟨?_, rfl, rfl⟩
      have grows := path.held_onVideoPacket now packetId packet true
      rw [sentIds packetId packet kept] at grows
      rw [held_withPath usable grows]
      exact add_zero _
  | stale gone => exact ⟨rfl, rfl, rfl⟩
  | misrouted target => exact ⟨rfl, rfl, rfl⟩

/-- **The loop of `DetectLoss` moves the packets of its numbers**, each to a path, or drops it.
They stay noted until the loop is over. -/
theorem held_lossLoop {n : ℕ} {i : UInt64} (room : i.toNat + n < 2 ^ 64)
    (sentIds : tables.SentIds) (found : tables.getPathInfo pid = some path)
    (mpsender : path.mpsender = true)
    (ran : tables.lossLoop now pid n i = some (next, news)) :
    next.held + droppedIds news = tables.held + path.idsFrom i.toNat n ∧ madeIds news = 0 ∧
      deliveredIds news = 0 := by
  induction n generalizing tables path i news with
  | zero =>
      obtain ⟨rfl, rfl⟩ := Prod.mk.inj (Option.some.inj ran)
      exact ⟨rfl, rfl, rfl⟩
  | succ n ih =>
      obtain ⟨⟨middle, lost⟩, round, onwards⟩ := Option.bind_eq_some_iff.mp ran
      obtain ⟨⟨last, more⟩, rest, eq⟩ := Option.map_eq_some_iff.mp onwards
      obtain ⟨rfl, rfl⟩ := Prod.mk.inj eq
      obtain ⟨retrans, requeued, -⟩ := declareLost_requeues found round
      have after : middle.getPathInfo pid = some (path.requeue now (retrans pid)) := by
        rw [getPathInfo, requeued.usable, show tables.usablePaths.find? pid = _ from found]
        rfl
      have same := sameNumbers_requeue now (retrans pid) path
      have advance : (i + 1).toNat = i.toNat + 1 := by
        rw [UInt64.toNat_add]
        exact Nat.mod_eq_of_lt (by change i.toNat + 1 < 2 ^ 64; omega)
      have sentIdsLater : middle.SentIds := by
        rw [requeued.rest]
        exact sentIds
      obtain ⟨heldLater, madeLater, deliveredLater⟩ := ih (by rw [advance]; omega) sentIdsLater
        after (same.mpsender.trans mpsender) rest
      have ids : (path.requeue now (retrans pid)).idsFrom (i + 1).toNat n =
          path.idsFrom (i.toNat + 1) n := by
        rw [advance]
        refine PathSenderV1.idsFrom_congr fun k _ _ => ?_
        rw [PathSenderV1.packetIdOf, PathSenderV1.packetIdOf, same.seqIdMap]
      rw [ids] at heldLater
      have one : middle.held + droppedIds lost = tables.held + ↑(path.packetIdOf i).toList ∧
          madeIds lost = 0 ∧ deliveredIds lost = 0 := by
        rcases declareLost_cases found round with ⟨silent, rfl, rfl⟩ | ⟨packetId, reported, does⟩
        · rw [PathSenderV1.reported, if_pos mpsender] at silent
          rw [silent]
          exact ⟨rfl, rfl, rfl⟩
        · rw [PathSenderV1.reported, if_pos mpsender] at reported
          rw [reported]
          exact does.held sentIds
      obtain ⟨heldFirst, madeFirst, deliveredFirst⟩ := one
      refine ⟨?_, ?_, ?_⟩
      · rw [Nat.add_comm n 1, PathSenderV1.idsFrom_add, PathSenderV1.idsFrom_one,
          UInt64.ofNat_toNat, droppedIds_append]
        calc last.held + (droppedIds lost + droppedIds more)
            = last.held + droppedIds more + droppedIds lost := by abel
          _ = middle.held + droppedIds lost + path.idsFrom (i.toNat + 1) n := by
              rw [heldLater, add_right_comm]
          _ = _ := by rw [heldFirst, add_assoc]
      · rw [madeIds_append, madeFirst, madeLater, add_zero]
      · rw [deliveredIds_append, deliveredFirst, deliveredLater, add_zero]

/-- **An acknowledgement takes its packet from the paths**, and what it finds lost is queued or
dropped. -/
theorem held_onAck {seq : UInt64} (sentIds : tables.SentIds)
    (found : tables.getPathInfo pid = some path) (mpsender : path.mpsender = true)
    (below : seq < path.seq) (behind : path.recvSeq < path.seq)
    (ran : tables.onAck now pid seq path = some (next, news)) :
    next.held + droppedIds news + deliveredIds news = tables.held ∧ madeIds news = 0 := by
  obtain ⟨sameSender, sameSeq, sameRecv⟩ := PathSenderV1.updateRtt_numbers now seq path
  have kept := PathSenderV1.held_updateRtt now seq path
  simp only [onAck] at ran
  generalize path.updateRtt now seq = start at ran sameSender sameSeq sameRecv kept
  have begun : (tables.withPath pid start).held = tables.held :=
    (held_withPath found (kept.trans (add_zero _).symm)).trans (add_zero _)
  have isStart : (tables.withPath pid start).getPathInfo pid = some start :=
    SortedMap.find?_set_self _ _ _
  rw [← sameSeq] at below
  rw [← sameSeq, ← sameRecv] at behind
  have recvLess := UInt64.lt_iff_toNat_lt.mp behind
  have seqSmall := start.seq.toNat_lt
  have advance : (start.recvSeq + 1).toNat = start.recvSeq.toNat + 1 := by
    rw [UInt64.toNat_add]
    exact Nat.mod_eq_of_lt (by change start.recvSeq.toNat + 1 < 2 ^ 64; omega)
  simp only [detectLoss] at ran
  split_ifs at ran with test
  · obtain ⟨⟨looped, lost⟩, loop, eq⟩ := Option.map_eq_some_iff.mp ran
    obtain ⟨rfl, rfl⟩ := Prod.mk.inj eq
    have ahead : start.recvSeq < seq := by
      rw [UInt64.le_iff_toNat_le, advance] at test
      exact UInt64.lt_iff_toNat_lt.mpr test
    have count := (between ahead).1
    have seqLess := UInt64.toNat_lt seq
    obtain ⟨moved, made, delivered⟩ := held_lossLoop (by rw [advance, count]; omega)
      (show (tables.withPath pid start).SentIds from sentIds) isStart (sameSender.trans mpsender)
      loop
    rw [advance, count, begun] at moved
    -- what the loop queued on this path leaves its numbers alone
    obtain ⟨own, retrans, requeued, -⟩ :=
      lossLoop_requeues start.curRtt (le_of_lt (UInt64.toNat_lt _)) isStart loop
    have after : looped.getPathInfo pid = some (start.requeue now (retrans pid)) := by
      rw [getPathInfo, requeued.usable,
        show (tables.withPath pid start).usablePaths.find? pid = _ from isStart]
      rfl
    have same := sameNumbers_requeue now (retrans pid) start
    generalize start.requeue now (retrans pid) = path at after same
    have ids (k : UInt64) : path.packetIdOf k = start.packetIdOf k := by
      rw [PathSenderV1.packetIdOf, PathSenderV1.packetIdOf, same.seqIdMap]
    have pathAhead : path.recvSeq < seq := same.recvSeq ▸ ahead
    have pathBelow : seq < path.seq := same.seq ▸ below
    have taken := PathSenderV1.held_acked pathAhead pathBelow
    rw [ids, same.recvSeq, PathSenderV1.idsFrom_congr fun k _ _ => ids _] at taken
    have left := held_of_withPath after taken
    rw [modifyPath_eq after]
    obtain ⟨none, acked, silent⟩ : droppedIds ((start.packetIdOf seq).map .delivered).toList = 0 ∧
        deliveredIds ((start.packetIdOf seq).map .delivered).toList =
          ↑(start.packetIdOf seq).toList ∧
        madeIds ((start.packetIdOf seq).map .delivered).toList = 0 := by
      cases start.packetIdOf seq with
      | none => exact ⟨rfl, rfl, rfl⟩
      | some packetId => exact ⟨rfl, rfl, rfl⟩
    rw [droppedIds_append, deliveredIds_append, madeIds_append, none, acked, silent, made,
      delivered]
    refine ⟨?_, rfl⟩
    rw [left] at moved
    refine add_right_cancel (Eq.trans ?_ moved)
    abel
  · obtain ⟨rfl, rfl⟩ := Prod.mk.inj (Option.some.inj ran)
    have settled : seq ≤ start.recvSeq := by
      rw [UInt64.le_iff_toNat_le, advance] at test
      exact UInt64.le_iff_toNat_le.mpr (by omega)
    refine ⟨?_, rfl⟩
    rw [modifyPath_eq isStart]
    have still := PathSenderV1.held_settled settled
    have same := held_withPath isStart (still.trans (add_zero _).symm)
    rw [add_zero, begun] at same
    exact (add_zero _).trans ((add_zero _).trans same)

end PathTables

/-! ## Sending -/

/-- Taking a packet from a queue gives its number its id. -/
theorem PathSenderV1.sendStreamPacket_takes {quic : QuicData} {now packetId : UInt32}
    {isRetrans : Bool} {path sent : PathSenderV1}
    (ran : path.sendStreamPacket quic now isRetrans = some (sent, packetId)) :
    ∃ before, SameNumbers path before ∧ sent = before.number now packetId ∧
      path.queued = before.queued + {packetId} := by
  rw [sendStreamPacket] at ran
  split at ran
  · cases ran
  · rename_i packet rest queue
    split at ran
    · cases ran
    · cases ran
      refine ⟨_, ?_, rfl, ?_⟩
      · exact ⟨rfl, rfl, rfl, rfl, rfl, rfl⟩
      cases isRetrans with
      | true =>
          have front : path.resendingQueue = packet :: rest := queue
          rw [queued, front]
          change (↑(packet.packetId :: (rest ++ path.sendingQueue).map (·.packetId)) :
            Multiset UInt32) = ↑((rest ++ path.sendingQueue).map (·.packetId)) + {packet.packetId}
          rw [← Multiset.cons_coe, ← Multiset.singleton_add, add_comm]
      | false =>
          have front : path.sendingQueue = packet :: rest := queue
          rw [queued, front]
          change _ = (↑((path.resendingQueue ++ rest).map (·.packetId)) : Multiset UInt32) +
            {packet.packetId}
          rw [List.map_append, List.map_append, List.map_cons, ← Multiset.coe_add,
            ← Multiset.coe_add, ← Multiset.cons_coe, ← Multiset.singleton_add]
          abel

namespace PathRuns

variable {quic : QuicData} {pid : UInt8} {n : ℕ} {path : PathSenderV1}

/-- The next number is behind `recv_seq_`, and no packet is noted for it. -/
theorem next_number (runs : PathRuns quic pid n path) (few : n < 2 ^ 64 - 2) :
    path.seqIdMap.find? path.seq = none ∧ path.recvSeq < path.seq ∧
      path.seq.toNat + 1 < 2 ^ 64 := by
  obtain ⟨traceLossCb, events, numbered, log, ran, rfl, less⟩ := runs
  have numbers := numbers_run ran (by omega)
  exact ⟨numbers.find?_next, numbers.behind, by rw [numbers.next]; omega⟩

/-- The path belongs to a multipath sender. -/
theorem mpsender (runs : PathRuns quic pid n path) : path.mpsender = true := by
  obtain ⟨traceLossCb, events, numbered, log, ran, rfl, -⟩ := runs
  refine Machine.run_invariant (fun numbered : NumberedPath => numbered.path.mpsender = true) ?_
    rfl ran
  intro numbered event next out holds stepped
  cases event with
  | onVideoPacket now packetId packet isRetrans =>
      cases stepped
      exact holds
  | sendPaddingPacket now =>
      cases stepped
      exact holds
  | sendStreamPacket now isRetrans =>
      obtain ⟨⟨path, packetId⟩, ran, eq⟩ := Option.map_eq_some_iff.mp stepped
      cases eq
      obtain ⟨before, same, rfl⟩ := sendStreamPacket_spec ran
      exact same.mpsender.trans holds
  | onAck now seq retrans =>
      change (if _ then _ else none) = _ at stepped
      split_ifs at stepped
      cases stepped
      exact (acked_onAck now retrans seq numbered.path).mpsender.trans holds

end PathRuns

/-! ## The packets of a frame -/

/-- The ids of the first packets. -/
def firstIds (n : ℕ) : Multiset UInt32 := ↑((List.range n).map fun k => UInt32.ofNat (k + 1))

theorem mem_firstIds {n : ℕ} (few : n < 2 ^ 32) {packetId : UInt32} :
    packetId ∈ firstIds n ↔ 0 < packetId.toNat ∧ packetId.toNat ≤ n := by
  rw [firstIds, Multiset.mem_coe, List.mem_map]
  constructor
  · rintro ⟨k, member, rfl⟩
    have less := List.mem_range.mp member
    rw [UInt32.toNat_ofNat_of_lt' (show k + 1 < 2 ^ 32 by omega)]
    omega
  · rintro ⟨positive, most⟩
    refine ⟨packetId.toNat - 1, List.mem_range.mpr (by omega), ?_⟩
    rw [Nat.sub_add_cancel positive, UInt32.ofNat_toNat]

theorem nodup_firstIds {n : ℕ} (few : n < 2 ^ 32) : (firstIds n).Nodup := by
  refine List.Nodup.map_on ?_ List.nodup_range
  intro first inFirst second inSecond same
  have less := List.mem_range.mp inFirst
  have more := List.mem_range.mp inSecond
  have value := congrArg UInt32.toNat same
  rw [UInt32.toNat_ofNat_of_lt' (show first + 1 < 2 ^ 32 by omega),
    UInt32.toNat_ofNat_of_lt' (show second + 1 < 2 ^ 32 by omega)] at value
  omega

theorem firstIds_add (n more : ℕ) : firstIds (n + more) = firstIds n +
    ↑((List.range more).map fun i => UInt32.ofNat (n + 1) + UInt32.ofNat i) := by
  rw [firstIds, List.range_add, List.map_append, ← Multiset.coe_add, List.map_map, firstIds]
  refine congrArg (fun list : List UInt32 => (_ : Multiset UInt32) + ↑list)
    (List.map_congr_left fun i _ => ?_)
  rw [Function.comp_apply, ← UInt32.ofNat_add, Nat.add_right_comm]

namespace MpSenderV1

/-- The packets of `pend_buf_` have the ids of their entries. -/
def PendIds (sender : MpSenderV1) : Prop :=
  ∀ entry ∈ sender.pendBuf.entries, entry.2.packetId = entry.1

theorem PendIds.packetLoop {now timestamp : UInt32} {frame : Frame} {sender : MpSenderV1}
    (pendIds : sender.PendIds) (pieces : List (List UInt8 × ℕ)) :
    (sender.packetLoop now timestamp frame pieces).1.PendIds := by
  induction pieces generalizing sender with
  | nil => exact pendIds
  | cons piece rest ih =>
      rw [MpSenderV1.packetLoop]
      refine ih fun entry member => ?_
      rcases SortedMap.mem_insert_of member with rfl | old
      · rfl
      · exact pendIds entry old

theorem PendIds.onVideoFrame {sender : MpSenderV1} (pendIds : sender.PendIds) (now : UInt32)
    (frame : Frame) : (sender.onVideoFrame now frame).1.PendIds := by
  have noted : (sender.noteFirstTs now.toUInt64.toInt64).PendIds := by
    rw [PendIds, noteFirstTs_pendBuf]
    exact pendIds
  exact noted.packetLoop frame.splits.zipIdx

end MpSenderV1

/-! ## Runs -/

/-- Every packet that was made is in one place. -/
structure Ledger (quic : QuicData) (n : ℕ) (s : SenderBuffers) (log : List PacketNews) :
    Prop where
  paths : PathsRun quic n s.tables
  packetId : s.sender.packetId = UInt32.ofNat (s.generated + 1)
  pendIds : s.sender.PendIds
  sentIds : s.tables.SentIds
  made : madeIds log = firstIds s.generated
  balance : s.pending + s.tables.held + deliveredIds log + droppedIds log = madeIds log

namespace Ledger

variable {quic : QuicData} {n : ℕ} {s next : SenderBuffers} {log news : List PacketNews}
  {now : UInt32}

/-- A packet that is somewhere was made. -/
theorem known (ledger : Ledger quic n s log) (few : s.generated < 2 ^ 32) {packetId : UInt32}
    (somewhere : packetId ∈ s.pending + s.tables.held) :
    0 < packetId.toNat ∧ packetId.toNat ≤ s.generated := by
  rw [← mem_firstIds few, ← ledger.made, ← ledger.balance, add_assoc]
  exact Multiset.mem_add.mpr (.inl somewhere)

/-- The packets of a frame wait after it. -/
theorem pending_onVideoFrame (ledger : Ledger quic n s log) (now : UInt32) (frame : Frame)
    (few : s.generated + frame.splits.length < 2 ^ 32) :
    (↑(s.sender.onVideoFrame now frame).1.pendBuf.keys : Multiset UInt32) =
      s.pending + ↑(s.nextIds frame) := by
  have sum := firstIds_add s.generated frame.splits.length
  rw [← ledger.packetId] at sum
  have distinct := nodup_firstIds few
  rw [sum, Multiset.nodup_add] at distinct
  have apart : ∀ packetId ∈ s.pending, packetId ∉ s.nextIds frame := by
    intro packetId waits isNext
    have made := ledger.known (by omega) (Multiset.mem_add.mpr (.inl waits))
    rw [← mem_firstIds (by omega)] at made
    exact Multiset.disjoint_left.mp distinct.2.2 made isNext
  rw [SenderBuffers.pending, Multiset.coe_add, Multiset.coe_eq_coe]
  refine (List.perm_ext_iff_of_nodup (SortedMap.keys_nodup _) ?_).mpr fun packetId => ?_
  · exact List.nodup_append'.mpr ⟨SortedMap.keys_nodup _, distinct.2.1, apart⟩
  rw [List.mem_append]
  constructor
  · intro member
    obtain ⟨entry, isEntry, rfl⟩ := List.mem_map.mp member
    rcases MpSenderV1.mem_onVideoFrame isEntry with old | ⟨-, i, below, id⟩
    · exact .inl (List.mem_map_of_mem old)
    · exact .inr (id ▸ List.mem_map_of_mem (List.mem_range.mpr below))
  · rintro (old | isNext)
    · exact MpSenderV1.mem_keys_onVideoFrame (.inl old)
    · obtain ⟨i, below, rfl⟩ := List.mem_map.mp isNext
      exact MpSenderV1.mem_keys_onVideoFrame (.inr ⟨i, List.mem_range.mp below, rfl⟩)

/-- A frame makes its packets. -/
theorem onVideoFrame (ledger : Ledger quic n s log) (now : UInt32) (frame : Frame)
    (few : s.generated + frame.splits.length < 2 ^ 32) :
    Ledger quic n { s with
        sender := (s.sender.onVideoFrame now frame).1
        generated := s.generated + frame.splits.length }
      (log ++ (s.nextIds frame).map .made) := by
  have made : madeIds ((s.nextIds frame).map .made) = ↑(s.nextIds frame) := by
    rw [madeIds, List.filterMap_map]
    exact congrArg _ List.filterMap_some
  have silent : deliveredIds ((s.nextIds frame).map .made) = 0 ∧
      droppedIds ((s.nextIds frame).map .made) = 0 := by
    induction s.nextIds frame with
    | nil => exact ⟨rfl, rfl⟩
    | cons packetId rest ih => exact ih
  refine ⟨ledger.paths, ?_, ledger.pendIds.onVideoFrame now frame, ledger.sentIds, ?_, ?_⟩
  · refine (MpSenderV1.onVideoFrame_packetId now frame s.sender).trans ?_
    rw [ledger.packetId, ← UInt32.ofNat_add, Nat.add_right_comm]
  · rw [madeIds_append, ledger.made, made, firstIds_add, ← ledger.packetId]
    rfl
  · rw [madeIds_append, deliveredIds_append, droppedIds_append, made, silent.1, silent.2,
      ← ledger.balance]
    have waits := ledger.pending_onVideoFrame now frame few
    change (↑(s.sender.onVideoFrame now frame).1.pendBuf.keys : Multiset UInt32) +
      s.tables.held + _ + _ = _
    rw [waits]
    abel

/-- What moves packets between the places keeps the ledger. -/
theorem move (ledger : Ledger quic n s log) {more : ℕ} (paths : PathsRun quic more next.tables)
    (packetId : next.sender.packetId = s.sender.packetId)
    (generated : next.generated = s.generated) (pendIds : next.sender.PendIds)
    (sentIds : next.tables.SentIds) (made : madeIds news = 0)
    (moves : next.pending + next.tables.held + deliveredIds news + droppedIds news =
      s.pending + s.tables.held) : Ledger quic more next (log ++ news) where
  paths := paths
  packetId := by rw [packetId, generated, ledger.packetId]
  pendIds := pendIds
  sentIds := sentIds
  made := by rw [madeIds_append, made, generated, ← ledger.made, add_zero]
  balance := by
    rw [madeIds_append, made, deliveredIds_append, droppedIds_append, add_zero, ← ledger.balance,
      ← moves]
    abel

/-- A packet that is scheduled goes to a path, or is dropped. -/
theorem packetSchedule (ledger : Ledger quic n s log) {packetId : UInt32} {pid : UInt8}
    (later : PathsRun quic (n + 1) next.tables)
    (scheduled : s.packetSchedule now packetId pid = some next) :
    Ledger quic (n + 1) next (log ++ s.scheduleNews packetId pid) := by
  rw [SenderBuffers.scheduleNews]
  rcases SenderBuffers.packetSchedule_cases scheduled with
    ⟨stopped, rfl⟩ | ⟨packet, sender, runing, waits, rfl, outcome⟩
  · rw [if_neg (by simp [stopped])]
    exact ledger.move later rfl rfl ledger.pendIds ledger.sentIds rfl
      ((add_zero _).trans (add_zero _))
  · have pendIds : MpSenderV1.PendIds
        { s.sender with pendBuf := s.sender.pendBuf.erase packetId } := fun entry member =>
      ledger.pendIds entry (SortedMap.mem_erase.mp member).1
    have own : packet.packetId = packetId :=
      ledger.pendIds (packetId, packet) (SortedMap.mem_of_find? waits)
    have left : s.pending =
        ↑(s.sender.pendBuf.erase packetId).keys + ({packetId} : Multiset UInt32) := by
      have perm := (SortedMap.entries_perm_erase waits).map Prod.fst
      rw [SenderBuffers.pending, add_comm, Multiset.singleton_add, Multiset.cons_coe,
        Multiset.coe_eq_coe]
      exact perm
    rcases outcome with ⟨unusable, rfl⟩ | ⟨path, found, rfl⟩
    · rw [if_pos ⟨runing, by rw [show s.tables.usablePaths.find? pid = none from unusable]; rfl⟩]
      refine ledger.move later rfl rfl pendIds ledger.sentIds rfl ?_
      rw [left]
      change ↑(s.sender.pendBuf.erase packetId).keys + s.tables.held + 0 + {packetId} = _
      abel
    · rw [if_neg (by simp [show s.tables.usablePaths.find? pid = some path from found])]
      refine ledger.move later rfl rfl pendIds ?_ rfl ?_
      · intro other kept isKept
        change (s.tables.sentBuf.insert packetId packet).find? other = some kept at isKept
        rw [SortedMap.find?_insert] at isKept
        split_ifs at isKept with same
        · subst same
          cases before : s.tables.sentBuf.find? other with
          | none =>
              rw [before, Option.getD_none] at isKept
              exact Option.some.inj isKept ▸ own
          | some old =>
              rw [before, Option.getD_some] at isKept
              exact ledger.sentIds other kept (before.trans isKept)
        · exact ledger.sentIds other kept isKept
      · have grows := PathTables.held_withPath found
          (path.held_onVideoPacket now packetId packet false)
        rw [own] at grows
        rw [left]
        change ↑(s.sender.pendBuf.erase packetId).keys + (s.tables.withPath pid
          (path.onVideoPacket now packetId packet false)).held + 0 + 0 = _
        rw [grows]
        abel

/-- **Every event keeps the ledger**, unless the ids or the numbers wrap. -/
theorem handle (ledger : Ledger quic n s log) (short : n < 2 ^ 64 - 2) {event : MpEvent}
    (stepped : s.handle quic now event = some (next, news)) (few : next.generated < 2 ^ 32) :
    Ledger quic (n + 1) next (log ++ news) := by
  have later := ledger.paths.handle (by omega) stepped
  cases event with
  | onVideoFrame frame =>
      obtain ⟨rfl, rfl⟩ := Prod.mk.inj (Option.some.inj stepped)
      have made := ledger.onVideoFrame now frame few
      exact { made with paths := later }
  | packetSchedule packetId pid =>
      obtain ⟨after, called, eq⟩ := Option.map_eq_some_iff.mp stepped
      obtain ⟨rfl, rfl⟩ := Prod.mk.inj eq
      exact ledger.packetSchedule later called
  | checkStalePacket =>
      obtain ⟨rfl, rfl⟩ := Prod.mk.inj (Option.some.inj stepped)
      refine ledger.move later rfl rfl ledger.pendIds (fun packetId packet kept => ?_) rfl ?_
      · have member := SortedMap.find?_eq_some_iff.mp kept
        exact ledger.sentIds packetId packet
          (SortedMap.find?_eq_some_iff.mpr (SortedMap.mem_dropWhile.mp member).1)
      · exact (add_zero _).trans (add_zero _)
  | onNetworkAvailable pid =>
      simp only [SenderBuffers.handle] at stepped
      split_ifs at stepped
      obtain ⟨rfl, rfl⟩ := Prod.mk.inj (Option.some.inj stepped)
      refine ledger.move later rfl rfl ledger.pendIds ?_ rfl ?_
      · change (s.tables.onNetworkAvailable pid).SentIds
        rw [PathTables.SentIds, SenderBuffers.onNetworkAvailable_sentBuf]
        exact ledger.sentIds
      · change s.pending + (s.tables.onNetworkAvailable pid).held + 0 + 0 = _
        rw [PathTables.held_onNetworkAvailable ledger.paths.waitting, add_zero, add_zero]
  | onNetworkStop pid =>
      obtain ⟨rfl, rfl⟩ := Prod.mk.inj (Option.some.inj stepped)
      exact ledger.move later rfl rfl ledger.pendIds ledger.sentIds rfl
        ((add_zero _).trans (add_zero _))
  | sendPaddingPacket pid =>
      obtain ⟨path, found, eq⟩ := Option.map_eq_some_iff.mp stepped
      obtain ⟨rfl, rfl⟩ := Prod.mk.inj eq
      obtain ⟨unsent, behind, room⟩ := (ledger.paths.usable pid path found).next_number short
      refine ledger.move later rfl rfl ledger.pendIds ledger.sentIds rfl ?_
      have same := PathTables.held_withPath found
        (PathSenderV1.held_number now 0 unsent behind room)
      have none : ((some (0 : UInt32)).filter (· ≠ 0)).toList = [] := rfl
      change s.pending + (s.tables.withPath pid (path.number now 0)).held + 0 + 0 = _
      rw [same, none, Multiset.coe_nil, add_zero, add_zero, add_zero]
  | sendStreamPacket pid isRetrans =>
      obtain ⟨path, found, rest⟩ := Option.bind_eq_some_iff.mp stepped
      obtain ⟨sent, ran, eq⟩ := Option.map_eq_some_iff.mp rest
      obtain ⟨rfl, rfl⟩ := Prod.mk.inj eq
      have numbered := (ledger.paths.usable pid path found).next_number short
      obtain ⟨sent, packetId⟩ := sent
      obtain ⟨before, same, rfl, took⟩ := PathSenderV1.sendStreamPacket_takes ran
      have onPath : packetId ∈ path.held := by
        rw [PathSenderV1.held, took]
        exact Multiset.mem_add.mpr (.inl (Multiset.mem_add.mpr
          (.inr (Multiset.mem_singleton_self _))))
      have somewhere : packetId ∈ s.tables.held := by
        change packetId ∈ s.tables.usablePaths.total _
        rw [SortedMap.total_erase _ found]
        exact Multiset.mem_add.mpr (.inl onPath)
      have positive : packetId ≠ 0 := by
        rintro rfl
        exact absurd (ledger.known few (Multiset.mem_add.mpr (.inr somewhere))).1 (by decide)
      have held : (before.number now packetId).held = path.held := by
        rw [PathSenderV1.held_number now packetId (same.seqIdMap ▸ same.seq ▸ numbered.1)
          (same.recvSeq ▸ same.seq ▸ numbered.2.1) (same.seq ▸ numbered.2.2),
          Option.filter_some_pos (by simpa using positive), PathSenderV1.held,
          PathSenderV1.held, took, PathSenderV1.inFlight_congr same]
        exact add_right_comm _ _ _
      have kept := PathTables.held_withPath found (held.trans (add_zero _).symm)
      refine ledger.move later rfl rfl ledger.pendIds ledger.sentIds rfl ?_
      change s.pending + (s.tables.withPath pid (before.number now packetId)).held + 0 + 0 = _
      rw [kept, add_zero, add_zero, add_zero]
  | onAck pid seq =>
      obtain ⟨path, found, rest⟩ := Option.bind_eq_some_iff.mp stepped
      split_ifs at rest with sent
      obtain ⟨⟨tables, made⟩, ran, eq⟩ := Option.map_eq_some_iff.mp rest
      obtain ⟨rfl, rfl⟩ := Prod.mk.inj eq
      have runs := ledger.paths.usable pid path found
      obtain ⟨moved, none⟩ := PathTables.held_onAck ledger.sentIds found runs.mpsender sent.2
        (runs.next_number short).2.1 ran
      have acked := PathTables.ackedPath_onAck ran
      refine ledger.move later rfl rfl ledger.pendIds ?_ none ?_
      · change tables.SentIds
        rw [acked.rest]
        exact ledger.sentIds
      · change s.pending + tables.held + _ + _ = _
        rw [← moved]
        abel

/-- Before the first frame there are no packets. -/
theorem start {waittingPaths : SortedMap UInt8 PathSenderV1} (unused : Unused waittingPaths) :
    Ledger quic 0 (.registered waittingPaths) [] where
  paths := ⟨fun _ _ found => (nomatch found), unused⟩
  packetId := rfl
  pendIds _ member := absurd member List.not_mem_nil
  sentIds _ _ kept := (nomatch kept)
  made := rfl
  balance := rfl

end Ledger

/-- No event takes a packet back. -/
theorem generated_le_handle {quic : QuicData} {s next : SenderBuffers} {now : UInt32}
    {event : MpEvent} {news : List PacketNews}
    (stepped : s.handle quic now event = some (next, news)) : s.generated ≤ next.generated := by
  cases event with
  | onVideoFrame frame =>
      obtain ⟨rfl, -⟩ := Prod.mk.inj (Option.some.inj stepped)
      exact Nat.le_add_right _ _
  | packetSchedule packetId pid =>
      obtain ⟨after, called, eq⟩ := Option.map_eq_some_iff.mp stepped
      obtain ⟨rfl, -⟩ := Prod.mk.inj eq
      rcases SenderBuffers.packetSchedule_cases called with
        ⟨-, rfl⟩ | ⟨packet, sender, -, -, -, ⟨-, rfl⟩ | ⟨path, -, rfl⟩⟩ <;> exact le_refl _
  | checkStalePacket =>
      obtain ⟨rfl, -⟩ := Prod.mk.inj (Option.some.inj stepped)
      exact le_refl _
  | onNetworkAvailable pid =>
      simp only [SenderBuffers.handle] at stepped
      split_ifs at stepped
      obtain ⟨rfl, -⟩ := Prod.mk.inj (Option.some.inj stepped)
      exact le_refl _
  | onNetworkStop pid =>
      obtain ⟨rfl, -⟩ := Prod.mk.inj (Option.some.inj stepped)
      exact le_refl _
  | sendPaddingPacket pid =>
      obtain ⟨path, -, eq⟩ := Option.map_eq_some_iff.mp stepped
      obtain ⟨rfl, -⟩ := Prod.mk.inj eq
      exact le_refl _
  | sendStreamPacket pid isRetrans =>
      obtain ⟨path, -, rest⟩ := Option.bind_eq_some_iff.mp stepped
      obtain ⟨sent, -, eq⟩ := Option.map_eq_some_iff.mp rest
      obtain ⟨rfl, -⟩ := Prod.mk.inj eq
      exact le_refl _
  | onAck pid seq =>
      obtain ⟨path, -, rest⟩ := Option.bind_eq_some_iff.mp stepped
      split_ifs at rest
      obtain ⟨result, -, eq⟩ := Option.map_eq_some_iff.mp rest
      obtain ⟨rfl, -⟩ := Prod.mk.inj eq
      exact le_refl _

/-- The ledger of a run. -/
theorem ledger_run {quic : QuicData} {waittingPaths : SortedMap UInt8 PathSenderV1}
    {events : List (UInt32 × MpEvent)} {last : SenderBuffers} {log : List PacketNews}
    (unused : Unused waittingPaths) (short : events.length < 2 ^ 64 - 1)
    (ran : (SenderBuffers.multipath quic).run (.registered waittingPaths) events =
      some (last, log)) (few : last.generated < 2 ^ 32) :
    Ledger quic events.length last log := by
  have ledger := Machine.run_counted_invariant
    (fun n (s : SenderBuffers) (log : List PacketNews) =>
      s.generated < 2 ^ 32 → Ledger quic n s log)
    (fun n s past event next out (short : n < 2 ^ 64 - 2) ledger stepped few =>
      (ledger (lt_of_le_of_lt (generated_le_handle stepped) few)).handle short stepped few)
    0 [] (by omega) (fun _ => Ledger.start unused) ran
  rw [Nat.zero_add] at ledger
  exact ledger few

/-- **Every packet is in one place.** In every run, the packets that wait in `pend_buf_`, those
queued or in flight on the usable paths, those that were acknowledged and those that were
dropped are together exactly the packets that were made, each once. -/
theorem packets_conserved {quic : QuicData} {waittingPaths : SortedMap UInt8 PathSenderV1}
    {events : List (UInt32 × MpEvent)} {last : SenderBuffers} {log : List PacketNews}
    (unused : Unused waittingPaths) (short : events.length < 2 ^ 64 - 1)
    (ran : (SenderBuffers.multipath quic).run (.registered waittingPaths) events =
      some (last, log)) (few : last.generated < 2 ^ 32) :
    last.pending + last.tables.held + deliveredIds log + droppedIds log =
        firstIds last.generated ∧
      (firstIds last.generated).Nodup := by
  have ledger := ledger_run unused short ran few
  exact ⟨ledger.balance.trans ledger.made, nodup_firstIds few⟩

/-- The packet that is lost waits on path 2, and the one of a second frame in `pend_buf_`. -/
theorem packets_conserved_overtaken : ∃ last log,
    (SenderBuffers.multipath networkOrder).run (.registered twoPaths)
      (overtaken ++ [(9, .onVideoFrame SenderBuffers.smallFrame)]) = some (last, log) ∧
    last.pending = {2} ∧ last.tables.held = {1} ∧
    last.pending + last.tables.held + deliveredIds log + droppedIds log = firstIds 2 := by
  obtain ⟨last, log, ran, generated, pending, held⟩ : ∃ last log,
      (SenderBuffers.multipath networkOrder).run (.registered twoPaths)
        (overtaken ++ [(9, .onVideoFrame SenderBuffers.smallFrame)]) = some (last, log) ∧
      last.generated = 2 ∧ last.pending = {2} ∧ last.tables.held = {1} :=
    ⟨_, _, rfl, rfl, rfl, rfl⟩
  have conserved := (packets_conserved unused_twoPaths (by decide) ran
    (by rw [generated]; decide)).1
  rw [generated] at conserved
  exact ⟨last, log, ran, pending, held, conserved⟩

/-! ## Packets that can be sent again -/

theorem mem_deliveredIds_iff {log : List PacketNews} {packetId : UInt32} :
    packetId ∈ deliveredIds log ↔ .delivered packetId ∈ log := by
  rw [deliveredIds, Multiset.mem_coe, List.mem_filterMap]
  constructor
  · rintro ⟨news, member, eq⟩
    cases news with
    | delivered other => exact Option.some.inj eq ▸ member
    | made other => cases eq
    | requeued other pid => cases eq
    | stale other => cases eq
    | misrouted other pid => cases eq
  · exact fun member => ⟨_, member, rfl⟩

theorem mem_droppedIds_iff {log : List PacketNews} {packetId : UInt32} :
    packetId ∈ droppedIds log ↔ .stale packetId ∈ log ∨ ∃ pid, .misrouted packetId pid ∈ log := by
  rw [droppedIds, Multiset.mem_coe, List.mem_filterMap]
  constructor
  · rintro ⟨news, member, eq⟩
    cases news with
    | stale other => exact .inl (Option.some.inj eq ▸ member)
    | misrouted other pid => exact .inr ⟨pid, Option.some.inj eq ▸ member⟩
    | made other => cases eq
    | delivered other => cases eq
    | requeued other pid => cases eq
  · rintro (member | ⟨pid, member⟩)
    · exact ⟨_, member, rfl⟩
    · exact ⟨_, member, rfl⟩

/-- A report is stale only for a packet that left `sent_buf_`. -/
theorem PathTables.stale_lossLoop {tables next : PathTables} {now : UInt32} {pid : UInt8}
    {path : PathSenderV1} {news : List PacketNews} {n : ℕ} {i : UInt64}
    (found : tables.getPathInfo pid = some path)
    (ran : tables.lossLoop now pid n i = some (next, news)) {packetId : UInt32}
    (stale : .stale packetId ∈ news) : tables.sentBuf.find? packetId = none := by
  induction n generalizing tables path i news with
  | zero =>
      obtain ⟨rfl, rfl⟩ := Prod.mk.inj (Option.some.inj ran)
      cases stale
  | succ n ih =>
      obtain ⟨⟨middle, lost⟩, round, onwards⟩ := Option.bind_eq_some_iff.mp ran
      obtain ⟨⟨last, more⟩, rest, eq⟩ := Option.map_eq_some_iff.mp onwards
      obtain ⟨rfl, rfl⟩ := Prod.mk.inj eq
      obtain ⟨retrans, requeued, -⟩ := declareLost_requeues found round
      have after : middle.getPathInfo pid = some (path.requeue now (retrans pid)) := by
        rw [getPathInfo, requeued.usable, show tables.usablePaths.find? pid = _ from found]
        rfl
      have same : middle.sentBuf = tables.sentBuf := by rw [requeued.rest]
      rcases List.mem_append.mp stale with first | later
      · rcases declareLost_cases found round with ⟨-, -, rfl⟩ | ⟨other, -, does⟩
        · cases first
        · cases does with
          | requeued target path packet kept usable =>
              cases List.mem_singleton.mp first
          | stale gone =>
              cases List.mem_singleton.mp first
              exact gone
          | misrouted target => cases List.mem_singleton.mp first
      · rw [← same]
        exact ih after rest later

theorem PathTables.stale_onAck {tables next : PathTables} {now : UInt32} {pid : UInt8}
    {path : PathSenderV1} {news : List PacketNews} {seq : UInt64}
    (ran : tables.onAck now pid seq path = some (next, news)) {packetId : UInt32}
    (stale : .stale packetId ∈ news) : tables.sentBuf.find? packetId = none := by
  simp only [onAck, detectLoss] at ran
  split_ifs at ran
  · obtain ⟨⟨looped, lost⟩, loop, eq⟩ := Option.map_eq_some_iff.mp ran
    obtain ⟨-, rfl⟩ := Prod.mk.inj eq
    have isStart : (tables.withPath pid (path.updateRtt now seq)).getPathInfo pid =
        some (path.updateRtt now seq) := SortedMap.find?_set_self _ _ _
    rcases List.mem_append.mp stale with first | acked
    · exact stale_lossLoop isStart loop first
    · obtain ⟨other, -, eq⟩ := Option.map_eq_some_iff.mp (Option.mem_toList.mp acked)
      cases eq
  · obtain ⟨-, rfl⟩ := Prod.mk.inj (Option.some.inj ran)
    cases stale

/-- The packets in `sent_buf_` were scheduled, and no report for them was stale. -/
structure Kept (s : SenderBuffers) (log : List PacketNews) : Prop where
  known : ∀ packetId ∈ s.tables.sentBuf.keys, packetId ∈ firstIds s.generated
  scheduled : ∀ packetId ∈ s.tables.sentBuf.keys, packetId ∉ s.sender.pendBuf.keys
  reported : ∀ packetId ∈ s.tables.sentBuf.keys, .stale packetId ∉ log

namespace Kept

variable {quic : QuicData} {n : ℕ} {s next : SenderBuffers} {log news : List PacketNews}
  {now : UInt32}

/-- What sends no packet for the first time keeps the packets. -/
theorem move (kept : Kept s log) (generated : next.generated = s.generated)
    (sent : ∀ packetId ∈ next.tables.sentBuf.keys, packetId ∈ s.tables.sentBuf.keys)
    (pending : ∀ packetId ∈ next.sender.pendBuf.keys, packetId ∈ s.sender.pendBuf.keys)
    (stale : ∀ packetId ∈ s.tables.sentBuf.keys, .stale packetId ∉ news) :
    Kept next (log ++ news) where
  known packetId member := by
    rw [generated]
    exact kept.known packetId (sent packetId member)
  scheduled packetId member waits :=
    kept.scheduled packetId (sent packetId member) (pending packetId waits)
  reported packetId member := List.not_mem_append
    (kept.reported packetId (sent packetId member)) (stale packetId (sent packetId member))

/-- The packets of a frame are others. -/
theorem onVideoFrame (kept : Kept s log) (ledger : Ledger quic n s log) (now : UInt32)
    (frame : Frame) (few : s.generated + frame.splits.length < 2 ^ 32) :
    Kept { s with
        sender := (s.sender.onVideoFrame now frame).1
        generated := s.generated + frame.splits.length }
      (log ++ (s.nextIds frame).map .made) where
  known packetId member := by
    rw [firstIds_add]
    exact Multiset.mem_add.mpr (.inl (kept.known packetId member))
  scheduled packetId member waits := by
    have waits : packetId ∈ s.pending + ↑(s.nextIds frame) :=
      ledger.pending_onVideoFrame now frame few ▸ waits
    rcases Multiset.mem_add.mp waits with old | isNext
    · exact kept.scheduled packetId member old
    · have distinct := nodup_firstIds few
      rw [firstIds_add, ← ledger.packetId, Multiset.nodup_add] at distinct
      exact Multiset.disjoint_left.mp distinct.2.2 (kept.known packetId member) isNext
  reported packetId member := by
    refine List.not_mem_append (kept.reported packetId member) fun stale => ?_
    obtain ⟨other, -, eq⟩ := List.mem_map.mp stale
    cases eq

/-- A packet that waits has not been reported. -/
theorem packetSchedule (kept : Kept s log) (ledger : Ledger quic n s log)
    (few : s.generated < 2 ^ 32) {packetId : UInt32} {pid : UInt8}
    (scheduled : s.packetSchedule now packetId pid = some next) :
    Kept next (log ++ s.scheduleNews packetId pid) := by
  have silent : ∀ other, .stale other ∉ s.scheduleNews packetId pid := by
    intro other stale
    rw [SenderBuffers.scheduleNews] at stale
    split_ifs at stale
    · cases List.mem_singleton.mp stale
    · cases stale
  rcases SenderBuffers.packetSchedule_cases scheduled with
    ⟨-, rfl⟩ | ⟨packet, sender, -, waits, rfl, ⟨-, rfl⟩ | ⟨path, -, rfl⟩⟩
  · exact kept.move rfl (fun _ member => member) (fun _ member => member) fun _ _ => silent _
  · exact kept.move rfl (fun _ member => member)
      (fun _ member => (SortedMap.mem_keys_erase.mp member).1) fun _ _ => silent _
  · have isPending : packetId ∈ s.pending := SortedMap.mem_keys_iff.mpr ⟨packet, waits⟩
    have balance := ledger.balance.trans ledger.made
    have unreported : .stale packetId ∉ log := by
      intro stale
      have dropped : packetId ∈ droppedIds log := mem_droppedIds_iff.mpr (.inl stale)
      have distinct := nodup_firstIds few
      rw [← balance, Multiset.nodup_add] at distinct
      refine Multiset.disjoint_left.mp distinct.2.2 ?_ dropped
      exact Multiset.mem_add.mpr (.inl (Multiset.mem_add.mpr (.inl isPending)))
    have sentOrOld : ∀ other ∈ (s.tables.sentBuf.insert packetId packet).keys,
        other = packetId ∨ other ∈ s.tables.sentBuf.keys :=
      fun other member => SortedMap.mem_keys_insert.mp member
    refine ⟨fun other member => ?_, fun other member waits => ?_, fun other member => ?_⟩
    · rcases sentOrOld other member with rfl | old
      · change other ∈ firstIds s.generated
        rw [← balance, add_assoc, add_assoc]
        exact Multiset.mem_add.mpr (.inl isPending)
      · exact kept.known other old
    · obtain ⟨waited, differs⟩ := SortedMap.mem_keys_erase.mp waits
      rcases sentOrOld other member with same | old
      · exact differs same
      · exact kept.scheduled other old waited
    · refine List.not_mem_append ?_ (silent other)
      rcases sentOrOld other member with rfl | old
      · exact unreported
      · exact kept.reported other old

/-- **Every event keeps the packets.** -/
theorem handle (kept : Kept s log) (ledger : Ledger quic n s log) {event : MpEvent}
    (stepped : s.handle quic now event = some (next, news)) (few : next.generated < 2 ^ 32) :
    Kept next (log ++ news) := by
  cases event with
  | onVideoFrame frame =>
      obtain ⟨rfl, rfl⟩ := Prod.mk.inj (Option.some.inj stepped)
      exact kept.onVideoFrame ledger now frame few
  | packetSchedule packetId pid =>
      have same := generated_le_handle stepped
      obtain ⟨after, called, eq⟩ := Option.map_eq_some_iff.mp stepped
      obtain ⟨rfl, rfl⟩ := Prod.mk.inj eq
      exact kept.packetSchedule ledger (lt_of_le_of_lt same few) called
  | checkStalePacket =>
      obtain ⟨rfl, rfl⟩ := Prod.mk.inj (Option.some.inj stepped)
      refine kept.move rfl (fun packetId member => ?_) (fun _ member => member)
        fun _ _ => List.not_mem_nil
      obtain ⟨entry, isEntry, rfl⟩ := List.mem_map.mp member
      exact List.mem_map_of_mem (SortedMap.mem_dropWhile.mp isEntry).1
  | onNetworkAvailable pid =>
      simp only [SenderBuffers.handle] at stepped
      split_ifs at stepped
      obtain ⟨rfl, rfl⟩ := Prod.mk.inj (Option.some.inj stepped)
      refine kept.move rfl (fun packetId member => ?_) (fun _ member => member)
        fun _ _ => List.not_mem_nil
      change packetId ∈ (s.tables.onNetworkAvailable pid).sentBuf.keys at member
      rwa [SenderBuffers.onNetworkAvailable_sentBuf] at member
  | onNetworkStop pid =>
      obtain ⟨rfl, rfl⟩ := Prod.mk.inj (Option.some.inj stepped)
      exact kept.move rfl (fun _ member => member) (fun _ member => member)
        fun _ _ => List.not_mem_nil
  | sendPaddingPacket pid =>
      obtain ⟨path, -, eq⟩ := Option.map_eq_some_iff.mp stepped
      obtain ⟨rfl, rfl⟩ := Prod.mk.inj eq
      exact kept.move rfl (fun _ member => member) (fun _ member => member)
        fun _ _ => List.not_mem_nil
  | sendStreamPacket pid isRetrans =>
      obtain ⟨path, -, rest⟩ := Option.bind_eq_some_iff.mp stepped
      obtain ⟨sent, -, eq⟩ := Option.map_eq_some_iff.mp rest
      obtain ⟨rfl, rfl⟩ := Prod.mk.inj eq
      exact kept.move rfl (fun _ member => member) (fun _ member => member)
        fun _ _ => List.not_mem_nil
  | onAck pid seq =>
      obtain ⟨path, found, rest⟩ := Option.bind_eq_some_iff.mp stepped
      split_ifs at rest
      obtain ⟨⟨tables, made⟩, ran, eq⟩ := Option.map_eq_some_iff.mp rest
      obtain ⟨rfl, rfl⟩ := Prod.mk.inj eq
      have acked := PathTables.ackedPath_onAck ran
      refine kept.move rfl (fun packetId member => ?_) (fun _ member => member)
        fun packetId member stale => ?_
      · change packetId ∈ tables.sentBuf.keys at member
        rwa [acked.rest] at member
      · obtain ⟨packet, isKept⟩ := SortedMap.mem_keys_iff.mp member
        rw [PathTables.stale_onAck ran stale] at isKept
        cases isKept

/-- Before the first frame nothing is kept. -/
theorem start (waittingPaths : SortedMap UInt8 PathSenderV1) :
    Kept (.registered waittingPaths) [] where
  known _ member := absurd member List.not_mem_nil
  scheduled _ member := absurd member List.not_mem_nil
  reported _ member := absurd member List.not_mem_nil

end Kept

/-- The packets that are kept in a run. -/
theorem kept_run {quic : QuicData} {waittingPaths : SortedMap UInt8 PathSenderV1}
    {events : List (UInt32 × MpEvent)} {last : SenderBuffers} {log : List PacketNews}
    (unused : Unused waittingPaths) (short : events.length < 2 ^ 64 - 1)
    (ran : (SenderBuffers.multipath quic).run (.registered waittingPaths) events =
      some (last, log)) (few : last.generated < 2 ^ 32) :
    Kept last log := by
  have both := Machine.run_counted_invariant
    (fun n (s : SenderBuffers) (log : List PacketNews) =>
      s.generated < 2 ^ 32 → Ledger quic n s log ∧ Kept s log)
    (fun n s past event next out (short : n < 2 ^ 64 - 2) before stepped few => by
      obtain ⟨ledger, kept⟩ := before (lt_of_le_of_lt (generated_le_handle stepped) few)
      exact ⟨ledger.handle short stepped few, kept.handle ledger stepped few⟩)
    0 [] (by omega) (fun _ => ⟨Ledger.start unused, Kept.start waittingPaths⟩) ran
  exact (both few).2

/-- **No kept packet is forgotten.** In every run, a packet in `sent_buf_` no longer waits in
`pend_buf_`, and none of its losses was stale; it is queued or in flight on a usable path, or was
acknowledged, or was lost for a path that is not usable. -/
theorem sent_packets_kept {quic : QuicData} {waittingPaths : SortedMap UInt8 PathSenderV1}
    {events : List (UInt32 × MpEvent)} {last : SenderBuffers} {log : List PacketNews}
    (unused : Unused waittingPaths) (short : events.length < 2 ^ 64 - 1)
    (ran : (SenderBuffers.multipath quic).run (.registered waittingPaths) events =
      some (last, log)) (few : last.generated < 2 ^ 32) {packetId : UInt32}
    (isSent : packetId ∈ last.tables.sentBuf.keys) :
    packetId ∉ last.sender.pendBuf.keys ∧ .stale packetId ∉ log ∧
      (packetId ∈ last.tables.held ∨ .delivered packetId ∈ log ∨
        ∃ pid, .misrouted packetId pid ∈ log) := by
  have ledger := ledger_run unused short ran few
  have kept := kept_run unused short ran few
  refine ⟨kept.scheduled packetId isSent, kept.reported packetId isSent, ?_⟩
  have somewhere := kept.known packetId isSent
  rw [← ledger.made, ← ledger.balance] at somewhere
  rcases Multiset.mem_add.mp somewhere with undropped | dropped
  · rcases Multiset.mem_add.mp undropped with held | delivered
    · rcases Multiset.mem_add.mp held with waits | onPath
      · exact absurd waits (kept.scheduled packetId isSent)
      · exact .inl onPath
    · exact .inr (.inl (mem_deliveredIds_iff.mp delivered))
  · rcases mem_droppedIds_iff.mp dropped with stale | misrouted
    · exact absurd stale (kept.reported packetId isSent)
    · exact .inr (.inr misrouted)

/-- The packet that is lost is in `sent_buf_`, and waits on path 2. -/
theorem sent_packets_kept_overtaken : ∃ last log,
    (SenderBuffers.multipath networkOrder).run (.registered twoPaths) overtaken =
      some (last, log) ∧
    last.tables.sentBuf.keys = [1] ∧
    1 ∉ last.sender.pendBuf.keys ∧ .stale 1 ∉ log ∧
    (1 ∈ last.tables.held ∨ .delivered 1 ∈ log ∨ ∃ pid, .misrouted 1 pid ∈ log) := by
  obtain ⟨last, log, ran, generated, isSent⟩ : ∃ last log,
      (SenderBuffers.multipath networkOrder).run (.registered twoPaths) overtaken =
        some (last, log) ∧ last.generated = 1 ∧ last.tables.sentBuf.keys = [1] :=
    ⟨_, _, rfl, rfl, rfl⟩
  exact ⟨last, log, ran, isSent, sent_packets_kept unused_twoPaths (by decide) ran
    (by rw [generated]; decide) (isSent ▸ List.mem_singleton_self _)⟩

end MpVideo.V1
