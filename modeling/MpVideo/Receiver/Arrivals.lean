import MpVideo.Receiver.PathReceiver
import MpVideo.Wire.RoundTrip
import Mathlib.Logic.Relation

/-!
# Arrivals on a path

What a path receiver does over a whole sequence of arrivals.

Only `OnReceiveSegment` and `Consume` change the sequence tables; everything else
a receiver does on the way (pings, acknowledgements, traces) is `Quiet`. The loss
table is then the set of gaps in every reachable state (`lossTable_gaps`).

A segment is handed to the frame cache exactly when the tables do not drop it.
The tables drop a number below `base_seq_` and keep one that equals it, so a
number is handed on once if and only if no repeated arrival meets the base from
below and no first arrival lies under it (`handsOffOnce_iff`).
-/

set_option autoImplicit false

namespace MpVideo.Receiver

open Wire

/-- The segments that a list of calls hands to the frame cache. -/
def deliveries (calls : List PathCall) : List (UInt8 × SimSegment) :=
  calls.filterMap fun
    | .deliverToCache pid seg => some (pid, seg)
    | _ => none

@[simp] theorem deliveries_append (first second : List PathCall) :
    deliveries (first ++ second) = deliveries first ++ deliveries second :=
  List.filterMap_append

namespace PathReceiver

/-! ## Calls that leave the tables alone -/

/-- The calls hand nothing on, and the receiver differs from `path` only in
members that do not decide about arrivals. -/
structure Quiet (path : PathReceiver) (result : PathReceiver × List PathCall) : Prop where
  tables : result.1.tables = path.tables
  pid : result.1.pid = path.pid
  stop : result.1.stop = path.stop
  silent : deliveries result.2 = []

theorem quiet_refl (path : PathReceiver) : Quiet path (path, []) := ⟨rfl, rfl, rfl, rfl⟩

theorem deliveries_sendToNetwork (data : List UInt8) (path : PathReceiver) :
    deliveries (path.sendToNetwork data) = [] := by
  rw [sendToNetwork]
  split_ifs <;> rfl

theorem quiet_sendMsg (body : SimBody) (path : PathReceiver) : Quiet path (path.sendMsg body) :=
  ⟨rfl, rfl, rfl, deliveries_sendToNetwork _ path⟩

theorem quiet_sendPingMsg (now : UInt32) (path : PathReceiver) :
    Quiet path (path.sendPingMsg now) :=
  ⟨rfl, rfl, rfl, deliveries_sendToNetwork _ path⟩

theorem quiet_checkPing (now : UInt32) (path : PathReceiver) : Quiet path (path.checkPing now) := by
  rw [checkPing]
  split_ifs with scheduled due
  · exact quiet_refl path
  · exact ⟨rfl, rfl, rfl, (quiet_sendPingMsg now path).silent⟩
  · exact ⟨rfl, rfl, rfl, rfl⟩

theorem quiet_onFirstPacket (now : UInt32) (path : PathReceiver) :
    Quiet path (path.onFirstPacket now) := by
  rw [onFirstPacket]
  split_ifs with first
  · have ping := quiet_checkPing now { path with controller := true }
    exact ⟨ping.tables, ping.pid, ping.stop, ping.silent⟩
  · exact quiet_refl path

theorem quiet_videoRealAck (now : UInt32) (hb : Bool) (seq : UInt32) (path : PathReceiver) :
    Quiet path (path.videoRealAck now hb seq) := by
  rw [videoRealAck]
  have ack : Quiet path (path.sendSegmentAck (segmentAck seq path.tables)) := quiet_sendMsg _ path
  generalize path.sendSegmentAck (segmentAck seq path.tables) = result at ack ⊢
  split_ifs with due
  · exact ⟨ack.tables, ack.pid, ack.stop, ack.silent⟩
  · exact quiet_refl path

theorem deliveries_delayCalls (env : Env) (seg : SimSegment) (path : PathReceiver) :
    deliveries (path.delayCalls env seg) = [] := by
  rw [delayCalls]
  split_ifs <;> rfl

/-! ## One arrival -/

theorem onReceiveSegment_stopped {path : PathReceiver} (stopped : path.stop = true) (env : Env)
    (seg : SimSegment) : path.onReceiveSegment env seg = (path, []) := by
  rw [onReceiveSegment, if_pos stopped]

theorem acceptSegment_spec (env : Env) (seg : SimSegment) (path : PathReceiver) :
    (path.acceptSegment env seg).1.tables = path.tables.record seg.packetId seg.index ∧
      (path.acceptSegment env seg).1.pid = path.pid ∧
      (path.acceptSegment env seg).1.stop = path.stop ∧
      deliveries (path.acceptSegment env seg).2 = [(path.pid, seg)] := by
  have ack := quiet_videoRealAck env.now false seg.packetId
    { path with tables := path.tables.record seg.packetId seg.index }
  refine ⟨ack.tables, ack.pid, ack.stop, ?_⟩
  simp only [acceptSegment, deliveries_append, deliveries_delayCalls, List.nil_append]
  rw [ack.silent, ack.pid]
  rfl

/-- **What an arrival does to a running receiver**: the tables record it unless they
drop it, and exactly then the segment is handed on. -/
theorem onReceiveSegment_spec {path : PathReceiver} (running : path.stop = false) (env : Env)
    (seg : SimSegment) :
    (path.onReceiveSegment env seg).1.tables = path.tables.arrive seg.packetId seg.index ∧
      (path.onReceiveSegment env seg).1.pid = path.pid ∧
      (path.onReceiveSegment env seg).1.stop = false ∧
      deliveries (path.onReceiveSegment env seg).2 =
        if path.tables.dropped seg.packetId then [] else [(path.pid, seg)] := by
  obtain ⟨sameTables, samePid, sameStop, silent⟩ := quiet_onFirstPacket env.now path
  obtain ⟨tables, pid, stop, calls⟩ := acceptSegment_spec env seg (path.onFirstPacket env.now).1
  rw [sameTables] at tables
  rw [samePid] at pid calls
  simp only [onReceiveSegment, running, Bool.false_eq_true, if_false, SeqTables.arrive, sameTables]
  split_ifs with drop
  · exact ⟨sameTables, samePid, sameStop.trans running, silent⟩
  · refine ⟨tables, pid, stop.trans (sameStop.trans running), ?_⟩
    rw [deliveries_append, silent, calls, List.nil_append]

/-- Whatever its state, a receiver hands nothing on but the segment that arrived. -/
theorem onReceiveSegment_hands (env : Env) (seg : SimSegment) (path : PathReceiver) :
    (path.onReceiveSegment env seg).1.pid = path.pid ∧
      (deliveries (path.onReceiveSegment env seg).2 = [] ∨
        deliveries (path.onReceiveSegment env seg).2 = [(path.pid, seg)]) := by
  cases running : path.stop with
  | true =>
      rw [onReceiveSegment_stopped running]
      exact ⟨rfl, .inl rfl⟩
  | false =>
      obtain ⟨-, pid, -, calls⟩ := onReceiveSegment_spec running env seg
      refine ⟨pid, ?_⟩
      split_ifs at calls with drop
      · exact .inl calls
      · exact .inr calls

/-- The stream after a datagram with a message was decoded. -/
def decodedStrm (header : SimHeader) (body : SimBody) (path : PathReceiver) : BinStream :=
  afterBody header body (path.withPacket (messageBytes header body)).strm

/-- A running receiver processes the message of a datagram that fits, as it is decoded. -/
theorem recvPacket_message {path : PathReceiver} (running : path.stop = false)
    {header : SimHeader} {body : SimBody} (mid : header.mid = body.mid.toUInt8)
    (legal : body.Legal) (isHandled : handled body.mid = true) (env : Env)
    (fits : (messageBytes header body).length ≤ path.strm.size) :
    path.recvPacket env true (messageBytes header body) =
      processBody env header { path with strm := path.decodedStrm header body } body.received := by
  have bytes : (path.withPacket (messageBytes header body)).strm.data =
      messageBytes header body := rfl
  have still : ¬ (path.withPacket (messageBytes header body)).stop = true :=
    Bool.not_eq_true _ ▸ running
  rw [recvPacket_eq env fits, processingMsg, if_neg still]
  simp only [simDecodeHeader_message bytes rfl, processDecoded, mid, MsgId.ofUInt8?_toUInt8,
    isHandled, if_true, simDecodeMsg_message bytes rfl mid legal]
  rfl

/-- **The datagram of a segment is the arrival of that segment**, as it is decoded, when it
fits. -/
theorem recvPacket_segment {path : PathReceiver} (header : SimHeader) {seg : SimSegment}
    (ver : header.ver = path.pid) (mid : header.mid = MsgId.simSeg.toUInt8)
    (legal : (SimBody.seg seg).Legal) (env : Env)
    (fits : (messageBytes header (.seg seg)).length ≤ path.strm.size) :
    ∃ strm, path.recvPacket env true (messageBytes header (.seg seg)) =
      some (onReceiveSegment env seg.received { path with strm }) := by
  by_cases stopped : path.stop = true
  · have still : (path.withPacket (messageBytes header (.seg seg))).stop = true := stopped
    refine ⟨(path.withPacket (messageBytes header (.seg seg))).strm, ?_⟩
    rw [recvPacket_eq env fits, processingMsg, if_pos still]
    exact congrArg some (onReceiveSegment_stopped still env _).symm
  · refine ⟨path.decodedStrm header (.seg seg), ?_⟩
    rw [recvPacket_message (Bool.not_eq_true _ ▸ stopped) mid legal rfl env fits]
    exact if_neg fun differs => differs ver.symm

/-! ## The loss table over runs -/

/-- A receiver together with the packet ids that arrived. -/
structure Session where
  path : PathReceiver
  arrived : List UInt32

/-- An arrival, or the consumption of a packet that arrived. -/
inductive Session.Step : Session → Session → Prop where
  | segment (session : Session) (env : Env) (seg : SimSegment)
      (small : seg.packetId < 0xffffffff) :
      Step session
        ⟨(session.path.onReceiveSegment env seg).1, seg.packetId :: session.arrived⟩
  | consume (session : Session) (packetId : UInt32) (known : packetId ∈ session.arrived) :
      Step session ⟨session.path.consume packetId, session.arrived⟩

/-- The tables are consistent and no arrived number lies beyond the greatest one. -/
structure Session.Valid (session : Session) : Prop where
  consistent : session.path.tables.Consistent
  known : ∀ packetId ∈ session.arrived, packetId ≤ session.path.tables.maxSeq
  running : session.path.stop = false

/-- One step keeps the invariant and moves neither counter back. -/
theorem Session.Step.valid {session next : Session} (step : session.Step next)
    (valid : session.Valid) :
    next.Valid ∧ session.path.tables.baseSeq ≤ next.path.tables.baseSeq ∧
      session.path.tables.maxSeq ≤ next.path.tables.maxSeq := by
  cases step with
  | segment env seg small =>
      obtain ⟨tables, -, running, -⟩ := onReceiveSegment_spec valid.running env seg
      obtain ⟨consistent, base, upper, arrived⟩ := valid.consistent.arrive small seg.index
      refine ⟨⟨tables ▸ consistent, ?_, running⟩, tables ▸ base,
        tables ▸ upper⟩
      intro packetId member
      rw [tables]
      rcases List.mem_cons.mp member with rfl | earlier
      · exact arrived
      · exact le_trans (valid.known packetId earlier) upper
  | consume packetId known =>
      obtain ⟨consistent, base, upper⟩ := valid.consistent.consume (valid.known packetId known)
      exact ⟨⟨consistent, fun other member => le_trans (valid.known other member) upper,
        valid.running⟩, base, upper⟩

/-- A run keeps the invariant and moves neither counter back. -/
theorem Session.valid_of_run {session last : Session}
    (run : Relation.ReflTransGen Session.Step session last) (valid : session.Valid) :
    last.Valid ∧ session.path.tables.baseSeq ≤ last.path.tables.baseSeq ∧
      session.path.tables.maxSeq ≤ last.path.tables.maxSeq := by
  induction run with
  | refl => exact ⟨valid, le_refl _, le_refl _⟩
  | tail _ step ih =>
      obtain ⟨still, base, upper⟩ := ih
      obtain ⟨next, base', upper'⟩ := step.valid still
      exact ⟨next, le_trans base base', le_trans upper upper'⟩

/-- **The loss table is exactly the set of gaps.** In every state a receiver reaches
by arrivals and by consuming what arrived, the base is not above the greatest
number, every entry of the receive table lies above the number after the base,
the missing numbers are those in between that were not received, and on the way
from any earlier state neither counter decreased. -/
theorem lossTable_gaps (path : PathReceiver) (fresh : path.tables = {})
    (running : path.stop = false) {earlier later : Session}
    (before : Relation.ReflTransGen Session.Step ⟨path, []⟩ earlier)
    (after : Relation.ReflTransGen Session.Step earlier later) :
    later.path.tables.baseSeq ≤ later.path.tables.maxSeq ∧
      (∀ key ∈ later.path.tables.recvTable,
        later.path.tables.baseSeq.toNat + 1 < key.toNat ∧ key ≤ later.path.tables.maxSeq) ∧
      (∀ i, i ∈ later.path.tables.loss ↔
        (later.path.tables.baseSeq < i ∧ i ≤ later.path.tables.maxSeq) ∧
          i ∉ later.path.tables.recvTable) ∧
      earlier.path.tables.baseSeq ≤ later.path.tables.baseSeq ∧
      earlier.path.tables.maxSeq ≤ later.path.tables.maxSeq := by
  have start : Session.Valid ⟨path, []⟩ :=
    ⟨fresh ▸ SeqTables.consistent_fresh, fun _ member => absurd member List.not_mem_nil, running⟩
  obtain ⟨valid, base, upper⟩ := Session.valid_of_run after (Session.valid_of_run before start).1
  have consistent := valid.consistent
  refine ⟨consistent.base_le_max, fun key member => ⟨?_, consistent.recv_le_max key member⟩,
    ?_, base, upper⟩
  · have above := UInt32.lt_iff_toNat_lt.mp (consistent.recv_above key member)
    have noWrap := UInt32.lt_iff_toNat_lt.mp consistent.base_lt
    have small := later.path.tables.baseSeq.toNat_lt
    simp only [UInt32.toNat_add, UInt32.reduceToNat] at above noWrap
    omega
  · intro i
    rw [consistent.mem_loss, and_assoc]

/-- Packet 5 opens the window at 2 and leaves the gap 3, 4; consuming it closes the gap. -/
theorem lossTable_gaps_consumed :
    let seg : SimSegment := ⟨5, 1, 0, 2, 4, 0, 0, 1, 0, 1, .empty⟩
    let path : PathReceiver := { uid := 1 }
    let later := (path.onReceiveSegment ⟨10, none⟩ seg).1.consume 5
    later.tables.baseSeq ≤ later.tables.maxSeq ∧ path.tables.maxSeq ≤ later.tables.maxSeq :=
  have gaps := lossTable_gaps { uid := 1 } rfl rfl .refl
    (.tail (.single (.segment _ ⟨10, none⟩ ⟨5, 1, 0, 2, 4, 0, 0, 1, 0, 1, .empty⟩ (by decide)))
      (.consume _ 5 List.mem_cons_self))
  ⟨gaps.1, gaps.2.2.2.2⟩

/-! ## The hand-off over runs -/

/-- A segment that arrives, with the fields a sender gives it. -/
structure Arrival where
  env : Env
  seg : SimSegment
  index_lt : seg.index < seg.total
  positive : 1 ≤ seg.packetId

/-- The receiver after an arrival. -/
def next (path : PathReceiver) (arrival : Arrival) : PathReceiver :=
  (path.onReceiveSegment arrival.env arrival.seg).1

/-- The segments an arrival hands on. -/
def handedOff (path : PathReceiver) (arrival : Arrival) : List (UInt8 × SimSegment) :=
  deliveries (path.onReceiveSegment arrival.env arrival.seg).2

/-- Each arrival is handed on if its number did not arrive before, and only then. -/
def HandsOffOnce : PathReceiver → List UInt32 → List Arrival → Prop
  | _, _, [] => True
  | path, seen, arrival :: rest =>
      path.handedOff arrival =
        (if arrival.seg.packetId ∈ seen then [] else [(path.pid, arrival.seg)]) ∧
      HandsOffOnce (path.next arrival) (arrival.seg.packetId :: seen) rest

/-- No number that equals the base arrives again, and no number below the base
arrives for the first time. -/
def KeepsFromBase : PathReceiver → List UInt32 → List Arrival → Prop
  | _, _, [] => True
  | path, seen, arrival :: rest =>
      ((arrival.seg.packetId = path.tables.baseSeq → arrival.seg.packetId ∉ seen) ∧
        (arrival.seg.packetId < path.tables.baseSeq → arrival.seg.packetId ∈ seen)) ∧
      KeepsFromBase (path.next arrival) (arrival.seg.packetId :: seen) rest

/-- Above the base, the receive table holds exactly the numbers that arrived. -/
structure Tracks (seen : List UInt32) (tables : SeqTables) : Prop where
  started : tables.maxSeq = 0 → seen = []
  fresh : seen = [] → tables.baseSeq = 0
  mem_recvTable : ∀ i, i ∈ tables.recvTable ↔ i ∈ seen ∧ tables.baseSeq < i

theorem Tracks.initSeqs {seen : List UInt32} {tables : SeqTables} (tracks : Tracks seen tables)
    (packetId : UInt32) (index : UInt16) (i : UInt32) :
    i ∈ (tables.initSeqs packetId index).recvTable ↔
      i ∈ seen ∧ (tables.initSeqs packetId index).baseSeq < i := by
  rw [SeqTables.initSeqs]
  split_ifs with first
  · have none := tracks.started first.1
    subst none
    simpa using tracks.mem_recvTable i
  · exact tracks.mem_recvTable i

/-- `UpdataRecvTable` adds the number to what is tracked. -/
theorem mem_updataRecvTable {seen : List UInt32} {tables : SeqTables} {seq : UInt32}
    (positive : 1 ≤ seq) (tracked : ∀ i, i ∈ tables.recvTable ↔ i ∈ seen ∧ tables.baseSeq < i)
    (i : UInt32) :
    i ∈ (tables.updataRecvTable seq).recvTable ↔
      i ∈ seq :: seen ∧ (tables.updataRecvTable seq).baseSeq < i := by
  rw [SeqTables.updataRecvTable]
  split_ifs with continues
  · obtain ⟨grows, -, remaining, -⟩ := SeqTables.absorb_spec
      (tables.recvTable.popWhile (· ≤ seq)).sorted
      (fun key member => (SortedSet.mem_popWhile_le.mp member).2)
    apply (remaining i).trans
    rw [← SortedSet.mem_def, SortedSet.mem_popWhile_le, tracked, List.mem_cons]
    change _ ↔ (_ ∧ (SeqTables.absorb seq _).1 < i)
    grind
  · obtain ⟨grows, -, remaining, -⟩ := SeqTables.absorb_spec
      ((tables.recvTable.insert seq).popWhile (· ≤ tables.baseSeq)).sorted
      (fun key member => (SortedSet.mem_popWhile_le.mp member).2)
    apply (remaining i).trans
    rw [← SortedSet.mem_def, SortedSet.mem_popWhile_le, SortedSet.mem_insert, tracked,
      List.mem_cons]
    change _ ↔ (_ ∧ (SeqTables.absorb tables.baseSeq _).1 < i)
    grind

/-- One arrival keeps the receive table in step with what arrived. -/
theorem Tracks.arrive {seen : List UInt32} {tables : SeqTables} (tracks : Tracks seen tables)
    {packetId : UInt32} (positive : 1 ≤ packetId) (index : UInt16) :
    Tracks (packetId :: seen) (tables.arrive packetId index) := by
  rw [SeqTables.arrive]
  split_ifs with drop
  · simp only [SeqTables.dropped, SeqTables.checkRecvTableExist, Bool.or_eq_true,
      decide_eq_true_eq, tracks.mem_recvTable] at drop
    refine ⟨?_, fun none => absurd none (List.cons_ne_nil _ _), ?_⟩
    · intro noneYet
      have none := tracks.started noneYet
      have base := tracks.fresh none
      subst none
      grind
    · intro i
      rw [tracks.mem_recvTable, List.mem_cons]
      grind
  · refine ⟨?_, fun none => absurd none (List.cons_ne_nil _ _), ?_⟩
    · intro noneYet
      rw [SeqTables.record, SeqTables.updataRecvTable_maxSeq] at noneYet
      have := le_max_right (tables.initSeqs packetId index).maxSeq packetId
      change max (tables.initSeqs packetId index).maxSeq packetId = 0 at noneYet
      grind
    · exact mem_updataRecvTable positive (tracks.initSeqs packetId index)

/-- The tables drop exactly what arrived before, except at and below the base. -/
theorem Tracks.dropped_iff {seen : List UInt32} {tables : SeqTables} (tracks : Tracks seen tables)
    (seq : UInt32) :
    (tables.dropped seq = true ↔ seq ∈ seen) ↔
      (seq = tables.baseSeq → seq ∉ seen) ∧ (seq < tables.baseSeq → seq ∈ seen) := by
  simp only [SeqTables.dropped, SeqTables.checkRecvTableExist, Bool.or_eq_true,
    decide_eq_true_eq, tracks.mem_recvTable]
  grind

theorem handsOffOnce_iff_of_tracks {path : PathReceiver} {seen : List UInt32}
    (tracks : Tracks seen path.tables) (running : path.stop = false) (arrivals : List Arrival) :
    HandsOffOnce path seen arrivals ↔ KeepsFromBase path seen arrivals := by
  induction arrivals generalizing path seen with
  | nil => exact Iff.rfl
  | cons arrival rest ih =>
      obtain ⟨tables, -, still, calls⟩ := onReceiveSegment_spec running arrival.env arrival.seg
      have later : Tracks (arrival.seg.packetId :: seen) (path.next arrival).tables :=
        tables ▸ tracks.arrive arrival.positive arrival.seg.index
      refine and_congr ?_ (ih later still)
      rw [handedOff, calls, ← tracks.dropped_iff]
      split_ifs with drop known known
      · exact iff_of_true rfl (by tauto)
      · exact iff_of_false (by simp) (by tauto)
      · exact iff_of_false (by simp) (by tauto)
      · exact iff_of_true rfl (by tauto)

/-- **A path hands each number on exactly once if and only if** no arrival repeats
the number that `base_seq_` has reached and none comes for the first time from
below it. -/
theorem handsOffOnce_iff {path : PathReceiver} (fresh : path.tables = {})
    (running : path.stop = false) (arrivals : List Arrival) :
    HandsOffOnce path [] arrivals ↔ KeepsFromBase path [] arrivals := by
  refine handsOffOnce_iff_of_tracks ⟨fun _ => rfl, fun _ => fresh ▸ rfl, ?_⟩ running _
  intro i
  rw [fresh]
  exact iff_of_false (SortedSet.not_mem_empty i) (by simp)

/-- The only segment of a frame, with packet id 1. -/
def firstArrival : Arrival :=
  ⟨⟨10, none⟩, ⟨1, 1, 0, 0, 1, 0, 0, 1, 0, 1, .empty⟩, by decide, by decide⟩

/-- The only segment of the third frame. -/
def thirdArrival : Arrival :=
  ⟨⟨12, none⟩, ⟨3, 3, 0, 0, 1, 0, 0, 1, 0, 3, .empty⟩, by decide, by decide⟩

/-- The segment of the second frame, overtaken by that of the third. -/
def secondArrival : Arrival :=
  ⟨⟨14, none⟩, ⟨2, 2, 0, 0, 1, 0, 0, 1, 0, 2, .empty⟩, by decide, by decide⟩

/-- Three segments, one of them repeated and one overtaken, are handed on once each. -/
theorem handsOffOnce_first : HandsOffOnce { uid := 1 } []
    [firstArrival, thirdArrival, thirdArrival, secondArrival] :=
  (handsOffOnce_iff rfl rfl _).mpr ⟨by decide, by decide, by decide, by decide, trivial⟩

/-- The second arrival of packet 1 finds the base at 1 and is handed on again. -/
theorem firstArrival_handed_twice :
    ¬ HandsOffOnce { uid := 1 } [] [firstArrival, firstArrival] := by
  rintro ⟨-, again, -⟩
  have fresh : ({ uid := 1 } : PathReceiver).stop = false := rfl
  obtain ⟨tables, pid, running, -⟩ :=
    onReceiveSegment_spec fresh firstArrival.env firstArrival.seg
  have still : (next { uid := 1 } firstArrival).stop = false := running
  have calls := (onReceiveSegment_spec still firstArrival.env firstArrival.seg).2.2.2
  have kept : (next { uid := 1 } firstArrival).tables.dropped firstArrival.seg.packetId = false := by
    rw [next, tables]
    decide
  rw [if_pos List.mem_cons_self, handedOff, calls, kept] at again
  exact absurd again (by simp)

end PathReceiver

end MpVideo.Receiver
