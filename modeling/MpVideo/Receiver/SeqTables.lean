import MpVideo.Lib.MachineInt
import MpVideo.Lib.SortedSet
import Mathlib.Order.MinMax

/-!
# Sequence tables of a path receiver

The members `base_seq_`, `max_seq_`, `loss_` and `recv_table_` of `PathReceiver`,
and the helpers that keep them. `base_seq_` is the number below which nothing is
awaited, `recv_table_` the numbers received above it, `loss_` the numbers still
missing.

The helpers each restore a part of one relation: `loss_` is the set of numbers
above `base_seq_` and up to `max_seq_` that are not in `recv_table_` (`GapSet`),
and no number of `recv_table_` continues `base_seq_` (`Consistent`).
-/

set_option autoImplicit false

namespace MpVideo.Receiver

/-- The sequence numbers a path receiver keeps. -/
structure SeqTables where
  baseSeq : UInt32 := 0
  maxSeq : UInt32 := 0
  loss : SortedSet UInt32 := .empty
  recvTable : SortedSet UInt32 := .empty
  deriving DecidableEq

namespace SeqTables

/-! ## Helpers of the source -/

/-- `LossTableRemove`. -/
def lossTableRemove (seq : UInt32) (tables : SeqTables) : SeqTables :=
  { tables with loss := tables.loss.erase seq }

/-- `LossTableRemoveUntil`. -/
def lossTableRemoveUntil (seq : UInt32) (tables : SeqTables) : SeqTables :=
  { tables with loss := tables.loss.popWhile (· ≤ seq) }

/-- Insertion of `n` consecutive numbers. -/
def insertRun (start : UInt32) : Nat → SortedSet UInt32 → SortedSet UInt32
  | 0, set => set
  | n + 1, set => insertRun (start + 1) n (set.insert start)

/-- `UpdataLoss`. The loop counts from `max_seq_ + 1`, which wraps, up to `seq`. -/
def updataLoss (seq : UInt32) (tables : SeqTables) : SeqTables :=
  let tables := tables.lossTableRemove seq
  let start := tables.maxSeq + 1
  { tables with loss := insertRun start (seq.toNat - start.toNat) tables.loss }

/-- The last loop of `UpdataRecvTable` and of `RecvTableRemoveUntil`: as long as the
least number received continues the base, the base moves there. -/
def absorb : UInt32 → List UInt32 → UInt32 × List UInt32
  | base, [] => (base, [])
  | base, key :: rest => if key = base + 1 then absorb key rest else (base, key :: rest)

theorem absorb_suffix (base : UInt32) (list : List UInt32) : (absorb base list).2 <:+ list := by
  induction list generalizing base with
  | nil => exact List.suffix_rfl
  | cons key rest ih =>
      rw [absorb]
      split_ifs
      · exact (ih key).trans (List.suffix_cons key rest)
      · exact List.suffix_rfl

/-- The last loop, on the tables. -/
def absorbTable (tables : SeqTables) : SeqTables :=
  { tables with
    baseSeq := (absorb tables.baseSeq tables.recvTable.elems).1
    recvTable := ⟨(absorb tables.baseSeq tables.recvTable.elems).2,
      tables.recvTable.sorted.sublist (absorb_suffix _ _).sublist⟩ }

/-- `UpdataRecvTable`. -/
def updataRecvTable (seq : UInt32) (tables : SeqTables) : SeqTables :=
  let tables :=
    if seq = tables.baseSeq + 1 then { tables with baseSeq := seq }
    else { tables with recvTable := tables.recvTable.insert seq }
  let tables := { tables with recvTable := tables.recvTable.popWhile (· ≤ tables.baseSeq) }
  tables.absorbTable

/-- `RecvTableRemoveUntil`. -/
def recvTableRemoveUntil (seq : UInt32) (tables : SeqTables) : SeqTables :=
  let tables := { tables with recvTable := tables.recvTable.popWhile (· ≤ seq) }
  let tables := if tables.baseSeq ≤ seq then { tables with baseSeq := seq } else tables
  tables.absorbTable

/-- `CheckRecvTableExist`. -/
def checkRecvTableExist (seq : UInt32) (tables : SeqTables) : Bool :=
  seq ∈ tables.recvTable

/-- The two tests by which `OnReceiveSegment` drops an arrival. -/
def dropped (seq : UInt32) (tables : SeqTables) : Bool :=
  tables.checkRecvTableExist seq || seq < tables.baseSeq

/-- The one-time initialisation of `base_seq_` and `max_seq_` in `OnReceiveSegment`. -/
def initSeqs (packetId : UInt32) (index : UInt16) (tables : SeqTables) : SeqTables :=
  if tables.maxSeq = 0 ∧ packetId > index.toUInt32 then
    { tables with
      maxSeq := packetId - index.toUInt32 - 1
      baseSeq := packetId - index.toUInt32 - 1 }
  else tables

/-- What `OnReceiveSegment` does to the tables for an arrival it does not drop. -/
def record (packetId : UInt32) (index : UInt16) (tables : SeqTables) : SeqTables :=
  let tables := tables.initSeqs packetId index
  let tables := tables.updataLoss packetId
  let tables := { tables with maxSeq := max tables.maxSeq packetId }
  tables.updataRecvTable packetId

/-- What `OnReceiveSegment` does to the tables. -/
def arrive (packetId : UInt32) (index : UInt16) (tables : SeqTables) : SeqTables :=
  if tables.dropped packetId then tables else tables.record packetId index

/-- `Consume`. -/
def consume (packetId : UInt32) (tables : SeqTables) : SeqTables :=
  (tables.lossTableRemoveUntil packetId).recvTableRemoveUntil packetId

/-! ## What the loops do -/

theorem mem_insertRun {start : UInt32} {n : Nat} (room : start.toNat + n < 2 ^ 32)
    {set : SortedSet UInt32} {i : UInt32} :
    i ∈ insertRun start n set ↔
      i ∈ set ∨ start.toNat ≤ i.toNat ∧ i.toNat < start.toNat + n := by
  induction n generalizing start set with
  | zero =>
      simp only [insertRun, Nat.add_zero]
      refine ⟨.inl, ?_⟩
      rintro (member | ⟨low, high⟩)
      · exact member
      · omega
  | succ n ih =>
      have next : (start + 1).toNat = start.toNat + 1 := by
        simp only [UInt32.toNat_add, UInt32.reduceToNat]
        omega
      rw [insertRun, ih (by omega), SortedSet.mem_insert, next, ← UInt32.toNat_inj]
      constructor
      · rintro ((same | member) | ⟨low, high⟩)
        · exact .inr ⟨by omega, by omega⟩
        · exact .inl member
        · exact .inr ⟨by omega, by omega⟩
      · rintro (member | ⟨low, high⟩)
        · exact .inl (.inr member)
        · by_cases same : i.toNat = start.toNat
          · exact .inl (.inl same)
          · exact .inr ⟨by omega, by omega⟩

/-- The loss table after `UpdataLoss`: the arrived number leaves it, and every
number between the greatest one so far and the arrived one enters it. -/
theorem mem_updataLoss {seq : UInt32} {tables : SeqTables} (room : tables.maxSeq < 0xffffffff)
    {i : UInt32} :
    i ∈ (tables.updataLoss seq).loss ↔
      i ≠ seq ∧ i ∈ tables.loss ∨ tables.maxSeq < i ∧ i < seq := by
  have bound := UInt32.lt_iff_toNat_lt.mp room
  have next : (tables.maxSeq + 1).toNat = tables.maxSeq.toNat + 1 := by
    simp only [UInt32.toNat_add, UInt32.reduceToNat] at bound ⊢
    omega
  have small := seq.toNat_lt
  simp only [UInt32.reduceToNat] at bound
  change i ∈ insertRun (tables.maxSeq + 1) (seq.toNat - (tables.maxSeq + 1).toNat)
    (tables.loss.erase seq) ↔ _
  rw [mem_insertRun (by omega), SortedSet.mem_erase, next, UInt32.lt_iff_toNat_lt,
    UInt32.lt_iff_toNat_lt]
  refine or_congr_right ⟨?_, ?_⟩
  · rintro ⟨low, high⟩
    omega
  · rintro ⟨low, high⟩
    omega

/-- **The last loop moves the base over exactly the numbers that continue it.** -/
theorem absorb_spec {base : UInt32} {list : List UInt32} (sorted : list.Pairwise (· < ·))
    (above : ∀ key ∈ list, base < key) :
    base ≤ (absorb base list).1 ∧
      (∀ i, base < i → i ≤ (absorb base list).1 → i ∈ list) ∧
      (∀ key, key ∈ (absorb base list).2 ↔ key ∈ list ∧ (absorb base list).1 < key) ∧
      (absorb base list).1 + 1 ∉ (absorb base list).2 := by
  induction list generalizing base with
  | nil =>
      refine ⟨le_refl base, ?_, by simp [absorb], by simp [absorb]⟩
      intro i low high
      exact absurd (lt_of_lt_of_le low high) (lt_irrefl base)
  | cons key rest ih =>
      obtain ⟨below, sortedRest⟩ := List.pairwise_cons.mp sorted
      have low : base < key := above key List.mem_cons_self
      rw [absorb]
      split_ifs with continues
      · obtain ⟨grows, covered, remaining, stops⟩ := ih sortedRest below
        refine ⟨le_trans (le_of_lt low) grows, ?_, ?_, stops⟩
        · intro i above upTo
          by_cases same : i = key
          · exact same ▸ List.mem_cons_self
          · exact List.mem_cons_of_mem key (covered i (by grind) upTo)
        · intro k
          rw [remaining k, List.mem_cons]
          refine ⟨fun ⟨member, less⟩ => ⟨.inr member, less⟩, ?_⟩
          rintro ⟨rfl | member, less⟩
          · exact absurd (lt_of_lt_of_le less grows) (lt_irrefl _)
          · exact ⟨member, less⟩
      · refine ⟨le_refl base, ?_, ?_, ?_⟩
        · intro i above upTo
          exact absurd (lt_of_lt_of_le above upTo) (lt_irrefl base)
        · intro k
          exact ⟨fun member => ⟨member, above k member⟩, And.left⟩
        · intro next
          cases List.mem_cons.mp next with
          | inl same => exact continues same.symm
          | inr member =>
              have := below _ member
              grind

/-! ## The gap set -/

/-- The missing numbers are those above the base and up to the greatest one that
are not in the table of received numbers. -/
structure GapSet (tables : SeqTables) : Prop where
  base_le_max : tables.baseSeq ≤ tables.maxSeq
  max_lt : tables.maxSeq < 0xffffffff
  recv_le_max : ∀ key ∈ tables.recvTable, key ≤ tables.maxSeq
  mem_loss : ∀ i, i ∈ tables.loss ↔
    tables.baseSeq < i ∧ i ≤ tables.maxSeq ∧ i ∉ tables.recvTable

/-- The gap set is exact, and no received number continues the base. -/
structure Consistent (tables : SeqTables) : Prop extends GapSet tables where
  recv_above : ∀ key ∈ tables.recvTable, tables.baseSeq + 1 < key

theorem Consistent.base_lt {tables : SeqTables} (consistent : Consistent tables) :
    tables.baseSeq < tables.baseSeq + 1 := by
  have := consistent.base_le_max
  have := consistent.max_lt
  grind

/-- The last loop turns an exact gap set into consistent tables. -/
theorem GapSet.absorbTable {tables : SeqTables} (gaps : GapSet tables)
    (above : ∀ key ∈ tables.recvTable, tables.baseSeq < key) :
    Consistent tables.absorbTable ∧ tables.baseSeq ≤ tables.absorbTable.baseSeq := by
  obtain ⟨grows, covered, remaining, stops⟩ := absorb_spec tables.recvTable.sorted above
  have upper : (absorb tables.baseSeq tables.recvTable.elems).1 ≤ tables.maxSeq := by
    cases eq_or_lt_of_le grows with
    | inl same => exact same ▸ gaps.base_le_max
    | inr less => exact gaps.recv_le_max _ (covered _ less (le_refl _))
  have max_lt := gaps.max_lt
  refine ⟨⟨⟨upper, max_lt, ?_, ?_⟩, ?_⟩, grows⟩
  · intro key member
    exact gaps.recv_le_max key ((remaining key).mp member).1
  · intro i
    change i ∈ tables.loss ↔ (absorb tables.baseSeq tables.recvTable.elems).1 < i ∧
      i ≤ tables.maxSeq ∧ i ∉ (absorb tables.baseSeq tables.recvTable.elems).2
    rw [gaps.mem_loss, remaining]
    constructor
    · rintro ⟨low, high, notReceived⟩
      refine ⟨?_, high, fun member => notReceived member.1⟩
      by_contra notAbove
      exact notReceived (covered i low (le_of_not_gt notAbove))
    · rintro ⟨low, high, notRemaining⟩
      exact ⟨lt_of_le_of_lt grows low, high, fun received => notRemaining ⟨received, low⟩⟩
  · intro key member
    have low := ((remaining key).mp member).2
    have differ : key ≠ (absorb tables.baseSeq tables.recvTable.elems).1 + 1 :=
      fun same => stops (same ▸ member)
    change (absorb tables.baseSeq tables.recvTable.elems).1 + 1 < key
    grind

/-! ## Preservation -/

theorem consistent_fresh : Consistent {} where
  base_le_max := le_refl _
  max_lt := by decide
  recv_le_max _ member := absurd member (SortedSet.not_mem_empty _)
  mem_loss i := by
    constructor
    · intro member
      exact absurd member (SortedSet.not_mem_empty _)
    · rintro ⟨low, high, -⟩
      exact absurd (lt_of_lt_of_le low high) (lt_irrefl _)
  recv_above _ member := absurd member (SortedSet.not_mem_empty _)

/-- The initialisation takes place only while both tables are empty. -/
theorem Consistent.initSeqs {tables : SeqTables} (consistent : Consistent tables)
    {packetId : UInt32} (small : packetId < 0xffffffff) (index : UInt16) :
    Consistent (tables.initSeqs packetId index) ∧
      tables.baseSeq ≤ (tables.initSeqs packetId index).baseSeq ∧
      tables.maxSeq ≤ (tables.initSeqs packetId index).maxSeq := by
  rw [SeqTables.initSeqs]
  split_ifs with first
  · obtain ⟨noneYet, later⟩ := first
    have base_le := consistent.base_le_max
    have noneReceived : ∀ key, key ∉ tables.recvTable := by
      intro key member
      have upper := consistent.recv_le_max key member
      have lower := consistent.recv_above key member
      have := consistent.base_lt
      grind
    have noneMissing : ∀ i, i ∉ tables.loss := by
      intro i member
      have := (consistent.mem_loss i).mp member
      grind
    refine ⟨⟨⟨le_refl _, by grind, ?_, ?_⟩, ?_⟩, by grind, by grind⟩
    · exact fun key member => absurd member (noneReceived key)
    · intro i
      refine ⟨fun member => absurd member (noneMissing i), ?_⟩
      rintro ⟨low, high, -⟩
      exact absurd (lt_of_lt_of_le low high) (lt_irrefl _)
    · exact fun key member => absurd member (noneReceived key)
  · exact ⟨consistent, le_refl _, le_refl _⟩

/-- After `UpdataLoss` the arrived number is neither missing nor received. -/
theorem Consistent.mem_updataLoss {tables : SeqTables} (consistent : Consistent tables)
    {seq i : UInt32} :
    i ∈ (tables.updataLoss seq).loss ↔
      i ≠ seq ∧ tables.baseSeq < i ∧ i ≤ max tables.maxSeq seq ∧ i ∉ tables.recvTable := by
  rw [SeqTables.mem_updataLoss consistent.max_lt, consistent.mem_loss, le_max_iff]
  have base_le := consistent.base_le_max
  constructor
  · rintro (⟨differ, low, high, notReceived⟩ | ⟨low, high⟩)
    · exact ⟨differ, low, .inl high, notReceived⟩
    · refine ⟨by grind, lt_of_le_of_lt base_le low, .inr (le_of_lt high), ?_⟩
      intro received
      have := consistent.recv_le_max i received
      grind
  · rintro ⟨differ, low, high, notReceived⟩
    by_cases upper : i ≤ tables.maxSeq
    · exact .inl ⟨differ, low, upper, notReceived⟩
    · exact .inr ⟨lt_of_not_ge upper, by grind⟩

theorem updataRecvTable_maxSeq (seq : UInt32) (tables : SeqTables) :
    (tables.updataRecvTable seq).maxSeq = tables.maxSeq := by
  simp only [updataRecvTable, absorbTable]
  split_ifs <;> rfl

/-- `UpdataRecvTable` restores the relation that `UpdataLoss` left open at the
arrived number. -/
theorem updataRecvTable_consistent (tables : SeqTables) (seq : UInt32)
    (base_le_max : tables.baseSeq ≤ tables.maxSeq) (max_lt : tables.maxSeq < 0xffffffff)
    (seq_le : seq ≤ tables.maxSeq) (recv_le_max : ∀ key ∈ tables.recvTable, key ≤ tables.maxSeq)
    (mem_loss : ∀ i, i ∈ tables.loss ↔
      i ≠ seq ∧ tables.baseSeq < i ∧ i ≤ tables.maxSeq ∧ i ∉ tables.recvTable) :
    Consistent (tables.updataRecvTable seq) ∧
      tables.baseSeq ≤ (tables.updataRecvTable seq).baseSeq := by
  rw [updataRecvTable]
  split_ifs with continues
  · have step : tables.baseSeq ≤ seq := by grind
    have gaps : GapSet { tables with
        baseSeq := seq, recvTable := tables.recvTable.popWhile (· ≤ seq) } := by
      refine ⟨seq_le, max_lt, ?_, ?_⟩
      · intro key member
        exact recv_le_max key (SortedSet.mem_popWhile_le.mp member).1
      · intro i
        rw [mem_loss, SortedSet.mem_popWhile_le]
        grind
    have settled := gaps.absorbTable fun key member => (SortedSet.mem_popWhile_le.mp member).2
    exact ⟨settled.1, le_trans step settled.2⟩
  · have gaps : GapSet { tables with
        recvTable := (tables.recvTable.insert seq).popWhile (· ≤ tables.baseSeq) } := by
      refine ⟨base_le_max, max_lt, ?_, ?_⟩
      · intro key member
        rcases SortedSet.mem_insert.mp (SortedSet.mem_popWhile_le.mp member).1 with rfl | old
        · exact seq_le
        · exact recv_le_max key old
      · intro i
        rw [mem_loss, SortedSet.mem_popWhile_le, SortedSet.mem_insert]
        grind
    exact gaps.absorbTable fun key member => (SortedSet.mem_popWhile_le.mp member).2

/-- **An arrival keeps the tables consistent and never moves a counter back.** -/
theorem Consistent.arrive {tables : SeqTables} (consistent : Consistent tables)
    {packetId : UInt32} (small : packetId < 0xffffffff) (index : UInt16) :
    Consistent (tables.arrive packetId index) ∧
      tables.baseSeq ≤ (tables.arrive packetId index).baseSeq ∧
      tables.maxSeq ≤ (tables.arrive packetId index).maxSeq ∧
      packetId ≤ (tables.arrive packetId index).maxSeq := by
  rw [SeqTables.arrive]
  split_ifs with drop
  · refine ⟨consistent, le_refl _, le_refl _, ?_⟩
    simp only [dropped, checkRecvTableExist, Bool.or_eq_true, decide_eq_true_eq] at drop
    cases drop with
    | inl received => exact consistent.recv_le_max packetId received
    | inr below => exact le_trans (le_of_lt below) consistent.base_le_max
  · simp only [dropped, checkRecvTableExist, Bool.or_eq_true, decide_eq_true_eq, not_or] at drop
    obtain ⟨started, base_grows, max_grows⟩ := consistent.initSeqs small index
    have max_lt : max (tables.initSeqs packetId index).maxSeq packetId < 0xffffffff :=
      max_lt started.max_lt small
    have settled := updataRecvTable_consistent
      { (tables.initSeqs packetId index).updataLoss packetId with
        maxSeq := max (tables.initSeqs packetId index).maxSeq packetId } packetId
      (le_trans started.base_le_max (le_max_left _ _)) max_lt (le_max_right _ _)
      (fun key member => le_trans (started.recv_le_max key member) (le_max_left _ _))
      (fun i => started.mem_updataLoss)
    have same : (tables.record packetId index).maxSeq =
        max (tables.initSeqs packetId index).maxSeq packetId := updataRecvTable_maxSeq _ _
    refine ⟨settled.1, le_trans base_grows settled.2, ?_, ?_⟩
    · exact same ▸ le_trans max_grows (le_max_left _ _)
    · exact same ▸ le_max_right _ _

/-- **Consuming a number that is not beyond the greatest one keeps the tables
consistent.** -/
theorem Consistent.consume {tables : SeqTables} (consistent : Consistent tables)
    {packetId : UInt32} (known : packetId ≤ tables.maxSeq) :
    Consistent (tables.consume packetId) ∧
      tables.baseSeq ≤ (tables.consume packetId).baseSeq ∧
      tables.maxSeq ≤ (tables.consume packetId).maxSeq := by
  rw [SeqTables.consume, recvTableRemoveUntil]
  have base_lt := consistent.base_lt
  split_ifs with moves
  · have gaps : GapSet { tables with
        baseSeq := packetId
        loss := tables.loss.popWhile (· ≤ packetId)
        recvTable := tables.recvTable.popWhile (· ≤ packetId) } := by
      refine ⟨known, consistent.max_lt, ?_, ?_⟩
      · intro key member
        exact consistent.recv_le_max key (SortedSet.mem_popWhile_le.mp member).1
      · intro i
        rw [SortedSet.mem_popWhile_le, consistent.mem_loss, SortedSet.mem_popWhile_le]
        change tables.baseSeq ≤ packetId at moves
        grind
    have settled := gaps.absorbTable fun key member => (SortedSet.mem_popWhile_le.mp member).2
    exact ⟨settled.1, le_trans moves settled.2, le_refl _⟩
  · have gaps : GapSet { tables with
        loss := tables.loss.popWhile (· ≤ packetId)
        recvTable := tables.recvTable.popWhile (· ≤ packetId) } := by
      refine ⟨consistent.base_le_max, consistent.max_lt, ?_, ?_⟩
      · intro key member
        exact consistent.recv_le_max key (SortedSet.mem_popWhile_le.mp member).1
      · intro i
        rw [SortedSet.mem_popWhile_le, consistent.mem_loss, SortedSet.mem_popWhile_le]
        change ¬ tables.baseSeq ≤ packetId at moves
        grind
    have settled := gaps.absorbTable fun key member =>
      lt_trans base_lt (consistent.recv_above key (SortedSet.mem_popWhile_le.mp member).1)
    exact ⟨settled.1, settled.2, le_refl _⟩

end SeqTables

end MpVideo.Receiver
