import MpVideo.V1.PathSender

/-!
# Loss detection

Every acknowledgement beyond `recv_seq_` resolves the numbers up to its own, in order:
those in between are declared lost, and the last one becomes `recv_seq_`. So the numbers
resolved in a run are one, two and so on up to `recv_seq_`, and both tables keep exactly
the numbers behind it (`Numbers`).

From this each number is acknowledged or lost, and not both, and a loss is reported once
(`losses_once`). Two things are as the code has them: the packet id zero counts as no
packet id, also for a packet that carries it, and the numbers must not wrap around.
-/

set_option autoImplicit false

namespace MpVideo.V1

open PathSenderV1

/-! ## Statement -/

/-- The numbers that were declared lost. -/
def lostSeqs (log : List Resolution) : List UInt64 :=
  log.filterMap fun
    | .advanced _ => none
    | .lost seq _ _ => some seq

/-- The numbers to which `recv_seq_` advanced. -/
def advancedSeqs (log : List Resolution) : List UInt64 :=
  log.filterMap fun
    | .advanced seq => some seq
    | .lost .. => none

/-- The report of a loss to the multipath sender, given the packet id. -/
def PathSenderV1.callFor (path : PathSenderV1) (packetId : Option UInt32) :
    Option (UInt8 × UInt32) :=
  if path.mpsender then packetId.map (path.pid, ·) else none

/-- Every number up to `recv_seq_` is resolved exactly once, no other is lost, and the
tables hold the numbers behind. `reported` tells which packet ids are reported. -/
structure LossesOnce (reported : Option UInt32 → Option UInt32) (numbered : NumberedPath)
    (log : List Resolution) : Prop where
  exactlyOne : ∀ seq, 0 < seq → seq ≤ numbered.path.recvSeq →
    (seq ∈ advancedSeqs log ∧ seq ∉ lostSeqs log) ∨
      (seq ∉ advancedSeqs log ∧ (lostSeqs log).count seq = 1)
  called : ∀ seq trace call, .lost seq trace call ∈ log → ∃ packetId,
    (∀ other, (seq, other) ∈ numbered.sent ↔ other = packetId) ∧
      call = numbered.path.callFor (reported packetId)
  noneBehind : ∀ seq ∈ lostSeqs log, seq ≤ numbered.path.recvSeq
  idKeys : ∀ seq, (numbered.path.seqIdMap.find? seq).isSome ↔
    numbered.path.recvSeq < seq ∧ seq < numbered.path.seq
  delayKeys : ∀ seq, (numbered.path.seqDelayMap.find? seq).isSome ↔
    numbered.path.recvSeq < seq ∧ seq < numbered.path.seq

/-- A packet id as `DetectLoss` sees it: zero stands for none. -/
def effective (packetId : Option UInt32) : Option UInt32 := packetId.filter (· ≠ 0)

/-! ## What acknowledgements leave alone -/

/-- Two paths agree on everything that loss detection reads. -/
structure SameNumbers (path next : PathSenderV1) : Prop where
  pid : next.pid = path.pid
  mpsender : next.mpsender = path.mpsender
  seq : next.seq = path.seq
  recvSeq : next.recvSeq = path.recvSeq
  seqIdMap : next.seqIdMap = path.seqIdMap
  seqDelayMap : next.seqDelayMap = path.seqDelayMap

variable {path next last : PathSenderV1}

theorem SameNumbers.refl (path : PathSenderV1) : SameNumbers path path :=
  ⟨rfl, rfl, rfl, rfl, rfl, rfl⟩

theorem SameNumbers.trans (one : SameNumbers path next) (two : SameNumbers next last) :
    SameNumbers path last where
  pid := two.pid.trans one.pid
  mpsender := two.mpsender.trans one.mpsender
  seq := two.seq.trans one.seq
  recvSeq := two.recvSeq.trans one.recvSeq
  seqIdMap := two.seqIdMap.trans one.seqIdMap
  seqDelayMap := two.seqDelayMap.trans one.seqDelayMap

theorem sameNumbers_onVideoPacket (now packetId : UInt32) (packet : VideoPacketWrapper)
    (isRetrans : Bool) (path : PathSenderV1) :
    SameNumbers path (path.onVideoPacket now packetId packet isRetrans) :=
  ⟨rfl, rfl, rfl, rfl, rfl, rfl⟩

/-- Packets that are queued again while a loss is reported do not disturb the loop. -/
theorem sameNumbers_requeue (now : UInt32) (retrans : Retrans) (path : PathSenderV1) :
    SameNumbers path (path.requeue now retrans) := by
  induction retrans generalizing path with
  | nil => exact .refl path
  | cons one rest ih => exact (sameNumbers_onVideoPacket now one.1 one.2 true path).trans (ih _)

theorem sameNumbers_updateIdDelay (now : UInt32) (seq : UInt64) (path : PathSenderV1) :
    SameNumbers path (path.updateIdDelay now seq) := by
  rw [updateIdDelay]
  cases path.seqIdMap.find? seq with
  | none => exact .refl path
  | some packetId =>
      cases found : path.idDelayMap.find? packetId with
      | none =>
          simp only [found]
          exact .refl path
      | some since =>
          simp only [found]
          exact ⟨rfl, rfl, rfl, rfl, rfl, rfl⟩

theorem sameNumbers_declareLost (now rtt : UInt32) (retrans : Retrans) (i : UInt64)
    (path : PathSenderV1) : SameNumbers path (path.declareLost now rtt retrans i).1 := by
  have either : ∀ reported : Bool,
      SameNumbers path (if reported then path.requeue now retrans else path) := by
    intro reported
    cases reported with
    | true => exact sameNumbers_requeue now retrans path
    | false => exact .refl path
  exact either _

/-- The report that the loop makes for a number. -/
def PathSenderV1.callOf (path : PathSenderV1) (seq : UInt64) : Option (UInt8 × UInt32) :=
  path.callFor (path.packetIdOf seq)

theorem SameNumbers.callOf (same : SameNumbers path next) (seq : UInt64) :
    next.callOf seq = path.callOf seq := by
  rw [PathSenderV1.callOf, PathSenderV1.callOf, callFor, callFor, packetIdOf, packetIdOf,
    same.mpsender, same.pid, same.seqIdMap]

/-- **The loop declares its numbers lost in order**, each with the report for it. -/
theorem lossLoop_spec (now rtt : UInt32) (retrans : UInt64 → Retrans) (n : Nat) (i : UInt64)
    (path : PathSenderV1) :
    let result := path.lossLoop now rtt retrans n i
    SameNumbers path result.1 ∧
      result.2.map Resolution.seq = (List.range n).map (fun k => i + UInt64.ofNat k) ∧
      ∀ entry ∈ result.2, ∃ seq trace, entry = .lost seq trace (path.callOf seq) := by
  induction n generalizing i path with
  | zero => exact ⟨.refl path, rfl, fun entry member => by cases member⟩
  | succ n ih =>
      have one := sameNumbers_declareLost now rtt (retrans i) i path
      obtain ⟨same, seqs, calls⟩ := ih (i + 1) (path.declareLost now rtt (retrans i) i).1
      refine ⟨one.trans same, ?_, ?_⟩
      · rw [List.range_succ_eq_map, List.map_cons, List.map_map]
        have start : i + UInt64.ofNat 0 = i := UInt64.add_zero i
        rw [start]
        refine congrArg (i :: ·) (seqs.trans (List.map_congr_left fun k _ => ?_))
        rw [Function.comp_apply, Nat.succ_eq_one_add, UInt64.ofNat_add, ← UInt64.add_assoc]
        rfl
      · intro entry member
        rcases List.mem_cons.mp member with rfl | member
        · exact ⟨i, _, rfl⟩
        · obtain ⟨seq, trace, rfl⟩ := calls entry member
          exact ⟨seq, trace, by rw [one.callOf]⟩

/-! ## The numbers of a run -/

/-- The first numbers. -/
def firstSeqs (n : Nat) : List UInt64 := (List.range n).map fun k => 1 + UInt64.ofNat k

/-- What is true of a path as long as the numbers do not wrap around. -/
structure Numbers (numbered : NumberedPath) (log : List Resolution) : Prop where
  next : numbered.path.seq.toNat = numbered.sent.length + 1
  sent_iff : ∀ seq, seq ∈ numbered.sent.map Prod.fst ↔ 0 < seq ∧ seq < numbered.path.seq
  distinct : (numbered.sent.map Prod.fst).Nodup
  behind : numbered.path.recvSeq < numbered.path.seq
  ids : ∀ seq value, numbered.path.seqIdMap.find? seq = some value ↔
    numbered.path.recvSeq < seq ∧ ∃ packetId, (seq, packetId) ∈ numbered.sent ∧
      packetId.getD 0 = value
  delays : ∀ seq, (numbered.path.seqDelayMap.find? seq).isSome ↔
    numbered.path.recvSeq < seq ∧ seq < numbered.path.seq
  calls : ∀ seq trace call, .lost seq trace call ∈ log → ∃ packetId,
    (seq, packetId) ∈ numbered.sent ∧ call = numbered.path.callFor (effective packetId)
  resolved : log.map Resolution.seq = firstSeqs numbered.path.recvSeq.toNat

theorem mem_firstSeqs {n : Nat} (small : n < 2 ^ 64) {seq : UInt64} :
    seq ∈ firstSeqs n ↔ 0 < seq ∧ seq.toNat ≤ n := by
  rw [firstSeqs, List.mem_map]
  constructor
  · rintro ⟨k, member, rfl⟩
    have less := List.mem_range.mp member
    have value : (1 + UInt64.ofNat k).toNat = 1 + k := by
      rw [UInt64.toNat_add, UInt64.toNat_ofNat']
      change (1 + k % 2 ^ 64) % 2 ^ 64 = 1 + k
      omega
    rw [UInt64.lt_iff_toNat_lt, value]
    exact ⟨Nat.lt_add_right k Nat.zero_lt_one, by omega⟩
  · rintro ⟨positive, most⟩
    rw [UInt64.lt_iff_toNat_lt] at positive
    change 0 < seq.toNat at positive
    refine ⟨seq.toNat - 1, List.mem_range.mpr (by omega), ?_⟩
    apply UInt64.toNat_inj.mp
    rw [UInt64.toNat_add, UInt64.toNat_ofNat']
    change (1 + (seq.toNat - 1) % 2 ^ 64) % 2 ^ 64 = seq.toNat
    omega

theorem nodup_firstSeqs {n : Nat} (small : n < 2 ^ 64) : (firstSeqs n).Nodup := by
  refine List.Nodup.map_on ?_ List.nodup_range
  intro first inFirst second inSecond same
  have less := List.mem_range.mp inFirst
  have more := List.mem_range.mp inSecond
  have equal := congrArg UInt64.toNat ((UInt64.add_right_inj 1).mp same)
  rw [UInt64.toNat_ofNat', UInt64.toNat_ofNat'] at equal
  omega

/-- Going on from `recv_seq_ + 1` extends the first numbers. -/
theorem firstSeqs_append (from' : UInt64) (n : Nat) :
    firstSeqs from'.toNat ++ (List.range n).map (fun k => from' + 1 + UInt64.ofNat k) =
      firstSeqs (from'.toNat + n) := by
  rw [firstSeqs, firstSeqs, List.range_add, List.map_append, List.map_map]
  congr 1
  refine List.map_congr_left fun k _ => ?_
  rw [Function.comp_apply, UInt64.ofNat_add, UInt64.ofNat_toNat, UInt64.add_comm from' 1,
    UInt64.add_assoc]

variable {numbered : NumberedPath} {log : List Resolution}

/-- A number carries one packet id. -/
theorem Numbers.unique (numbers : Numbers numbered log) {seq : UInt64}
    {first second : Option UInt32} (one : (seq, first) ∈ numbered.sent)
    (two : (seq, second) ∈ numbered.sent) : first = second :=
  congrArg Prod.snd (List.inj_on_of_nodup_map numbers.distinct one two rfl)

/-- A packet id as the table keeps it. -/
theorem filter_getD_zero (packetId : Option UInt32) :
    (some (packetId.getD 0)).filter (· ≠ 0) = effective packetId := by
  cases packetId with
  | none => rfl
  | some value => rfl

/-- The loop reports the packet id that a number carries. -/
theorem Numbers.callOf (numbers : Numbers numbered log) {seq : UInt64}
    (behind : numbered.path.recvSeq < seq) {packetId : Option UInt32}
    (sent : (seq, packetId) ∈ numbered.sent) :
    numbered.path.callOf seq = numbered.path.callFor (effective packetId) := by
  have found := (numbers.ids seq _).mpr ⟨behind, packetId, sent, rfl⟩
  rw [PathSenderV1.callOf, packetIdOf, found, filter_getD_zero]

theorem numbers_start (pid : UInt8) (mpsender traceLossCb : Bool) :
    Numbers { path := { pid, mpsender, traceLossCb } } [] where
  next := rfl
  sent_iff seq := by
    refine iff_of_false List.not_mem_nil ?_
    rintro ⟨positive, less⟩
    rw [UInt64.lt_iff_toNat_lt] at positive less
    exact absurd (Nat.lt_of_lt_of_le positive (Nat.le_of_lt_succ less)) (Nat.lt_irrefl _)
  distinct := List.nodup_nil
  behind := (by decide : (0 : UInt64) < 1)
  ids seq value := by
    refine iff_of_false (by simp) ?_
    rintro ⟨-, packetId, member, -⟩
    cases member
  delays seq := by
    refine iff_of_false (by simp) ?_
    rintro ⟨positive, less⟩
    rw [UInt64.lt_iff_toNat_lt] at positive less
    exact absurd (Nat.lt_of_lt_of_le positive (Nat.le_of_lt_succ less)) (Nat.lt_irrefl _)
  calls seq trace call member := by cases member
  resolved := rfl

/-- One number more is below the next one. -/
theorem lt_succ_iff {next seq : UInt64} (room : next.toNat + 1 < 2 ^ 64) :
    seq < next + 1 ↔ seq = next ∨ seq < next := by
  have advance : (next + 1).toNat = next.toNat + 1 := by
    rw [UInt64.toNat_add]
    exact Nat.mod_eq_of_lt room
  rw [UInt64.lt_iff_toNat_lt, UInt64.lt_iff_toNat_lt, ← UInt64.toNat_inj, advance]
  omega

/-- The next number has not been sent. -/
theorem Numbers.next_unsent (numbers : Numbers numbered log) (packetId : Option UInt32) :
    (numbered.path.seq, packetId) ∉ numbered.sent := fun member =>
  lt_irrefl _ ((numbers.sent_iff _).mp (List.mem_map_of_mem member)).2

/-- No packet id is kept for the next number. -/
theorem Numbers.find?_next (numbers : Numbers numbered log) :
    numbered.path.seqIdMap.find? numbered.path.seq = none := by
  rw [Option.eq_none_iff_forall_ne_some]
  intro value found
  obtain ⟨-, packetId, member, -⟩ := (numbers.ids _ value).mp found
  exact numbers.next_unsent packetId member

theorem Numbers.next_pos (numbers : Numbers numbered log) : 0 < numbered.path.seq := by
  rw [UInt64.lt_iff_toNat_lt, numbers.next]
  exact Nat.succ_pos _

/-- Sending takes the next number. -/
theorem Numbers.number (numbers : Numbers numbered log)
    (few : numbered.sent.length + 1 < 2 ^ 64 - 1) (now : UInt32) (packetId : Option UInt32)
    {path : PathSenderV1} (same : SameNumbers numbered.path path) :
    Numbers ⟨path.number now (packetId.getD 0), (numbered.path.seq, packetId) :: numbered.sent⟩
      log := by
  have room : numbered.path.seq.toNat + 1 < 2 ^ 64 := by
    rw [numbers.next]
    omega
  refine ⟨?_, ?_, ?_, ?_, ?_, ?_, ?_, ?_⟩
  · change (path.seq + 1).toNat = numbered.sent.length + 1 + 1
    rw [same.seq, UInt64.toNat_add, numbers.next]
    exact Nat.mod_eq_of_lt (by rw [numbers.next] at room; exact room)
  · intro seq
    change seq ∈ numbered.path.seq :: numbered.sent.map Prod.fst ↔ 0 < seq ∧ seq < path.seq + 1
    rw [same.seq, List.mem_cons, numbers.sent_iff, lt_succ_iff room]
    constructor
    · rintro (rfl | ⟨above, less⟩)
      · exact ⟨numbers.next_pos, .inl rfl⟩
      · exact ⟨above, .inr less⟩
    · rintro ⟨above, rfl | less⟩
      · exact .inl rfl
      · exact .inr ⟨above, less⟩
  · refine List.nodup_cons.mpr ⟨fun member => ?_, numbers.distinct⟩
    obtain ⟨⟨_, other⟩, carried, rfl⟩ := List.mem_map.mp member
    exact numbers.next_unsent other carried
  · change path.recvSeq < path.seq + 1
    rw [same.recvSeq, same.seq, lt_succ_iff room]
    exact .inr numbers.behind
  · intro seq value
    change (path.seqIdMap.insert path.seq (packetId.getD 0)).find? seq = some value ↔
      path.recvSeq < seq ∧ _
    rw [same.seqIdMap, same.seq, same.recvSeq, SortedMap.find?_insert,
      numbers.find?_next, Option.getD_none]
    split_ifs with own
    · subst own
      constructor
      · rintro equal
        exact ⟨numbers.behind, packetId, List.mem_cons_self, Option.some.inj equal⟩
      · rintro ⟨-, other, member, rfl⟩
        rcases List.mem_cons.mp member with equal | member
        · rw [(Prod.mk.inj equal).2]
        · exact absurd member (numbers.next_unsent other)
    · rw [numbers.ids]
      refine and_congr_right fun _ => exists_congr fun other => and_congr_left fun _ => ?_
      rw [List.mem_cons, or_iff_right fun equal => own (Prod.mk.inj equal).1]
  · intro seq
    change ((path.seqDelayMap.insert path.seq now.toInt32).find? seq).isSome ↔
      path.recvSeq < seq ∧ seq < path.seq + 1
    rw [same.seqDelayMap, same.seq, same.recvSeq, SortedMap.find?_insert, lt_succ_iff room]
    split_ifs with own
    · subst own
      exact iff_of_true rfl ⟨numbers.behind, .inl rfl⟩
    · rw [numbers.delays, or_iff_right own]
  · intro seq trace call member
    obtain ⟨carried, sent, equal⟩ := numbers.calls seq trace call member
    refine ⟨carried, List.mem_cons_of_mem _ sent, equal.trans ?_⟩
    change numbered.path.callFor _ = path.callFor _
    rw [callFor, callFor, same.mpsender, same.pid]
  · change log.map Resolution.seq = firstSeqs path.recvSeq.toNat
    rw [same.recvSeq, numbers.resolved]

/-- What an acknowledgement of a number does; `delays` is the table of times after it. -/
structure Acked (path : PathSenderV1) (acked : UInt64) (delays : SortedMap UInt64 Int32)
    (next : PathSenderV1) (resolved : List Resolution) : Prop where
  pid : next.pid = path.pid
  mpsender : next.mpsender = path.mpsender
  seq : next.seq = path.seq
  seqIdMap : next.seqIdMap = path.seqIdMap.popLe acked
  seqDelayMap : next.seqDelayMap = delays
  stale : ¬ path.recvSeq + 1 ≤ acked → next.recvSeq = path.recvSeq ∧ resolved = []
  advanced : path.recvSeq + 1 ≤ acked → next.recvSeq = acked ∧
    resolved.map Resolution.seq = (List.range (acked - (path.recvSeq + 1)).toNat).map
      (fun k => path.recvSeq + 1 + UInt64.ofNat k) ++ [acked]
  calls : ∀ seq trace call, .lost seq trace call ∈ resolved →
    (∃ k < (acked - (path.recvSeq + 1)).toNat, path.recvSeq + 1 + UInt64.ofNat k = seq) ∧
      call = path.callOf seq

theorem acked_detectLoss (now : UInt32) (retrans : UInt64 → Retrans) (acked : UInt64)
    (path : PathSenderV1) :
    Acked path acked path.seqDelayMap (path.detectLoss now retrans acked).1
      (path.detectLoss now retrans acked).2 := by
  obtain ⟨same, seqs, calls⟩ := lossLoop_spec now path.curRtt retrans
    (acked - (path.recvSeq + 1)).toNat (path.recvSeq + 1) path
  by_cases ahead : path.recvSeq + 1 ≤ acked
  · simp only [detectLoss, if_pos ahead]
    refine ⟨same.pid, same.mpsender, same.seq, congrArg (SortedMap.popLe acked) same.seqIdMap,
      same.seqDelayMap, fun behind => absurd ahead behind, fun _ => ⟨rfl, ?_⟩, ?_⟩
    · rw [List.map_append, seqs]
      rfl
    · intro seq trace call member
      rcases List.mem_append.mp member with inLoop | last
      · have among : seq ∈ List.map Resolution.seq _ := List.mem_map_of_mem inLoop
        rw [seqs] at among
        obtain ⟨k, inRange, value⟩ := List.mem_map.mp among
        obtain ⟨other, trace', equal⟩ := calls _ inLoop
        cases equal
        exact ⟨⟨k, List.mem_range.mp inRange, value⟩, rfl⟩
      · cases List.mem_singleton.mp last
  · simp only [detectLoss, if_neg ahead]
    refine ⟨rfl, rfl, rfl, rfl, rfl, fun _ => ⟨rfl, rfl⟩, fun now => absurd now ahead, ?_⟩
    intro seq trace call member
    cases member

/-- **What an acknowledgement does.** -/
theorem acked_onAck (now : UInt32) (retrans : UInt64 → Retrans) (acked : UInt64)
    (path : PathSenderV1) :
    Acked path acked (path.seqDelayMap.popLe acked) (path.onAck now retrans acked).1
      (path.onAck now retrans acked).2 := by
  have lost := acked_detectLoss now retrans acked (path.updateRtt now acked)
  have timed : SameNumbers path { path with
      curRtt := ((path.seqDelayMap.find? acked).map fun (ms : Int32) =>
        now - ms.toUInt32).getD path.curRtt } := ⟨rfl, rfl, rfl, rfl, rfl, rfl⟩
  have same := timed.trans (sameNumbers_updateIdDelay now acked _)
  have recvSeq : (path.updateRtt now acked).recvSeq = path.recvSeq := same.recvSeq
  have calls : ∀ seq, (path.updateRtt now acked).callOf seq = path.callOf seq := same.callOf
  refine ⟨lost.pid.trans same.pid, lost.mpsender.trans same.mpsender, lost.seq.trans same.seq,
    lost.seqIdMap.trans (congrArg (SortedMap.popLe acked) same.seqIdMap),
    lost.seqDelayMap.trans (congrArg (SortedMap.popLe acked) same.seqDelayMap), ?_, ?_, ?_⟩
  · have stale := lost.stale
    rwa [recvSeq] at stale
  · have advanced := lost.advanced
    rwa [recvSeq] at advanced
  · have reports := lost.calls
    simp only [recvSeq, calls] at reports
    exact reports

/-- The numbers between `recv_seq_` and an acknowledgement, and how many they are. -/
theorem between {recvSeq acked : UInt64} (ahead : recvSeq < acked) :
    (acked - (recvSeq + 1)).toNat = acked.toNat - (recvSeq.toNat + 1) ∧
      ∀ k < (acked - (recvSeq + 1)).toNat,
        recvSeq < recvSeq + 1 + UInt64.ofNat k ∧ recvSeq + 1 + UInt64.ofNat k < acked := by
  have less := UInt64.lt_iff_toNat_lt.mp ahead
  have bound := UInt64.toNat_lt acked
  have next : (recvSeq + 1).toNat = recvSeq.toNat + 1 := by
    rw [UInt64.toNat_add]
    exact Nat.mod_eq_of_lt (by change recvSeq.toNat + 1 < 2 ^ 64; omega)
  have count : (acked - (recvSeq + 1)).toNat = acked.toNat - (recvSeq.toNat + 1) := by
    rw [UInt64.toNat_sub_of_le _ _ (UInt64.le_iff_toNat_le.mpr (by omega)), next]
  refine ⟨count, fun k inside => ?_⟩
  have value : (recvSeq + 1 + UInt64.ofNat k).toNat = recvSeq.toNat + 1 + k := by
    rw [UInt64.toNat_add, next, UInt64.toNat_ofNat']
    omega
  rw [UInt64.lt_iff_toNat_lt, UInt64.lt_iff_toNat_lt, value]
  omega

/-- Resolving up to an acknowledgement extends the first numbers. -/
theorem firstSeqs_acked {recvSeq acked : UInt64} (ahead : recvSeq < acked) :
    firstSeqs recvSeq.toNat ++ ((List.range (acked - (recvSeq + 1)).toNat).map
      (fun k => recvSeq + 1 + UInt64.ofNat k) ++ [acked]) = firstSeqs acked.toNat := by
  have less := UInt64.lt_iff_toNat_lt.mp ahead
  have bound := UInt64.toNat_lt acked
  have count : recvSeq.toNat + (acked - (recvSeq + 1)).toNat + 1 = acked.toNat := by
    rw [(between ahead).1]
    omega
  have last : 1 + UInt64.ofNat (recvSeq.toNat + (acked - (recvSeq + 1)).toNat) = acked := by
    apply UInt64.toNat_inj.mp
    rw [UInt64.toNat_add, UInt64.toNat_ofNat']
    change (1 + _ % 2 ^ 64) % 2 ^ 64 = _
    omega
  rw [← List.append_assoc, firstSeqs_append, ← count, firstSeqs, firstSeqs, List.range_succ,
    List.map_append, List.map_singleton, last]

/-- The test of `DetectLoss` does not wrap: `recv_seq_` is behind a number. -/
theorem Numbers.ahead_iff (numbers : Numbers numbered log) {acked : UInt64} :
    numbered.path.recvSeq + 1 ≤ acked ↔ numbered.path.recvSeq < acked := by
  have behind := UInt64.lt_iff_toNat_lt.mp numbers.behind
  have bound := UInt64.toNat_lt numbered.path.seq
  have next : (numbered.path.recvSeq + 1).toNat = numbered.path.recvSeq.toNat + 1 := by
    rw [UInt64.toNat_add]
    exact Nat.mod_eq_of_lt (by change numbered.path.recvSeq.toNat + 1 < 2 ^ 64; omega)
  rw [UInt64.le_iff_toNat_le, UInt64.lt_iff_toNat_lt, next]
  rfl

variable {acked : UInt64} {delays : SortedMap UInt64 Int32} {next : PathSenderV1}
  {resolved : List Resolution}

/-- Both tables keep what lies behind the number and behind the old `recv_seq_`. -/
theorem Numbers.latest (numbers : Numbers numbered log)
    (done : Acked numbered.path acked delays next resolved) (seq : UInt64) :
    next.recvSeq < seq ↔ numbered.path.recvSeq < seq ∧ acked < seq := by
  by_cases ahead : numbered.path.recvSeq < acked
  · rw [(done.advanced (numbers.ahead_iff.mpr ahead)).1]
    exact ⟨fun less => ⟨lt_trans ahead less, less⟩, And.right⟩
  · rw [(done.stale (mt numbers.ahead_iff.mp ahead)).1]
    exact ⟨fun less => ⟨less, lt_of_le_of_lt (not_lt.mp ahead) less⟩, And.left⟩

theorem Acked.callFor_eq {path : PathSenderV1} (done : Acked path acked delays next resolved)
    (packetId : Option UInt32) : next.callFor packetId = path.callFor packetId := by
  rw [callFor, callFor, done.mpsender, done.pid]

/-- A number reported now was sent, and its own packet id is reported. -/
theorem Numbers.calls_acked (numbers : Numbers numbered log)
    (done : Acked numbered.path acked delays next resolved) (below : acked < numbered.path.seq)
    {seq : UInt64} {trace : Option (UInt32 × UInt32)} {call : Option (UInt8 × UInt32)}
    (lost : .lost seq trace call ∈ resolved) :
    ∃ packetId, (seq, packetId) ∈ numbered.sent ∧
      call = numbered.path.callFor (effective packetId) := by
  by_cases ahead : numbered.path.recvSeq < acked
  · obtain ⟨⟨k, inside, rfl⟩, equal⟩ := done.calls seq trace call lost
    obtain ⟨above, before⟩ := (between ahead).2 k inside
    have known := (numbers.sent_iff _).mpr
      ⟨lt_of_le_of_lt UInt64.zero_le above, lt_trans before below⟩
    obtain ⟨⟨_, packetId⟩, carried, rfl⟩ := List.mem_map.mp known
    exact ⟨packetId, carried, equal.trans (numbers.callOf above carried)⟩
  · rw [(done.stale (mt numbers.ahead_iff.mp ahead)).2] at lost
    cases lost

/-- The numbers resolved so far, with those of an acknowledgement. -/
theorem Numbers.resolved_acked (numbers : Numbers numbered log)
    (done : Acked numbered.path acked delays next resolved) :
    (log ++ resolved).map Resolution.seq = firstSeqs next.recvSeq.toNat := by
  rw [List.map_append, numbers.resolved]
  by_cases ahead : numbered.path.recvSeq < acked
  · obtain ⟨moved, seqs⟩ := done.advanced (numbers.ahead_iff.mpr ahead)
    rw [moved, seqs, firstSeqs_acked ahead]
  · obtain ⟨stays, none⟩ := done.stale (mt numbers.ahead_iff.mp ahead)
    have empty : resolved = [] := none
    rw [stays, empty]
    exact List.append_nil _

/-- **An acknowledgement resolves the numbers up to its own.** -/
theorem Numbers.onAck (numbers : Numbers numbered log) (now : UInt32)
    (retrans : UInt64 → Retrans) {acked : UInt64} (sent : acked ∈ numbered.sent.map Prod.fst) :
    let result := numbered.path.onAck now retrans acked
    Numbers { numbered with path := result.1 } (log ++ result.2) := by
  have done := acked_onAck now retrans acked numbered.path
  obtain ⟨-, below⟩ := (numbers.sent_iff acked).mp sent
  generalize numbered.path.onAck now retrans acked = result at done ⊢
  obtain ⟨next, resolved⟩ := result
  refine ⟨?_, ?_, numbers.distinct, ?_, ?_, ?_, ?_, numbers.resolved_acked done⟩
  · exact (congrArg UInt64.toNat done.seq).trans numbers.next
  · intro seq
    rw [numbers.sent_iff]
    change _ ↔ 0 < seq ∧ seq < next.seq
    rw [done.seq]
  · change next.recvSeq < next.seq
    rw [done.seq, numbers.latest done]
    exact ⟨numbers.behind, below⟩
  · intro seq value
    change next.seqIdMap.find? seq = some value ↔ next.recvSeq < seq ∧ _
    rw [done.seqIdMap, SortedMap.find?_popLe, numbers.latest done]
    split_ifs with above
    · rw [numbers.ids, and_iff_left above]
    · exact iff_of_false (by simp) fun holds => above holds.1.2
  · intro seq
    change (next.seqDelayMap.find? seq).isSome ↔ next.recvSeq < seq ∧ seq < next.seq
    rw [done.seqDelayMap, SortedMap.find?_popLe, numbers.latest done, done.seq]
    split_ifs with above
    · rw [numbers.delays, and_iff_left above]
    · exact iff_of_false (by simp) fun holds => above holds.1.2
  · intro seq trace call member
    change ∃ packetId, (seq, packetId) ∈ numbered.sent ∧ call = next.callFor (effective packetId)
    simp only [done.callFor_eq]
    rcases List.mem_append.mp member with old | new
    · exact numbers.calls seq trace call old
    · exact numbers.calls_acked done below new

/-! ## Every run -/

variable {quic : QuicData} {next : NumberedPath} {event : PathEventV1} {out : List Resolution}

/-- Nothing that was sent is forgotten. -/
theorem sent_suffix (stepped : numbered.handle quic event = some (next, out)) :
    numbered.sent <:+ next.sent := by
  cases event with
  | onVideoPacket now packetId packet isRetrans =>
      cases stepped
      exact List.suffix_rfl
  | sendPaddingPacket now =>
      cases stepped
      exact List.suffix_cons _ _
  | sendStreamPacket now isRetrans =>
      obtain ⟨result, -, same⟩ := Option.map_eq_some_iff.mp stepped
      cases same
      exact List.suffix_cons _ _
  | onAck now acked retrans =>
      simp only [NumberedPath.handle] at stepped
      split_ifs at stepped
      cases stepped
      exact List.suffix_rfl

/-- What is sent is numbered, and agrees with the path before otherwise. -/
theorem sendStreamPacket_spec {now : UInt32} {isRetrans : Bool} {path sent : PathSenderV1}
    {packetId : UInt32} (ran : path.sendStreamPacket quic now isRetrans = some (sent, packetId)) :
    ∃ before, SameNumbers path before ∧ sent = before.number now packetId := by
  rw [sendStreamPacket] at ran
  split at ran
  · cases ran
  · split at ran
    · cases ran
    · cases ran
      refine ⟨_, ?_, rfl⟩
      exact ⟨rfl, rfl, rfl, rfl, rfl, rfl⟩

/-- **Every event keeps the numbers**, unless they wrap around. -/
theorem Numbers.handle (numbers : Numbers numbered log)
    (stepped : numbered.handle quic event = some (next, out))
    (few : next.sent.length < 2 ^ 64 - 1) : Numbers next (log ++ out) := by
  have same : log ++ [] = log := List.append_nil log
  cases event with
  | onVideoPacket now packetId packet isRetrans =>
      cases stepped
      rw [same]
      exact ⟨numbers.next, numbers.sent_iff, numbers.distinct, numbers.behind, numbers.ids,
        numbers.delays, numbers.calls, numbers.resolved⟩
  | sendPaddingPacket now =>
      cases stepped
      rw [same]
      exact numbers.number few now none (.refl _)
  | sendStreamPacket now isRetrans =>
      obtain ⟨⟨path, packetId⟩, ran, equal⟩ := Option.map_eq_some_iff.mp stepped
      cases equal
      obtain ⟨before, kept, rfl⟩ := sendStreamPacket_spec ran
      rw [same]
      exact numbers.number few now (some packetId) kept
  | onAck now acked retrans =>
      simp only [NumberedPath.handle] at stepped
      split_ifs at stepped with sent
      cases stepped
      exact numbers.onAck now retrans sent

/-- A resolved number was acknowledged or lost. -/
theorem count_resolved (log : List Resolution) (seq : UInt64) :
    (log.map Resolution.seq).count seq =
      (advancedSeqs log).count seq + (lostSeqs log).count seq := by
  induction log with
  | nil => rfl
  | cons entry rest ih =>
      cases entry with
      | advanced acked =>
          change (acked :: rest.map Resolution.seq).count seq =
            (acked :: advancedSeqs rest).count seq + (lostSeqs rest).count seq
          rw [List.count_cons, List.count_cons, ih]
          omega
      | lost lost trace call =>
          change (lost :: rest.map Resolution.seq).count seq =
            (advancedSeqs rest).count seq + (lost :: lostSeqs rest).count seq
          rw [List.count_cons, List.count_cons, ih]
          omega

/-- The numbers of a run say what is to be shown. -/
theorem Numbers.lossesOnce (numbers : Numbers numbered log) :
    LossesOnce effective numbered log := by
  have small := UInt64.toNat_lt numbered.path.recvSeq
  have known : ∀ seq, seq ∈ log.map Resolution.seq ↔ 0 < seq ∧ seq ≤ numbered.path.recvSeq := by
    intro seq
    rw [numbers.resolved, mem_firstSeqs small, UInt64.le_iff_toNat_le]
  have distinct : (log.map Resolution.seq).Nodup := by
    rw [numbers.resolved]
    exact nodup_firstSeqs small
  refine ⟨?_, ?_, ?_, ?_, numbers.delays⟩
  · intro seq positive most
    have one := List.count_eq_one_of_mem distinct ((known seq).mpr ⟨positive, most⟩)
    rw [count_resolved] at one
    by_cases acked : seq ∈ advancedSeqs log
    · refine .inl ⟨acked, fun lost => ?_⟩
      have first := List.count_pos_iff.mpr acked
      have second := List.count_pos_iff.mpr lost
      omega
    · rw [List.count_eq_zero.mpr acked, Nat.zero_add] at one
      exact .inr ⟨acked, one⟩
  · intro seq trace call member
    obtain ⟨packetId, sent, equal⟩ := numbers.calls seq trace call member
    refine ⟨packetId, fun other => ?_, equal⟩
    exact ⟨fun also => numbers.unique also sent, fun same => same ▸ sent⟩
  · intro seq member
    obtain ⟨entry, inLog, found⟩ := List.mem_filterMap.mp member
    cases entry with
    | advanced acked => cases found
    | lost lost trace call =>
        obtain rfl := Option.some.inj found
        exact ((known lost).mp (List.mem_map_of_mem inLog)).2
  · intro seq
    rw [Option.isSome_iff_exists]
    constructor
    · rintro ⟨value, found⟩
      obtain ⟨behind, packetId, sent, -⟩ := (numbers.ids seq value).mp found
      exact ⟨behind, ((numbers.sent_iff seq).mp (List.mem_map_of_mem sent)).2⟩
    · rintro ⟨behind, below⟩
      have positive := lt_of_le_of_lt UInt64.zero_le behind
      obtain ⟨⟨_, packetId⟩, sent, rfl⟩ :=
        List.mem_map.mp ((numbers.sent_iff seq).mpr ⟨positive, below⟩)
      exact ⟨_, (numbers.ids _ _).mpr ⟨behind, packetId, sent, rfl⟩⟩

theorem numbers_run {pid : UInt8} {mpsender traceLossCb : Bool} {events : List PathEventV1}
    {last : NumberedPath}
    (ran : (NumberedPath.machine quic).run { path := { pid, mpsender, traceLossCb } } events =
      some (last, log)) (few : last.sent.length < 2 ^ 64 - 1) : Numbers last log := by
  refine Machine.run_log_invariant
    (fun (numbered : NumberedPath) log => numbered.sent.length < 2 ^ 64 - 1 → Numbers numbered log)
    ?_ [] (fun _ => numbers_start pid mpsender traceLossCb) ran few
  intro numbered past event next out holds stepped few
  have less := (sent_suffix stepped).length_le
  exact (holds (Nat.lt_of_le_of_lt less few)).handle stepped few

/-- **Every number up to `recv_seq_` is acknowledged or lost, and each loss is reported
once**, with the packet id that the number carries. -/
theorem losses_once {quic : QuicData} {pid : UInt8} {mpsender traceLossCb : Bool}
    {events : List PathEventV1} {last : NumberedPath} {log : List Resolution}
    (ran : (NumberedPath.machine quic).run { path := { pid, mpsender, traceLossCb } } events =
      some (last, log)) (few : last.sent.length < 2 ^ 64 - 1) : LossesOnce effective last log :=
  (numbers_run ran few).lossesOnce

/-- A packet with an empty segment. -/
def emptyPacket (packetId : UInt32) : VideoPacketWrapper :=
  VideoPacketWrapper.onNewSegment ⟨1, 0, 0, 1, 0, 0, .clip videoPacketSize []⟩ 0
    { packetId, refTime := 0 }

/-- A packet is sent, then padding, and the padding is acknowledged. -/
def paddingAcked (packetId : UInt32) : List PathEventV1 :=
  [.onVideoPacket 0 packetId (emptyPacket packetId) false, .sendStreamPacket 0 false,
    .sendPaddingPacket 1, .onAck 9 2 fun _ => []]

/-- The packet is lost, and its loss is reported. -/
theorem losses_once_paddingAcked : ∃ last,
    (NumberedPath.machine networkOrder).run { path := { pid := 3, mpsender := true } }
      (paddingAcked 7) = some (last, [.lost 1 none (some (3, 7)), .advanced 2]) ∧
    LossesOnce effective last [.lost 1 none (some (3, 7)), .advanced 2] := by
  obtain ⟨last, ran, sent⟩ : ∃ last, (NumberedPath.machine networkOrder).run
      { path := { pid := 3, mpsender := true } } (paddingAcked 7) =
        some (last, [.lost 1 none (some (3, 7)), .advanced 2]) ∧
      last.sent = [(2, none), (1, some 7)] := ⟨_, rfl, rfl⟩
  have few : last.sent.length < 2 ^ 64 - 1 := by
    rw [sent]
    decide
  exact ⟨last, ran, losses_once ran few⟩

/-- Padding can be sent any number of times. -/
theorem run_padding (quic : QuicData) (n : Nat) (numbered : NumberedPath) : ∃ last,
    (NumberedPath.machine quic).run numbered (List.replicate n (.sendPaddingPacket 0)) =
      some (last, []) ∧
    last.sent.length = numbered.sent.length + n ∧
    last.path.recvSeq = numbered.path.recvSeq := by
  induction n generalizing numbered with
  | zero => exact ⟨numbered, rfl, rfl, rfl⟩
  | succ n ih =>
      obtain ⟨last, ran, length, recvSeq⟩ := ih
        ⟨numbered.path.sendPaddingPacket 0, (numbered.path.seq, none) :: numbered.sent⟩
      refine ⟨last, ?_, ?_, recvSeq⟩
      · rw [List.replicate_succ, Machine.run_cons]
        exact ⟨_, [], [], rfl, ran, rfl⟩
      · rw [length, List.length_cons]
        omega

/-- After as many packets as there are numbers the next number is zero. -/
theorem wrapped_fails (quic : QuicData) {n : Nat} (all : n = 2 ^ 64 - 2) : ∃ last,
    (NumberedPath.machine quic).run {}
      (List.replicate n (.sendPaddingPacket 0) ++ [.sendPaddingPacket 0]) = some (last, []) ∧
    ∀ reported, ¬ LossesOnce reported last [] := by
  obtain ⟨last, ran, length, recvSeq⟩ := run_padding quic n {}
  have sent : last.sent.length = n := length.trans (Nat.zero_add n)
  have few : last.sent.length < 2 ^ 64 - 1 := by
    rw [sent, all]
    decide
  have numbers : Numbers last [] := numbers_run ran few
  have largest : last.path.seq.toNat = 2 ^ 64 - 1 := by
    rw [numbers.next, sent]
    omega
  have zero : last.path.seq + 1 = 0 := by
    apply UInt64.toNat_inj.mp
    rw [UInt64.toNat_add, largest]
    rfl
  refine ⟨_, Machine.run_trans ran rfl, fun reported losses => ?_⟩
  have kept : (last.path.seqIdMap.find? 1).isSome := by
    refine (numbers.lossesOnce.idKeys 1).mpr ⟨?_, ?_⟩
    · rw [recvSeq]
      decide
    · rw [UInt64.lt_iff_toNat_lt, largest]
      decide
  have still : ((last.path.seqIdMap.insert last.path.seq 0).find? 1).isSome := by
    rw [SortedMap.find?_insert]
    split_ifs
    · rfl
    · exact kept
  have below := ((losses.idKeys 1).mp still).2
  change 1 < last.path.seq + 1 at below
  rw [zero] at below
  exact absurd below (by decide)

/-- Packet id zero is not reported, and the tables are wrong once the numbers wrap. -/
theorem losses_fail :
    (∃ last, (NumberedPath.machine networkOrder).run { path := { pid := 3, mpsender := true } }
        (paddingAcked 0) = some (last, [.lost 1 none none, .advanced 2]) ∧
      ¬ LossesOnce id last [.lost 1 none none, .advanced 2]) ∧
    ∃ last, (NumberedPath.machine networkOrder).run {}
        (List.replicate (2 ^ 64 - 2) (.sendPaddingPacket 0) ++ [.sendPaddingPacket 0]) =
          some (last, []) ∧
      ¬ LossesOnce id last [] := by
  constructor
  · obtain ⟨last, ran, sent, mpsender⟩ : ∃ last, (NumberedPath.machine networkOrder).run
        { path := { pid := 3, mpsender := true } } (paddingAcked 0) =
          some (last, [.lost 1 none none, .advanced 2]) ∧
        last.sent = [(2, none), (1, some 0)] ∧ last.path.mpsender = true := ⟨_, rfl, rfl, rfl⟩
    refine ⟨last, ran, fun losses => ?_⟩
    obtain ⟨packetId, carried, call⟩ := losses.called 1 none none List.mem_cons_self
    rw [sent] at carried
    obtain rfl := (carried (some 0)).mp (List.mem_cons_of_mem _ List.mem_cons_self)
    rw [callFor, if_pos mpsender] at call
    cases call
  · obtain ⟨last, ran, fails⟩ := wrapped_fails networkOrder rfl
    exact ⟨last, ran, fails id⟩

end MpVideo.V1
