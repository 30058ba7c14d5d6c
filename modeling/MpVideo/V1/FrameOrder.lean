import MpVideo.V1.MpReceiver

/-!
# The order of the reports

What is promised about a report compares it with the arrivals in front of it in the log
(`Justified`). As long as the receiver runs, every buffer describes the arrivals of its
frame (`Collects`), and a frame without a buffer has no arrivals unless it lies behind
`delivered_fid_` (`Tracks`).

So frames are reported in increasing order, each at most once, with the number of
different packets that arrived, and incomplete only when the wait is over and no earlier
frame waits (`reports_inOrder`).
-/

set_option autoImplicit false

namespace MpVideo.V1

variable {total : UInt32 → UInt8}

/-! ## What a log says -/

namespace LogEntry

/-- The index of a packet of the frame that arrives. -/
def index? (fid : UInt32) : LogEntry total → Option UInt8
  | .arrived _ packet => if packet.segment.fid = fid then some packet.segment.index else none
  | .reported .. => none

/-- The number of the frame that is reported. -/
def fid? : LogEntry total → Option UInt32
  | .arrived .. => none
  | .reported _ _ report => some report.fid

end LogEntry

/-- The indices of a frame that arrived, in this order, with repetitions. -/
def indices (fid : UInt32) (log : List (LogEntry total)) : List UInt8 :=
  log.filterMap (LogEntry.index? fid)

/-- The frames that were reported, in this order. -/
def reportedFids (log : List (LogEntry total)) : List UInt32 := log.filterMap LogEntry.fid?

/-- At this time an index of the frame arrived for the first time. -/
def NewIndexAt (fid : UInt32) (log : List (LogEntry total)) (time : Nat) : Prop :=
  ∃ past packet rest, log = past ++ .arrived time packet :: rest ∧ packet.segment.fid = fid ∧
    packet.segment.index ∉ indices fid past

/-- What the entries in front of a report have to say about it. -/
structure Justified (past : List (LogEntry total)) (now : Nat) (keys : List UInt32)
    (report : FrameReport) : Prop where
  total_eq : report.total = total report.fid
  received_eq : report.received.toNat = (indices report.fid past).toFinset.card
  full_iff : report.received = report.total ↔
    ∀ index < total report.fid, index ∈ indices report.fid past
  waited : report.received < report.total →
    ∀ time, NewIndexAt report.fid past time → maxFrameWait.toNat < now - time
  first : report.received < report.total → ∀ fid ∈ keys, report.fid ≤ fid

/-- The reports of a log are in order, and each one is justified. -/
structure InOrder (log : List (LogEntry total)) : Prop where
  increasing : (reportedFids log).Pairwise (· < ·)
  justified : ∀ past now keys report rest, log = past ++ .reported now keys report :: rest →
    Justified past now keys report

/-! ## Longer logs -/

variable {log past : List (LogEntry total)} {entry : LogEntry total} {fid : UInt32}

theorem indices_concat : indices fid (log ++ [entry]) =
    indices fid log ++ (entry.index? fid).toList :=
  Machine.filterMap_concat _ log entry

theorem reportedFids_concat : reportedFids (log ++ [entry]) =
    reportedFids log ++ entry.fid?.toList :=
  Machine.filterMap_concat _ log entry

/-- A report brings no index. -/
theorem indices_reported (now : Nat) (keys : List UInt32) (report : FrameReport) :
    indices fid (log ++ [.reported now keys report]) = indices fid log := by
  rw [indices_concat]
  exact List.append_nil _

theorem newIndexAt_reported {now time : Nat} {keys : List UInt32} {report : FrameReport} :
    NewIndexAt fid (log ++ [.reported now keys report]) time ↔ NewIndexAt fid log time := by
  constructor
  · rintro ⟨past, packet, rest, split, same, fresh⟩
    rcases Machine.concat_eq_split.mp split with ⟨-, equal, -⟩ | ⟨front, -, split⟩
    · cases equal
    · exact ⟨past, packet, front, split, same, fresh⟩
  · rintro ⟨past, packet, rest, split, same, fresh⟩
    exact ⟨past, packet, rest ++ [_],
      Machine.concat_eq_split.mpr (.inr ⟨rest, rfl, split⟩), same, fresh⟩

/-- A packet brings a new index only to its own frame, when it is new there. -/
theorem newIndexAt_arrived {now time : Nat} {packet : FramePacket total} :
    NewIndexAt fid (log ++ [.arrived now packet]) time ↔ NewIndexAt fid log time ∨
      (time = now ∧ packet.segment.fid = fid ∧ packet.segment.index ∉ indices fid log) := by
  constructor
  · rintro ⟨past, other, rest, split, same, fresh⟩
    rcases Machine.concat_eq_split.mp split with ⟨rfl, equal, -⟩ | ⟨front, -, split⟩
    · cases equal
      exact .inr ⟨rfl, same, fresh⟩
    · exact .inl ⟨past, other, front, split, same, fresh⟩
  · rintro (⟨past, other, rest, split, same, fresh⟩ | ⟨rfl, same, fresh⟩)
    · exact ⟨past, other, rest ++ [_],
        Machine.concat_eq_split.mpr (.inr ⟨rest, rfl, split⟩), same, fresh⟩
    · exact ⟨log, packet, [], rfl, same, fresh⟩

/-- All indices are below the number of packets. -/
theorem below_of_mem_indices {index : UInt8} (member : index ∈ indices fid log) :
    index < total fid := by
  obtain ⟨entry, -, found⟩ := List.mem_filterMap.mp member
  cases entry with
  | arrived now packet =>
      simp only [LogEntry.index?] at found
      split_ifs at found with same
      obtain rfl := Option.some.inj found
      exact same ▸ packet.inside
  | reported now keys report => cases found

/-! ## Buffers describe arrivals -/

/-- The key of a packet tells its index. -/
theorem toInt16_injective {first second : UInt8}
    (same : first.toUInt16.toInt16 = second.toUInt16.toInt16) : first = second := by
  have equal := congrArg (fun key : Int16 => key.toUInt16.toUInt8) same
  simpa using equal

theorem toFinset_concat (list : List UInt8) (last : UInt8) :
    (list ++ [last]).toFinset = insert last list.toFinset := by
  ext word
  simp

/-- No index is the number that stands for none. -/
theorem toInt16_ne_neg_one (index : UInt8) : index.toUInt16.toInt16 ≠ -1 := by
  intro negative
  have same := congrArg (fun key : Int16 => key.toUInt16.toNat) negative
  have largest : (-1 : Int16).toUInt16.toNat = 2 ^ 16 - 1 := by decide
  have small := UInt8.toNat_lt index
  rw [largest, UInt16.toUInt16_toInt16, UInt8.toNat_toUInt16] at same
  omega

/-- A buffer describes the arrivals of a frame, up to a time. -/
structure Collects (fid : UInt32) (clock : Nat) (log : List (LogEntry total))
    (frame : VideoFrameBuffer) : Prop where
  total_eq : frame.total = total fid
  present : ∀ index : UInt8, (frame.packets.find? index.toUInt16.toInt16).isSome ↔
    index ∈ indices fid log
  received_eq : frame.received.toNat = (indices fid log).toFinset.card
  completed_iff : frame.isCompleted = true ↔ frame.received = frame.total
  latest : ∃ time ≤ clock, frame.maxRecvTs = UInt32.ofNat time ∧
    ∀ earlier, NewIndexAt fid log earlier → earlier ≤ time

namespace Collects

variable {clock now : Nat} {frame : VideoFrameBuffer}

/-- The count is the total exactly when every index is there. -/
theorem full_iff (collects : Collects fid clock log frame) :
    frame.received = frame.total ↔ ∀ index < total fid, index ∈ indices fid log := by
  rw [← UInt8.card_eq_iff fun _ => below_of_mem_indices, ← collects.received_eq,
    collects.total_eq, UInt8.toNat_inj]

theorem later (collects : Collects fid clock log frame) (less : clock ≤ now) :
    Collects fid now log frame := by
  obtain ⟨time, bounded, latest⟩ := collects.latest
  exact { collects with latest := ⟨time, Nat.le_trans bounded less, latest⟩ }

/-- A report changes nothing about the arrivals. -/
theorem reported (collects : Collects fid clock log frame) (keys : List UInt32)
    (report : FrameReport) : Collects fid clock (log ++ [.reported now keys report]) frame where
  total_eq := collects.total_eq
  present index := by rw [indices_reported, collects.present]
  received_eq := by rw [indices_reported, collects.received_eq]
  completed_iff := collects.completed_iff
  latest := by
    obtain ⟨time, bounded, same, latest⟩ := collects.latest
    exact ⟨time, bounded, same, fun earlier new => latest earlier (newIndexAt_reported.mp new)⟩

/-- Neither does a packet of another frame. -/
theorem other (collects : Collects fid clock log frame) {packet : FramePacket total}
    (differs : packet.segment.fid ≠ fid) :
    Collects fid clock (log ++ [.arrived now packet]) frame := by
  have same : indices fid (log ++ [.arrived now packet]) = indices fid log := by
    rw [indices_concat, LogEntry.index?, if_neg differs]
    exact List.append_nil _
  refine ⟨collects.total_eq, ?_, ?_, collects.completed_iff, ?_⟩
  · intro index
    rw [same, collects.present]
  · rw [same, collects.received_eq]
  · obtain ⟨time, bounded, equal, latest⟩ := collects.latest
    refine ⟨time, bounded, equal, fun earlier new => ?_⟩
    rcases newIndexAt_arrived.mp new with old | ⟨-, own, -⟩
    · exact latest earlier old
    · exact absurd own differs

/-- A new buffer describes a frame of which nothing arrived. -/
theorem new {packet : FramePacket total} (none : indices packet.segment.fid log = []) :
    Collects packet.segment.fid clock log {
      ftype := packet.segment.ftype
      fid := packet.segment.fid
      total := packet.segment.total } where
  total_eq := packet.total_eq
  present index := by
    rw [none]
    exact iff_of_false Bool.false_ne_true List.not_mem_nil
  received_eq := by rw [none]; rfl
  completed_iff := by
    refine iff_of_false Bool.false_ne_true fun empty => ?_
    have inside := packet.inside
    have none : packet.segment.total = 0 := empty.symm
    rw [← packet.total_eq, none] at inside
    exact UInt8.not_lt_zero inside
  latest := by
    refine ⟨0, Nat.zero_le clock, rfl, ?_⟩
    rintro earlier ⟨past, other, rest, rfl, own, -⟩
    have member : other.segment.index ∈
        indices packet.segment.fid (past ++ .arrived earlier other :: rest) :=
      List.mem_filterMap.mpr ⟨_, List.mem_append_right past List.mem_cons_self, if_pos own⟩
    rw [none] at member
    cases member

/-- A packet of the frame brings its index. -/
theorem indices_own {packet : FramePacket total} (own : packet.segment.fid = fid) :
    indices fid (log ++ [.arrived now packet]) = indices fid log ++ [packet.segment.index] := by
  rw [indices_concat, LogEntry.index?, if_pos own]
  rfl

/-- An index that arrived before changes neither the buffer nor the set of indices. -/
theorem repeated (collects : Collects fid clock log frame) {packet : FramePacket total}
    (own : packet.segment.fid = fid) (less : clock ≤ now)
    (known : packet.segment.index ∈ indices fid log) :
    Collects fid now (log ++ [.arrived now packet]) frame := by
  refine ⟨collects.total_eq, ?_, ?_, collects.completed_iff, ?_⟩
  · intro index
    rw [collects.present, indices_own own, List.mem_append, List.mem_singleton]
    exact ⟨.inl, fun member => member.elim id (· ▸ known)⟩
  · rw [collects.received_eq, indices_own own, toFinset_concat,
      Finset.insert_eq_of_mem (List.mem_toFinset.mpr known)]
  · obtain ⟨time, bounded, same, latest⟩ := collects.latest
    refine ⟨time, Nat.le_trans bounded less, same, fun earlier new => ?_⟩
    rcases newIndexAt_arrived.mp new with before | ⟨-, -, fresh⟩
    · exact latest earlier before
    · exact absurd known fresh

/-- A buffer that misses an index is not complete. -/
theorem incomplete (collects : Collects fid clock log frame) {packet : FramePacket total}
    (own : packet.segment.fid = fid) (fresh : packet.segment.index ∉ indices fid log) :
    frame.isCompleted = false := by
  cases completed : frame.isCompleted with
  | false => rfl
  | true =>
      refine absurd (collects.full_iff.mp (collects.completed_iff.mp completed) _ ?_) fresh
      exact own ▸ packet.inside

/-- The count does not wrap: all the indices are below the number of packets. -/
theorem received_succ (collects : Collects fid clock log frame) {packet : FramePacket total}
    (own : packet.segment.fid = fid) (fresh : packet.segment.index ∉ indices fid log) :
    (frame.received + 1).toNat =
      (indices fid (log ++ [.arrived now packet])).toFinset.card := by
  have card : (indices fid (log ++ [.arrived now packet])).toFinset.card =
      frame.received.toNat + 1 := by
    rw [collects.received_eq, indices_own own, toFinset_concat,
      Finset.card_insert_of_notMem (mt List.mem_toFinset.mp fresh)]
  have bounded := UInt8.card_le fun word (member : word ∈ indices fid
    (log ++ [.arrived now packet])) => below_of_mem_indices member
  have small := UInt8.toNat_lt (total fid)
  rw [card, UInt8.toNat_add]
  exact Nat.mod_eq_of_lt (by change frame.received.toNat + 1 < 2 ^ 8; omega)

/-- **A buffer that gets a packet of its frame describes the longer log.** -/
theorem onNewPacket (collects : Collects fid clock log frame) {packet : FramePacket total}
    (own : packet.segment.fid = fid) (less : clock ≤ now) :
    Collects fid now (log ++ [.arrived now packet])
      (frame.onNewPacket packet.toVideoPacketReceiveWrapper (UInt32.ofNat now)) := by
  have valid : packet.getIndex ≠ -1 := toInt16_ne_neg_one _
  have known_iff : (frame.packets.find? packet.getIndex).isSome ↔
      packet.segment.index ∈ indices fid log := collects.present packet.segment.index
  rw [VideoFrameBuffer.onNewPacket]
  simp only [if_neg valid]
  cases found : frame.packets.find? packet.getIndex with
  | some old => exact collects.repeated own less (known_iff.mp (by rw [found]; rfl))
  | none =>
      have fresh : packet.segment.index ∉ indices fid log := fun known => by
        have present := known_iff.mpr known
        rw [found] at present
        cases present
      refine ⟨collects.total_eq, ?_, collects.received_succ own fresh, ?_, now,
        Nat.le_refl now, rfl, ?_⟩
      · intro index
        change ((frame.packets.insert packet.getIndex _).find? _).isSome ↔ _
        rw [SortedMap.find?_insert, indices_own own, List.mem_append, List.mem_singleton,
          ← collects.present index]
        by_cases same : index = packet.segment.index
        · have key : index.toUInt16.toInt16 = packet.getIndex := by
            rw [same]
            rfl
          rw [if_pos key]
          exact iff_of_true rfl (.inr same)
        · have differs : index.toUInt16.toInt16 ≠ packet.getIndex := fun equal =>
            same (toInt16_injective equal)
          rw [if_neg differs, or_iff_left same]
      · simp only [collects.incomplete own fresh, Bool.false_or, decide_eq_true_eq]
      · intro earlier new
        rcases newIndexAt_arrived.mp new with before | ⟨equal, -⟩
        · obtain ⟨time, bounded, -, latest⟩ := collects.latest
          exact Nat.le_trans (latest earlier before) (Nat.le_trans bounded less)
        · exact Nat.le_of_eq equal

end Collects

/-- A buffer that leaves `frames_` is reported as its arrivals are. -/
theorem Collects.justified {now : Nat} {frame : VideoFrameBuffer}
    (collects : Collects fid now log frame)
    (ready : (frame.isCompleted || frame.isExpired (UInt32.ofNat now) maxFrameWait) = true)
    {keys : List UInt32} (first : ∀ other ∈ keys, fid ≤ other) :
    Justified log now keys (MpReceiverV1.deliverFrame fid frame) where
  total_eq := collects.total_eq
  received_eq := collects.received_eq
  full_iff := collects.full_iff
  waited missing earlier new := by
    have incomplete : ¬ frame.isCompleted = true := fun completed =>
      ne_of_lt missing (collects.completed_iff.mp completed)
    have expired := (Bool.or_eq_true_iff.mp ready).resolve_left incomplete
    obtain ⟨time, bounded, same, latest⟩ := collects.latest
    have less := latest earlier new
    have age : maxFrameWait < UInt32.ofNat now - UInt32.ofNat time := by
      rw [← same]
      exact of_decide_eq_true expired
    rw [← UInt32.ofNat_sub bounded, UInt32.lt_iff_toNat_lt, UInt32.toNat_ofNat'] at age
    have small := Nat.mod_le (now - time) (2 ^ 32)
    omega
  first _ := first

/-! ## The receiver follows its arrivals -/

/-- The entries of `frames_` describe what arrived behind `delivered_fid_`. -/
structure Tracks (clock : Nat) (entries : List (UInt32 × VideoFrameBuffer))
    (deliveredFid : UInt32) (log : List (LogEntry total)) : Prop where
  sorted : entries.Pairwise fun first second => first.1 < second.1
  buffers : ∀ entry ∈ entries, deliveredFid < entry.1 ∧ Collects entry.1 clock log entry.2
  absent : ∀ fid, deliveredFid < fid → (∀ frame, (fid, frame) ∉ entries) → indices fid log = []

/-- The reports so far are in order, and `delivered_fid_` is not behind them. -/
structure Reported (deliveredFid : UInt32) (log : List (LogEntry total)) : Prop where
  inOrder : InOrder log
  bounded : ∀ fid ∈ reportedFids log, fid ≤ deliveredFid

variable {deliveredFid : UInt32} {now clock : Nat} {entries : List (UInt32 × VideoFrameBuffer)}

theorem Tracks.later (tracks : Tracks clock entries deliveredFid log) (less : clock ≤ now) :
    Tracks now entries deliveredFid log where
  sorted := tracks.sorted
  buffers entry member :=
    ⟨(tracks.buffers entry member).1, (tracks.buffers entry member).2.later less⟩
  absent := tracks.absent

/-- An arrival keeps what was reported. -/
theorem Reported.arrived (reported : Reported deliveredFid log) (packet : FramePacket total) :
    Reported deliveredFid (log ++ [.arrived now packet]) := by
  have same : reportedFids (log ++ [.arrived now packet]) = reportedFids log := by
    rw [reportedFids_concat]
    exact List.append_nil _
  refine ⟨⟨same ▸ reported.inOrder.increasing, ?_⟩, same ▸ reported.bounded⟩
  intro past time keys report rest split
  rcases Machine.concat_eq_split.mp split with ⟨-, equal, -⟩ | ⟨front, -, split⟩
  · cases equal
  · exact reported.inOrder.justified past time keys report front split

/-- A justified report of a later frame keeps the order. -/
theorem Reported.report (reported : Reported deliveredFid log) {keys : List UInt32}
    {report : FrameReport} (justified : Justified log now keys report)
    (later : deliveredFid < report.fid) :
    Reported report.fid (log ++ [.reported now keys report]) := by
  have grown : reportedFids (log ++ [.reported now keys report]) =
      reportedFids log ++ [report.fid] := reportedFids_concat
  refine ⟨⟨?_, ?_⟩, ?_⟩
  · rw [grown, List.pairwise_append]
    refine ⟨reported.inOrder.increasing, List.pairwise_singleton _ _, ?_⟩
    intro fid member last final
    rw [List.mem_singleton.mp final]
    exact lt_of_le_of_lt (reported.bounded fid member) later
  · intro past time keys report rest split
    rcases Machine.concat_eq_split.mp split with ⟨rfl, equal, -⟩ | ⟨front, -, split⟩
    · cases equal
      exact justified
    · exact reported.inOrder.justified past time keys report front split
  · intro fid member
    rw [grown, List.mem_append, List.mem_singleton] at member
    rcases member with old | rfl
    · exact le_trans (reported.bounded fid old) (le_of_lt later)
    · exact le_refl _

/-- **The loop reports in order**, and the entries left describe what arrived behind the
last report. -/
theorem Tracks.checkLoop (tracks : Tracks now entries deliveredFid log)
    (reported : Reported deliveredFid log) :
    let result := MpReceiverV1.checkLoop (UInt32.ofNat now) entries deliveredFid
    let longer := log ++ result.2.2.map fun (keys, report) => .reported now keys report
    Tracks now result.1 result.2.1 longer ∧ Reported result.2.1 longer := by
  induction entries generalizing deliveredFid log with
  | nil => simpa [MpReceiverV1.checkLoop] using And.intro tracks reported
  | cons entry rest ih =>
      rw [MpReceiverV1.checkLoop]
      split_ifs with ready
      · obtain ⟨later, collects⟩ := tracks.buffers entry List.mem_cons_self
        obtain ⟨behind, sorted⟩ := List.pairwise_cons.mp tracks.sorted
        have first : ∀ other ∈ (entry :: rest).map Prod.fst, entry.1 ≤ other := by
          intro other member
          obtain ⟨found, among, rfl⟩ := List.mem_map.mp member
          rcases List.mem_cons.mp among with rfl | among
          · exact le_refl _
          · exact le_of_lt (behind found among)
        have justified := collects.justified ready first
        have onwards := reported.report justified later
        have left : Tracks now rest entry.1 (log ++ [.reported now ((entry :: rest).map Prod.fst)
            (MpReceiverV1.deliverFrame entry.1 entry.2)]) := by
          refine ⟨sorted, ?_, ?_⟩
          · intro other member
            refine ⟨behind other member, ?_⟩
            exact (tracks.buffers other (List.mem_cons_of_mem entry member)).2.reported _ _
          · intro fid less missing
            rw [indices_reported]
            refine tracks.absent fid (lt_trans later less) ?_
            intro frame member
            rcases List.mem_cons.mp member with rfl | member
            · exact lt_irrefl _ less
            · exact missing frame member
        have final := ih left onwards
        simpa only [List.map_cons, List.append_assoc, List.singleton_append] using final
      · simpa using And.intro tracks reported

/-- A packet of a frame that was passed is ignored. -/
theorem Tracks.ignored (tracks : Tracks clock entries deliveredFid log)
    {packet : FramePacket total} (late : packet.segment.fid ≤ deliveredFid) (less : clock ≤ now) :
    Tracks now entries deliveredFid (log ++ [.arrived now packet]) := by
  refine ⟨tracks.sorted, ?_, ?_⟩
  · intro entry member
    obtain ⟨behind, collects⟩ := tracks.buffers entry member
    exact ⟨behind, (collects.later less).other (ne_of_lt (lt_of_le_of_lt late behind))⟩
  · intro fid behind missing
    rw [indices_concat, LogEntry.index?, if_neg (ne_of_lt (lt_of_le_of_lt late behind))]
    exact (List.append_nil _).trans (tracks.absent fid behind missing)

/-- A packet that is not ignored enters the buffer of its frame. -/
theorem Tracks.onVideoPacket {frames : SortedMap UInt32 VideoFrameBuffer}
    (tracks : Tracks clock frames.entries deliveredFid log) {packet : FramePacket total}
    (later : deliveredFid < packet.segment.fid) (less : clock ≤ now) :
    Tracks now (frames.set packet.segment.fid
      (((frames.find? packet.segment.fid).getD {
        ftype := packet.segment.ftype
        fid := packet.segment.fid
        total := packet.segment.total }).onNewPacket
          packet.toVideoPacketReceiveWrapper (UInt32.ofNat now))).entries
      deliveredFid (log ++ [.arrived now packet]) := by
  have collects : Collects packet.segment.fid clock log ((frames.find? packet.segment.fid).getD {
      ftype := packet.segment.ftype
      fid := packet.segment.fid
      total := packet.segment.total }) := by
    cases found : frames.find? packet.segment.fid with
    | some frame => exact (tracks.buffers _ (SortedMap.mem_of_find? found)).2
    | none => exact .new (tracks.absent _ later (SortedMap.find?_eq_none_iff.mp found))
  refine ⟨SortedMap.sorted _, ?_, ?_⟩
  · intro entry member
    have looked := SortedMap.find?_eq_some_iff.mpr member
    rw [SortedMap.find?_set] at looked
    split_ifs at looked with own
    · rw [own, ← Option.some.inj looked]
      exact ⟨later, collects.onNewPacket rfl less⟩
    · have old := tracks.buffers entry (SortedMap.mem_of_find? looked)
      exact ⟨old.1, (old.2.later less).other (Ne.symm own)⟩
  · intro fid behind missing
    have unset := SortedMap.find?_eq_none_iff.mpr missing
    rw [SortedMap.find?_set] at unset
    split_ifs at unset with own
    rw [indices_concat, LogEntry.index?, if_neg (Ne.symm own)]
    refine (List.append_nil _).trans (tracks.absent fid behind ?_)
    exact SortedMap.find?_eq_none_iff.mp unset

/-! ## Every run -/

/-- The reports so far are in order; a receiver that runs tracks its arrivals. -/
structure Follows (timed : TimedReceiver) (log : List (LogEntry total)) : Prop where
  reported : Reported timed.receiver.deliveredFid log
  tracks : timed.receiver.runing = true →
    Tracks timed.clock timed.receiver.frames.entries timed.receiver.deliveredFid log

theorem follows_start : Follows {} ([] : List (LogEntry total)) where
  reported := by
    refine ⟨⟨List.Pairwise.nil, ?_⟩, ?_⟩
    · intro past now keys report rest split
      simp at split
    · intro fid member
      cases member
  tracks _ := by
    refine ⟨List.Pairwise.nil, ?_, fun _ _ _ => rfl⟩
    intro entry member
    cases member

variable {timed : TimedReceiver}

/-- A check keeps the order. -/
theorem Follows.checkDeliverable (follows : Follows timed log) (less : timed.clock ≤ now) :
    let result := TimedReceiver.report now
      (timed.receiver.checkDeliverable (UInt32.ofNat now))
    Follows result.1 (log ++ result.2) := by
  rw [MpReceiverV1.checkDeliverable]
  split_ifs with runs
  · have loop := ((follows.tracks runs).later less).checkLoop follows.reported
    exact ⟨loop.2, fun _ => loop.1⟩
  · have same : log ++ [] = log := List.append_nil log
    refine ⟨same.symm ▸ follows.reported, fun runing => absurd runing runs⟩

/-- **Every event keeps the order.** -/
theorem Follows.handle (follows : Follows timed log) (elapsed : Nat)
    (event : ReceiverEvent total) :
    Follows (timed.handle elapsed event).1 (log ++ (timed.handle elapsed event).2) := by
  have less : timed.clock ≤ timed.clock + elapsed := Nat.le_add_right _ _
  cases event with
  | onVideoPacket packet =>
      have arrived : Reported timed.receiver.deliveredFid
          (log ++ [.arrived (timed.clock + elapsed) packet]) := follows.reported.arrived packet
      simp only [TimedReceiver.handle, MpReceiverV1.onVideoPacket]
      split_ifs with runs late
      · rw [MpReceiverV1.noteFirstPacket_deliveredFid] at late
        refine ⟨?_, fun _ => ?_⟩
        · rwa [MpReceiverV1.noteFirstPacket_deliveredFid]
        · rw [MpReceiverV1.noteFirstPacket_deliveredFid, MpReceiverV1.noteFirstPacket_frames]
          exact (follows.tracks runs).ignored late less
      · rw [MpReceiverV1.noteFirstPacket_deliveredFid] at late
        refine ⟨?_, fun _ => ?_⟩
        · rwa [MpReceiverV1.noteFirstPacket_deliveredFid]
        · rw [MpReceiverV1.noteFirstPacket_deliveredFid, MpReceiverV1.noteFirstPacket_frames,
            MpReceiverV1.bufferOf, MpReceiverV1.noteFirstPacket_frames]
          exact (follows.tracks runs).onVideoPacket (not_le.mp late) less
      · exact ⟨arrived, fun runing => absurd runing runs⟩
  | checkDeliverable => exact follows.checkDeliverable less
  | heartBeatExpired =>
      simp only [TimedReceiver.handle, MpReceiverV1.heartBeatExpired, MpReceiverV1.heartBeat]
      split_ifs with runs
      · have idle : Follows ⟨timed.clock, { timed.receiver with heartTimer := false }⟩ log :=
          ⟨follows.reported, follows.tracks⟩
        have checked := idle.checkDeliverable less
        exact ⟨checked.reported, checked.tracks⟩
      · have same : log ++ [] = log := List.append_nil log
        refine ⟨same.symm ▸ follows.reported, fun runing => absurd ?_ runs⟩
        exact runing
  | stopReceiver =>
      refine ⟨(List.append_nil log).symm ▸ follows.reported, fun runing => ?_⟩
      cases runing

/-- **Frames are reported in order, once, with the packets that arrived**, and incomplete
only after the wait, when no earlier frame is left. -/
theorem reports_inOrder (total : UInt32 → UInt8) (events : List (Nat × ReceiverEvent total)) :
    ∃ last log, TimedReceiver.machine.run {} events = some (last, log) ∧ InOrder log := by
  let inv : TimedReceiver → List (LogEntry total) → List (Nat × ReceiverEvent total) → Prop :=
    fun timed past _ => Follows timed past
  have start : inv {} [] events := follows_start
  have steps : ∀ timed past event rest, inv timed past (event :: rest) → ∃ next out,
      TimedReceiver.machine.step timed event = some (next, out) ∧ inv next (past ++ out) rest :=
    fun timed past event rest follows => ⟨_, _, rfl, Follows.handle follows event.1 event.2⟩
  obtain ⟨last, log, ran, follows⟩ := Machine.run_defined steps start
  have holds : Follows last log := follows
  exact ⟨last, log, ran, holds.reported.inOrder⟩

/-- The frame 1 has two packets, every other frame one. -/
def firstOfTwo (fid : UInt32) : UInt8 := if fid = 1 then 2 else 1

/-- The first packet of frame 1, whose second one is lost. -/
def halfFrame : FramePacket firstOfTwo where
  receivedTs := 10
  segment := ⟨1, 0, 0, 2, 0, 0, .empty⟩
  total_eq := rfl
  inside := by decide

/-- The packet of frame 2. -/
def wholeFrame : FramePacket firstOfTwo where
  receivedTs := 20
  segment := ⟨2, 0, 0, 1, 0, 0, .empty⟩
  total_eq := rfl
  inside := by decide

/-- What a log says about reports: the number, and the packets received of the total. -/
def LogEntry.counts : LogEntry total → Option (UInt32 × UInt8 × UInt8)
  | .arrived _ _ => none
  | .reported _ _ report => some (report.fid, report.received, report.total)

/-- Frame 2 is complete and waits for frame 1, until this one has expired. -/
def expiring : List (Nat × ReceiverEvent firstOfTwo) :=
  [(10, .onVideoPacket halfFrame), (10, .onVideoPacket wholeFrame), (5, .heartBeatExpired),
    (5000, .heartBeatExpired)]

/-- The expired frame and the complete one are reported, in this order. -/
theorem reports_inOrder_expiring :
    ∃ last log, TimedReceiver.machine.run {} expiring = some (last, log) ∧
      log.filterMap LogEntry.counts = [(1, 1, 2), (2, 1, 1)] ∧ InOrder log := by
  obtain ⟨last, log, ran, inOrder⟩ := reports_inOrder firstOfTwo expiring
  have counts : (TimedReceiver.machine.run {} expiring).map
      (fun result => result.2.filterMap LogEntry.counts) = some [(1, 1, 2), (2, 1, 1)] := by
    decide +kernel
  rw [ran, Option.map_some, Option.some.injEq] at counts
  exact ⟨last, log, ran, counts, inOrder⟩

end MpVideo.V1
