import MpVideo.Lib.Machine
import MpVideo.Sender.PathSender

/-!
# The order of the queue in own pacing

In own pacing the path sender takes the segment with the least transport number out of
`buf_`. The numbers wrap at 16 bits, so this is the oldest segment only while the numbers in
the queue do not reach over the wrap (`front_of_unwrapped`, `front_of_wrapped`).

Segments leave in the order in which they were put, with increasing packet ids, and
`get_delay` is the age of the oldest one, in every state of a run if and only if no segment
leaves while the queue reaches over the wrap, or with the packet id zero, and the segment
that gets the transport number zero is as old as the queue (`pacing_inOrder_iff`).
-/

set_option autoImplicit false

namespace MpVideo.Sender

open Wire

/-- The time since a segment was due, as `get_delay` reports it. -/
def age (now : UInt32) (firstTs : Int64) (seg : SimSegment) : UInt32 :=
  (now.toUInt64.toInt64 - firstTs - seg.timestamp.toUInt64.toInt64).toUInt64.toUInt32

/-- `get_delay`. -/
def PathSender.getDelay (now : UInt32) (firstTs : Int64) (path : PathSender) : UInt32 :=
  match path.buf.entries with
  | [] => 0
  | (_, seg) :: _ => age now firstTs seg

/-- A segment that leaves the queue, and the datagrams that are sent for it. -/
structure Departure where
  seg : SimSegment
  datagrams : List (List UInt8)

/-- A path with the segments that were put, oldest first, and those that left. -/
structure PacedPath where
  path : PathSender
  puts : List SimSegment := []
  departed : List Departure := []

/-- What happens to a path in own pacing. -/
inductive PacingEvent where
  | put (seg : SimSegment)
  | pacingSendSegment (now : UInt32) (firstTs : Int64)

namespace PacedPath

/-- The segments that were put and have not left. -/
def waiting (paced : PacedPath) : List SimSegment := paced.puts.drop paced.departed.length

/-- A segment as `put` numbers it. -/
def numbered (paced : PacedPath) (seg : SimSegment) : SimSegment :=
  { seg with packetId := paced.path.packetSeed, transportSeq := paced.path.transSeq }

/-- The segment that `PacingSendSegment` takes, if it runs. -/
def departing (paced : PacedPath) : Option SimSegment :=
  if paced.path.pacing then paced.path.getFirstSegment.1 else none

/-- What happens on an event. At most 65535 segments wait at once. -/
def handle (paced : PacedPath) : PacingEvent → Option (PacedPath × List Empty)
  | .put seg =>
      if paced.waiting.length < 65535 then
        let (path, queued) := paced.path.put seg
        some ({ paced with
          path := path
          puts := if queued then paced.puts ++ [paced.numbered seg] else paced.puts }, [])
      else none
  | .pacingSendSegment now firstTs =>
      let (path, datagrams) := paced.path.pacingSendSegment now firstTs
      some ({ paced with
        path := path
        departed := paced.departed ++ paced.departing.toList.map (⟨·, datagrams⟩) }, [])

/-- A path in own pacing as a machine. -/
def machine : Machine PacedPath PacingEvent Empty := ⟨handle⟩

/-- A path that was just connected. -/
def fresh (pid : UInt8) (uid : UInt32) : PacedPath :=
  { path := { pid, uid, paceMode := .noWebrtc } }

/-- The segments leave in order. -/
structure InOrder (paced : PacedPath) : Prop where
  fifo : paced.departed.map Departure.seg <+: paced.puts
  rising : (paced.departed.map fun departure => departure.seg.packetId).Pairwise (· < ·)
  onWire : ∀ departure ∈ paced.departed, ∃ sendTs, departure.datagrams =
    [messageBytes ⟨paced.path.pid, MsgId.simSeg.toUInt8, paced.path.uid⟩
      (.seg { departure.seg with sendTs })]
  delay : ∀ now firstTs, paced.path.getDelay now firstTs =
    (paced.waiting.head?).elim 0 (age now firstTs)

/-- The transport numbers in the queue reach over the wrap. -/
def Wrapped (path : PathSender) : Prop := 0 ∈ path.buf.keys ∧ 65535 ∈ path.buf.keys

/-- The segment that gets the transport number zero has the time stamp of the first one in
the queue; a segment leaves only while the queue does not reach over the wrap, and never
with the packet id zero. -/
def Safe (paced : PacedPath) : PacingEvent → Prop
  | .put seg => paced.path.transSeq = 0 →
      ∀ front ∈ paced.path.buf.entries.head?, seg.timestamp = front.2.timestamp
  | .pacingSendSegment _ _ => paced.path.pacing →
      ¬ Wrapped paced.path ∧ ∀ front ∈ paced.path.buf.entries.head?, front.2.packetId ≠ 0

/-- The queue of a path, as long as the segments leave in order: the segments that wait,
under the numbers that they were put with. -/
structure Window (paced : PacedPath) : Prop where
  running : paced.path.stop = false
  transSeq : paced.path.transSeq = UInt16.ofNat (paced.puts.length + 1)
  packetSeed : paced.path.packetSeed = UInt32.ofNat (paced.puts.length + 1)
  packetId : ∀ i seg, paced.puts[i]? = some seg → seg.packetId = UInt32.ofNat (i + 1)
  ahead : paced.departed.length ≤ paced.puts.length
  bound : paced.puts.length ≤ paced.departed.length + 65535
  sent : paced.departed.length < 2 ^ 32
  queue : ∀ k seg, paced.path.buf.find? k = some seg ↔
    ∃ i, paced.departed.length ≤ i ∧ paced.puts[i]? = some seg ∧ k = UInt16.ofNat (i + 1)

variable {paced : PacedPath}

theorem window_fresh (pid : UInt8) (uid : UInt32) : (fresh pid uid).Window where
  running := rfl
  transSeq := rfl
  packetSeed := rfl
  packetId := by simp [fresh]
  ahead := le_rfl
  bound := by simp [fresh]
  sent := by simp [fresh]
  queue := by simp [fresh]

theorem inOrder_fresh (pid : UInt8) (uid : UInt32) : (fresh pid uid).InOrder where
  fifo := List.prefix_rfl
  rising := .nil
  onWire := by simp [fresh]
  delay _ _ := rfl

/-! ## The front of the queue -/

/-- The age tells time stamps apart. -/
theorem age_eq_iff (now : UInt32) (firstTs : Int64) (seg other : SimSegment) :
    age now firstTs seg = age now firstTs other ↔ seg.timestamp = other.timestamp := by
  constructor
  · intro same
    unfold age at same
    have bits := congrArg UInt32.toBitVec same
    apply UInt32.eq_of_toBitVec_eq
    simp at bits
    bv_omega
  · intro same
    rw [age, age, same]

theorem getDelay_eq (now : UInt32) (firstTs : Int64) (path : PathSender) :
    path.getDelay now firstTs =
      (path.buf.entries.head?.map Prod.snd).elim 0 (age now firstTs) := by
  rw [PathSender.getDelay]
  cases path.buf.entries <;> rfl

theorem ofNat_toNat (i : Nat) : (UInt16.ofNat i).toNat = i % 65536 := UInt16.toNat_ofNat'

/-- The numbers of the segments that wait are in the queue. -/
theorem Window.mem_keys_iff (window : paced.Window) {k : UInt16} :
    k ∈ paced.path.buf.keys ↔
      ∃ i, paced.departed.length ≤ i ∧ i < paced.puts.length ∧ k = UInt16.ofNat (i + 1) := by
  rw [SortedMap.mem_keys_iff]
  constructor
  · rintro ⟨seg, found⟩
    obtain ⟨i, later, there, rfl⟩ := (window.queue k seg).mp found
    exact ⟨i, later, (List.getElem?_eq_some_iff.mp there).1, rfl⟩
  · rintro ⟨i, later, there, rfl⟩
    exact ⟨_, (window.queue _ _).mpr ⟨i, later, List.getElem?_eq_getElem there, rfl⟩⟩

/-- The queue is empty when nothing waits. -/
theorem Window.buf_empty (window : paced.Window) (nothing : paced.waiting = []) :
    paced.path.buf = .empty := by
  rw [waiting, List.drop_eq_nil_iff] at nothing
  refine SortedMap.eq_empty_of_keys fun k member => ?_
  obtain ⟨i, later, there, -⟩ := window.mem_keys_iff.mp member
  omega

theorem waiting_head (paced : PacedPath) :
    paced.waiting.head? = paced.puts[paced.departed.length]? :=
  List.head?_drop

/-- **The first segment is the oldest one** unless the queue reaches over the wrap. -/
theorem Window.front_of_unwrapped (window : paced.Window) (unwrapped : ¬ Wrapped paced.path) :
    paced.path.buf.entries.head? =
      paced.waiting.head?.map (UInt16.ofNat (paced.departed.length + 1), ·) := by
  rw [waiting_head]
  cases oldest : paced.puts[paced.departed.length]? with
  | none =>
      have nothing : paced.waiting = [] := List.head?_eq_none_iff.mp (by rw [waiting_head, oldest])
      rw [window.buf_empty nothing]
      rfl
  | some seg =>
      refine SortedMap.front_of_le ((window.queue _ _).mpr ⟨_, le_rfl, oldest, rfl⟩) ?_
      intro k member
      obtain ⟨i, later, there, rfl⟩ := window.mem_keys_iff.mp member
      by_contra less
      rw [not_le, UInt16.lt_iff_toNat_lt, ofNat_toNat, ofNat_toNat] at less
      -- the number of the wrap lies between the two
      have bound := window.bound
      apply unwrapped
      refine ⟨window.mem_keys_iff.mpr ⟨(i + 1) / 65536 * 65536 - 1, by omega, by omega, ?_⟩,
        window.mem_keys_iff.mpr ⟨(i + 1) / 65536 * 65536 - 2, by omega, by omega, ?_⟩⟩
      · rw [← UInt16.toNat_inj, ofNat_toNat]
        have : (0 : UInt16).toNat = 0 := rfl
        omega
      · rw [← UInt16.toNat_inj, ofNat_toNat]
        have : (65535 : UInt16).toNat = 65535 := rfl
        omega

/-- **The first segment is a younger one** while the queue reaches over the wrap. -/
theorem Window.front_of_wrapped (window : paced.Window) (wrapped : Wrapped paced.path) :
    ∃ i seg, paced.departed.length < i ∧ paced.puts[i]? = some seg ∧
      paced.path.buf.entries.head? = some (0, seg) := by
  obtain ⟨zero, last⟩ := wrapped
  obtain ⟨i, later, there, zeroth⟩ := window.mem_keys_iff.mp zero
  obtain ⟨l, laterLast, thereLast, lastly⟩ := window.mem_keys_iff.mp last
  have bound := window.bound
  have first := congrArg UInt16.toNat zeroth
  have second := congrArg UInt16.toNat lastly
  rw [ofNat_toNat] at first second
  have zeroNat : (0 : UInt16).toNat = 0 := rfl
  have lastNat : (65535 : UInt16).toNat = 65535 := rfl
  refine ⟨i, paced.puts[i], by omega, List.getElem?_eq_getElem there,
    SortedMap.front_of_le ?_ ?_⟩
  · exact (window.queue 0 _).mpr ⟨i, later, List.getElem?_eq_getElem there, zeroth⟩
  · intro k _
    rw [UInt16.le_iff_toNat_le, zeroNat]
    exact Nat.zero_le _

/-! ## A segment is put -/

/-- What an event leaves as it is. -/
structure Frame (paced next : PacedPath) : Prop where
  pid : next.path.pid = paced.path.pid
  uid : next.path.uid = paced.path.uid
  stop : next.path.stop = paced.path.stop

/-- A segment enters the queue under the next numbers. -/
structure Enters (seg : SimSegment) (paced next : PacedPath) : Prop extends
    Frame paced next where
  room : paced.waiting.length < 65535
  buf : next.path.buf = paced.path.buf.insert paced.path.transSeq (paced.numbered seg)
  transSeq : next.path.transSeq = paced.path.transSeq + 1
  packetSeed : next.path.packetSeed = paced.path.packetSeed + 1
  puts : next.puts = paced.puts ++ [paced.numbered seg]
  departed : next.departed = paced.departed
  paces : paced.path.paceMode = .noWebrtc → paced.path.pacing = paced.path.pacingRunning →
    next.path.Paces

theorem Window.enters (window : paced.Window) {seg : SimSegment} {next : PacedPath}
    {out : List Empty} (handled : machine.step paced (.put seg) = some (next, out)) :
    Enters seg paced next := by
  change handle paced (.put seg) = _ at handled
  obtain ⟨pacing, pacingRunning, queued⟩ := PathSender.put_eq window.running seg
  have paces := fun own together => PathSender.put_paces window.running own together seg
  rw [queued] at paces
  rw [handle, queued] at handled
  split_ifs at handled with room
  obtain ⟨rfl, -⟩ := Prod.mk.inj (Option.some.inj handled)
  exact ⟨⟨rfl, rfl, rfl⟩, room, rfl, rfl, rfl, rfl, rfl, paces⟩

variable {seg : SimSegment} {next : PacedPath}

/-- The next transport number is not in use. -/
theorem Window.find?_transSeq (window : paced.Window) (room : paced.waiting.length < 65535) :
    paced.path.buf.find? paced.path.transSeq = none := by
  rw [SortedMap.find?_eq_none_iff]
  intro old used
  obtain ⟨i, later, there, same⟩ :=
    (window.queue _ _).mp (SortedMap.find?_eq_some_iff.mpr used)
  have below := (List.getElem?_eq_some_iff.mp there).1
  rw [window.transSeq] at same
  have number := congrArg UInt16.toNat same
  rw [ofNat_toNat, ofNat_toNat] at number
  rw [waiting, List.length_drop] at room
  omega

theorem getElem?_concat_eq_some {list : List SimSegment} {last other : SimSegment} {i : Nat} :
    (list ++ [last])[i]? = some other ↔
      list[i]? = some other ∨ i = list.length ∧ other = last := by
  grind

/-- The window grows by the segment. -/
theorem Enters.window (enters : Enters seg paced next) (window : paced.Window) :
    next.Window := by
  have room := enters.room
  rw [waiting, List.length_drop] at room
  have ahead := window.ahead
  refine ⟨?_, ?_, ?_, ?_, ?_, ?_, ?_, ?_⟩
  · rw [enters.stop]
    exact window.running
  · rw [enters.transSeq, enters.puts, List.length_append, window.transSeq]
    exact (UInt16.ofNat_add (paced.puts.length + 1) 1).symm
  · rw [enters.packetSeed, enters.puts, List.length_append, window.packetSeed]
    exact (UInt32.ofNat_add (paced.puts.length + 1) 1).symm
  · intro i other there
    rw [enters.puts] at there
    rcases getElem?_concat_eq_some.mp there with old | ⟨rfl, rfl⟩
    · exact window.packetId i other old
    · exact window.packetSeed
  · rw [enters.puts, enters.departed, List.length_append]
    omega
  · rw [enters.puts, enters.departed, List.length_append, List.length_singleton]
    omega
  · rw [enters.departed]
    exact window.sent
  · intro k other
    have free := window.find?_transSeq enters.room
    rw [enters.buf, enters.puts, enters.departed, SortedMap.find?_insert, free, Option.getD_none]
    simp only [getElem?_concat_eq_some]
    split_ifs with last
    · rw [Option.some_inj, last]
      constructor
      · rintro rfl
        exact ⟨paced.puts.length, ahead, .inr ⟨rfl, rfl⟩, window.transSeq⟩
      · rintro ⟨i, later, old | ⟨rfl, rfl⟩, same⟩
        · have used := (window.queue _ _).mpr ⟨i, later, old, same⟩
          simp [free] at used
        · rfl
    · rw [window.queue]
      constructor
      · rintro ⟨i, later, there, same⟩
        exact ⟨i, later, .inl there, same⟩
      · rintro ⟨i, later, there | ⟨rfl, rfl⟩, same⟩
        · exact ⟨i, later, there, same⟩
        · exact absurd (same.trans window.transSeq.symm) last

/-- The front of the queue when it is not empty. -/
theorem Window.front_of_waiting (window : paced.Window) (behind : paced.waiting ≠ []) :
    ∃ k front, paced.path.buf.entries.head? = some (k, front) := by
  rw [waiting, ne_eq, List.drop_eq_nil_iff, not_le] at behind
  have member := window.mem_keys_iff.mpr ⟨_, le_rfl, behind, rfl⟩
  rw [SortedMap.keys] at member
  cases queued : paced.path.buf.entries with
  | nil => simp [queued] at member
  | cons entry rest => exact ⟨entry.1, entry.2, rfl⟩

/-- A segment that is put behind others leaves the front alone, unless its transport number
is zero. -/
theorem Enters.front (enters : Enters seg paced next) (window : paced.Window)
    (behind : paced.waiting ≠ []) :
    next.path.buf.entries.head? =
      if paced.path.transSeq = 0 then some (0, paced.numbered seg)
      else paced.path.buf.entries.head? := by
  have free := window.find?_transSeq enters.room
  rw [enters.buf]
  split_ifs with zero
  · rw [zero] at free
    rw [zero]
    refine SortedMap.front_of_le ?_ fun k _ => ?_
    · rw [SortedMap.find?_insert, if_pos rfl, free, Option.getD_none]
    · rw [UInt16.le_iff_toNat_le]
      exact Nat.zero_le _
  · obtain ⟨k, front, queued⟩ := window.front_of_waiting behind
    obtain ⟨rest, entries⟩ := List.head?_eq_some_iff.mp queued
    have found : paced.path.buf.find? k = some front :=
      SortedMap.find?_eq_some_iff.mpr (entries ▸ List.mem_cons_self)
    rw [queued]
    refine SortedMap.front_of_le ?_ ?_
    · rw [SortedMap.find?_insert, if_neg, found]
      rintro rfl
      simp [free] at found
    · intro other member
      rcases SortedMap.mem_keys_insert.mp member with rfl | old
      · -- the number before is in the queue
        rw [waiting, ne_eq, List.drop_eq_nil_iff, not_le] at behind
        have last := SortedMap.front_le entries (window.mem_keys_iff.mpr
          ⟨paced.puts.length - 1, by omega, by omega, rfl⟩)
        have number := congrArg UInt16.toNat window.transSeq
        have positive : paced.path.transSeq.toNat ≠ 0 := fun nil =>
          zero (UInt16.toNat_inj.mp nil)
        rw [UInt16.le_iff_toNat_le, ofNat_toNat] at last
        rw [ofNat_toNat] at number
        rw [UInt16.le_iff_toNat_le]
        omega
      · exact SortedMap.front_le entries old

/-- The oldest segment after one more was put. -/
theorem Enters.oldest (enters : Enters seg paced next) (window : paced.Window) :
    next.waiting.head? = paced.waiting.head?.or (some (paced.numbered seg)) := by
  have ahead := window.ahead
  rw [waiting, waiting, enters.puts, enters.departed, List.drop_append_of_le_length ahead,
    List.head?_append]
  rfl

/-- The delay decides whether a segment that is put is in order. -/
theorem Enters.inOrder_iff_delay (enters : Enters seg paced next) (inOrder : paced.InOrder) :
    next.InOrder ↔ ∀ now firstTs, next.path.getDelay now firstTs =
      (next.waiting.head?).elim 0 (age now firstTs) := by
  refine ⟨InOrder.delay, fun delay => ⟨?_, ?_, ?_, delay⟩⟩
  · rw [enters.departed, enters.puts]
    exact inOrder.fifo.trans (List.prefix_append ..)
  · rw [enters.departed]
    exact inOrder.rising
  · rw [enters.departed, enters.pid, enters.uid]
    exact inOrder.onWire

/-- **A segment is put in order** exactly if it has another transport number than zero, or
the time stamp of the front. -/
theorem Enters.inOrder_iff (enters : Enters seg paced next) (window : paced.Window)
    (inOrder : paced.InOrder) : next.InOrder ↔ paced.Safe (.put seg) := by
  rw [enters.inOrder_iff_delay inOrder, enters.oldest window]
  simp only [getDelay_eq]
  by_cases behind : paced.waiting = []
  · have none : paced.path.buf = .empty := window.buf_empty behind
    have front : next.path.buf.entries.head? =
        some (paced.path.transSeq, paced.numbered seg) := by
      rw [enters.buf, none]
      rfl
    rw [behind, front]
    exact iff_of_true (fun _ _ => rfl) fun _ front member => by
      simp [none, SortedMap.empty] at member
  · obtain ⟨k, front, queued⟩ := window.front_of_waiting behind
    obtain ⟨oldest, rest, waits⟩ := List.exists_cons_of_ne_nil behind
    have delay := inOrder.delay
    simp only [getDelay_eq, queued, waits, Option.map_some, Option.elim_some, List.head?_cons,
      age_eq_iff, forall_const] at delay
    rw [enters.front window behind, waits, List.head?_cons, Option.some_or]
    split_ifs with zero
    · simp only [Option.map_some, Option.elim_some, age_eq_iff, forall_const, Safe, zero, queued,
        Option.mem_some_iff, forall_eq', delay]
      exact Iff.rfl
    · refine iff_of_true ?_ fun same => absurd same zero
      simp only [queued, Option.map_some, Option.elim_some, age_eq_iff, delay, forall_const]

/-! ## A segment leaves -/

/-- Nothing happens to the queue. -/
structure Rests (paced next : PacedPath) : Prop extends Frame paced next where
  buf : next.path.buf = paced.path.buf
  transSeq : next.path.transSeq = paced.path.transSeq
  packetSeed : next.path.packetSeed = paced.path.packetSeed
  puts : next.puts = paced.puts
  departed : next.departed = paced.departed

/-- The first segment leaves the queue. -/
structure Leaves (k : UInt16) (seg : SimSegment) (paced next : PacedPath) : Prop extends
    Frame paced next where
  pacing : paced.path.pacing
  front : paced.path.buf.entries.head? = some (k, seg)
  buf : next.path.buf = paced.path.buf.erase k
  transSeq : next.path.transSeq = paced.path.transSeq
  packetSeed : next.path.packetSeed = paced.path.packetSeed
  puts : next.puts = paced.puts
  departed : ∃ sendTs, next.departed = paced.departed ++
    [⟨seg, [messageBytes ⟨paced.path.pid, MsgId.simSeg.toUInt8, paced.path.uid⟩
      (.seg { seg with sendTs })]⟩]
  paces : paced.path.Paces → next.path.Paces

/-- `PacingSendSegment` takes the first segment, unless it does not run or finds none. -/
theorem pacing_cases {now : UInt32} {firstTs : Int64} {next : PacedPath} {out : List Empty}
    (handled : machine.step paced (.pacingSendSegment now firstTs) = some (next, out)) :
    (Rests paced next ∧ (paced.path.pacing = false ∨ paced.path.buf.entries = [])) ∨
      ∃ k seg, Leaves k seg paced next := by
  obtain ⟨rfl, -⟩ := Prod.mk.inj (Option.some.inj handled)
  simp only [departing, PathSender.getFirstSegment]
  cases pacing : paced.path.pacing with
  | false =>
      exact .inl ⟨⟨⟨rfl, rfl, rfl⟩, rfl, rfl, rfl, rfl, List.append_nil _⟩, .inl rfl⟩
  | true =>
      cases queued : paced.path.buf.entries with
      | nil =>
          exact .inl ⟨⟨⟨rfl, rfl, rfl⟩, rfl, rfl, rfl, rfl, List.append_nil _⟩, .inr rfl⟩
      | cons entry rest =>
          obtain ⟨sendTs, strm, sent⟩ :=
            PathSender.sendSegment_eq now firstTs entry.2 (paced.path.take entry.1 entry.2)
          refine .inr ⟨entry.1, entry.2, ?_⟩
          rw [if_pos rfl]
          dsimp only
          rw [sent]
          exact ⟨⟨rfl, rfl, rfl⟩, pacing, by rw [queued]; rfl, rfl, rfl, rfl, rfl, ⟨sendTs, rfl⟩,
            fun paces => ⟨paces.paceMode, paces.pacingRunning, pacing⟩⟩

/-- Without a segment to take, the event is safe. -/
theorem safe_of_nothing {now : UInt32} {firstTs : Int64}
    (nothing : paced.path.pacing = false ∨ paced.path.buf.entries = []) :
    paced.Safe (.pacingSendSegment now firstTs) := by
  rcases nothing with idle | empty
  · simp [Safe, idle]
  · simp [Safe, Wrapped, SortedMap.keys, empty]

theorem Rests.window (rests : Rests paced next) (window : paced.Window) : next.Window := by
  obtain ⟨⟨-, -, stop⟩, buf, transSeq, packetSeed, puts, departed⟩ := rests
  obtain ⟨running, nextSeq, nextId, packetId, ahead, bound, sent, queue⟩ := window
  constructor
  · rwa [stop]
  · rwa [transSeq, puts]
  · rwa [packetSeed, puts]
  · rwa [puts]
  · rwa [departed, puts]
  · rwa [departed, puts]
  · rwa [departed]
  · rwa [buf, departed, puts]

theorem Rests.inOrder (rests : Rests paced next) (inOrder : paced.InOrder) : next.InOrder := by
  obtain ⟨⟨pid, uid, -⟩, buf, -, -, puts, departed⟩ := rests
  obtain ⟨fifo, rising, onWire, delay⟩ := inOrder
  constructor
  · rwa [departed, puts]
  · rwa [departed]
  · rwa [departed, pid, uid]
  · simp only [getDelay_eq] at delay ⊢
    rwa [buf, waiting, departed, puts]

variable {k : UInt16}

/-- The segment that leaves is the oldest one: its key, and the segment itself. -/
structure Oldest (k : UInt16) (seg : SimSegment) (paced : PacedPath) : Prop where
  key : k = UInt16.ofNat (paced.departed.length + 1)
  seg : paced.puts[paced.departed.length]? = some seg

theorem Leaves.oldest_of_unwrapped (leaves : Leaves k seg paced next) (window : paced.Window)
    (unwrapped : ¬ Wrapped paced.path) : Oldest k seg paced := by
  have front := window.front_of_unwrapped unwrapped
  rw [leaves.front, waiting_head] at front
  obtain ⟨first, there, same⟩ := Option.map_eq_some_iff.mp front.symm
  obtain ⟨rfl, rfl⟩ := Prod.mk.inj same
  exact ⟨rfl, there⟩

/-- Over the wrap another segment leaves than the oldest one. -/
theorem Leaves.unwrapped_of_oldest (leaves : Leaves k seg paced next) (window : paced.Window)
    (oldest : paced.puts[paced.departed.length]? = some seg) : ¬ Wrapped paced.path := by
  intro wrapped
  obtain ⟨i, first, later, there, front⟩ := window.front_of_wrapped wrapped
  rw [leaves.front] at front
  obtain ⟨rfl, rfl⟩ := Prod.mk.inj (Option.some.inj front)
  -- one segment in two places would carry two packet ids
  have same := (window.packetId _ _ oldest).symm.trans (window.packetId _ _ there)
  have number := congrArg UInt32.toNat same
  rw [UInt32.toNat_ofNat', UInt32.toNat_ofNat'] at number
  have below := (List.getElem?_eq_some_iff.mp there).1
  have bound := window.bound
  omega

/-- The packet id of the oldest segment is its number, unless it is zero. -/
theorem Oldest.packetId (oldest : Oldest k seg paced) (window : paced.Window)
    (nonzero : seg.packetId ≠ 0) :
    paced.departed.length + 1 < 2 ^ 32 ∧ seg.packetId.toNat = paced.departed.length + 1 := by
  have number := window.packetId _ _ oldest.seg
  have sent := window.sent
  have fits : paced.departed.length + 1 ≠ 2 ^ 32 := by
    intro wrap
    apply nonzero
    rw [number, wrap]
    rfl
  have small : paced.departed.length + 1 < 2 ^ 32 := by omega
  refine ⟨small, ?_⟩
  rw [number]
  exact UInt32.toNat_ofNat_of_lt' small

/-- The window loses its oldest segment. -/
theorem Leaves.window (leaves : Leaves k seg paced next) (window : paced.Window)
    (oldest : Oldest k seg paced) (nonzero : seg.packetId ≠ 0) : next.Window := by
  have small := (oldest.packetId window nonzero).1
  have below := (List.getElem?_eq_some_iff.mp oldest.seg).1
  obtain ⟨⟨-, -, stop⟩, -, -, buf, transSeq, packetSeed, puts, ⟨sendTs, departed⟩, -⟩ := leaves
  obtain ⟨running, nextSeq, nextId, packetId, ahead, bound, sent, queue⟩ := window
  constructor
  · rwa [stop]
  · rwa [transSeq, puts]
  · rwa [packetSeed, puts]
  · rwa [puts]
  · rw [departed, puts, List.length_append]
    exact below
  · rw [departed, puts, List.length_append]
    omega
  · rw [departed, List.length_append]
    exact small
  · intro k' other
    rw [buf, departed, puts, List.length_append, List.length_singleton, SortedMap.find?_erase,
      oldest.key]
    split_ifs with same
    · refine iff_of_false (by simp) ?_
      rintro ⟨i, later, there, number⟩
      have far := (List.getElem?_eq_some_iff.mp there).1
      have equal := congrArg UInt16.toNat (same.symm.trans number)
      rw [ofNat_toNat, ofNat_toNat] at equal
      omega
    · rw [queue]
      constructor
      · rintro ⟨i, later, there, rfl⟩
        refine ⟨i, ?_, there, rfl⟩
        rcases later.lt_or_eq with more | rfl
        · exact more
        · exact absurd rfl same
      · rintro ⟨i, later, there, number⟩
        exact ⟨i, by omega, there, number⟩

/-- **The oldest segment leaves in order.** -/
theorem Leaves.inOrder (leaves : Leaves k seg paced next) (window : paced.Window)
    (inOrder : paced.InOrder) (unwrapped : ¬ Wrapped paced.path) (nonzero : seg.packetId ≠ 0) :
    next.InOrder := by
  have oldest := leaves.oldest_of_unwrapped window unwrapped
  have after := leaves.window window oldest nonzero
  obtain ⟨small, number⟩ := oldest.packetId window nonzero
  obtain ⟨⟨pid, uid, -⟩, -, -, buf, -, -, puts, ⟨sendTs, departed⟩, -⟩ := leaves
  have before : paced.departed.map Departure.seg = paced.puts.take paced.departed.length := by
    have := List.prefix_iff_eq_take.mp inOrder.fifo
    rwa [List.length_map] at this
  constructor
  · rw [departed, puts, List.map_append, before, List.map_singleton]
    have taken : paced.puts.take (paced.departed.length + 1) =
        paced.puts.take paced.departed.length ++ [seg] := by
      rw [List.take_add_one, oldest.seg]
      rfl
    rw [← taken]
    exact List.take_prefix ..
  · rw [departed, List.map_append, List.pairwise_append]
    refine ⟨inOrder.rising, List.pairwise_singleton .., ?_⟩
    intro first earlier last new
    obtain rfl := List.mem_singleton.mp new
    obtain ⟨departure, gone, rfl⟩ := List.mem_map.mp earlier
    have put : departure.seg ∈ paced.puts.take paced.departed.length :=
      before ▸ List.mem_map_of_mem gone
    obtain ⟨i, below, there⟩ := List.mem_take_iff_getElem.mp put
    have id := window.packetId i departure.seg (by rw [← there]; exact List.getElem?_eq_getElem _)
    have fits : i + 1 < UInt32.size := by
      have : UInt32.size = 2 ^ 32 := rfl
      omega
    rw [UInt32.lt_iff_toNat_lt, number, id, UInt32.toNat_ofNat_of_lt' fits]
    omega
  · rw [departed, pid, uid]
    intro departure member
    rcases List.mem_append.mp member with gone | new
    · exact inOrder.onWire departure gone
    · obtain rfl := List.mem_singleton.mp new
      exact ⟨sendTs, rfl⟩
  · intro now firstTs
    have still : ¬ Wrapped next.path := by
      rintro ⟨zero, last⟩
      rw [buf, SortedMap.mem_keys_erase] at zero last
      exact unwrapped ⟨zero.1, last.1⟩
    rw [getDelay_eq, after.front_of_unwrapped still, Option.map_map]
    exact congrArg (fun front => Option.elim front 0 (age now firstTs)) Option.map_id'

/-- **A segment leaves in order** exactly if the queue does not reach over the wrap, and its
packet id is not zero. -/
theorem Leaves.inOrder_iff (leaves : Leaves k seg paced next) (window : paced.Window)
    (inOrder : paced.InOrder) :
    next.InOrder ↔ ¬ Wrapped paced.path ∧ seg.packetId ≠ 0 := by
  refine ⟨fun ordered => ?_, fun ⟨unwrapped, nonzero⟩ =>
    leaves.inOrder window inOrder unwrapped nonzero⟩
  obtain ⟨sendTs, departed⟩ := leaves.departed
  have last : paced.puts[paced.departed.length]? = some seg := by
    obtain ⟨rest, whole⟩ := ordered.fifo
    rw [departed, leaves.puts, List.map_append, List.map_singleton, List.append_assoc] at whole
    rw [← whole, List.getElem?_append_right (by rw [List.length_map]), List.length_map,
      Nat.sub_self]
    rfl
  refine ⟨leaves.unwrapped_of_oldest window last, fun zero => ?_⟩
  have rising := ordered.rising
  rw [departed, List.map_append, List.pairwise_append] at rising
  have number := window.packetId _ _ last
  have nat := congrArg UInt32.toNat number
  have sent := window.sent
  rw [zero, UInt32.toNat_ofNat'] at nat
  have zeroNat : (0 : UInt32).toNat = 0 := rfl
  obtain ⟨departure, gone⟩ := List.exists_mem_of_length_pos (l := paced.departed) (by omega)
  have less := rising.2.2 _ (List.mem_map_of_mem gone) _ (List.mem_singleton.mpr rfl)
  change departure.seg.packetId < seg.packetId at less
  rw [zero, UInt32.lt_iff_toNat_lt] at less
  omega

/-! ## Runs -/

/-- Whether an event keeps the order. -/
theorem step_inOrder_iff {event : PacingEvent} {next : PacedPath} {out : List Empty}
    (window : paced.Window) (inOrder : paced.InOrder)
    (stepped : machine.step paced event = some (next, out)) :
    next.InOrder ↔ paced.Safe event := by
  cases event with
  | put seg => exact (window.enters stepped).inOrder_iff window inOrder
  | pacingSendSegment now firstTs =>
      rcases pacing_cases stepped with ⟨rests, nothing⟩ | ⟨k, seg, leaves⟩
      · exact iff_of_true (rests.inOrder inOrder) (safe_of_nothing nothing)
      · rw [leaves.inOrder_iff window inOrder]
        simp only [Safe, leaves.pacing, leaves.front, Option.mem_some_iff, forall_eq',
          forall_const]

/-- The window is kept as long as the order is. -/
theorem step_window {event : PacingEvent} {next : PacedPath} {out : List Empty}
    (window : paced.Window) (inOrder : paced.InOrder)
    (stepped : machine.step paced event = some (next, out)) (ordered : next.InOrder) :
    next.Window := by
  cases event with
  | put seg => exact (window.enters stepped).window window
  | pacingSendSegment now firstTs =>
      rcases pacing_cases stepped with ⟨rests, -⟩ | ⟨k, seg, leaves⟩
      · exact rests.window window
      · obtain ⟨unwrapped, nonzero⟩ := (leaves.inOrder_iff window inOrder).mp ordered
        exact leaves.window window (leaves.oldest_of_unwrapped window unwrapped) nonzero

/-- **In every state of a run with at most 65535 segments in the queue, the segments have
left in the order in which they were put, with increasing packet ids, and `get_delay` is the
age of the oldest one, if and only if** the segment that gets the transport number zero has
the time stamp of the front of the queue, and no segment leaves while the queue reaches
over the wrap, or with the packet id zero. -/
theorem pacing_inOrder_iff (pid : UInt8) (uid : UInt32) (events : List PacingEvent) :
    (∀ n last out, machine.run (fresh pid uid) (events.take n) = some (last, out) →
        last.InOrder) ↔
      machine.Along (fun paced event => (machine.step paced event).isSome → paced.Safe event)
        (fresh pid uid) events :=
  Machine.reached_good_while_iff
    (fun _ _ _ _ window inOrder stepped ordered => step_window window inOrder stepped ordered)
    (fun _ _ _ _ window inOrder stepped => step_inOrder_iff window inOrder stepped)
    (window_fresh pid uid) (inOrder_fresh pid uid)

/-- A segment without data. -/
def dataless : SimSegment := ⟨0, 1, 0, 0, 1, 0, 0, 0, 0, 0, .empty⟩

/-- A number of segments are put, and none leaves. -/
theorem run_puts (count : Nat) (fits : count < 65535) :
    ∃ last, machine.run (fresh 1 1) (List.replicate (count + 1) (.put dataless)) =
        some (last, []) ∧ last.Window ∧ last.puts.length = count + 1 ∧ last.departed = [] ∧
      last.path.Paces := by
  induction count with
  | zero =>
      have entered : Enters dataless (fresh 1 1) _ := (window_fresh 1 1).enters rfl
      exact ⟨_, rfl, entered.window (window_fresh 1 1), rfl, rfl, entered.paces rfl rfl⟩
  | succ count ih =>
      obtain ⟨s, ran, window, puts, departed, paces⟩ := ih (by omega)
      have room : s.waiting.length < 65535 := by
        rw [waiting, departed, List.length_nil, List.drop_zero, puts]
        exact fits
      have defined : machine.step s (.put dataless) =
          some (_, []) := if_pos room
      have entered := window.enters defined
      refine ⟨_, ?_, entered.window window, ?_, entered.departed.trans departed,
        entered.paces paces.paceMode (paces.pacing.trans paces.pacingRunning.symm)⟩
      · rw [List.replicate_succ']
        exact Machine.run_trans ran (Machine.run_cons.mpr ⟨_, _, _, defined, rfl, rfl⟩)
      · rw [entered.puts, List.length_append, puts]
        rfl

/-- While the pacing runs and segments wait, one of them leaves. -/
theorem Window.leaves (window : paced.Window) (paces : paced.path.Paces)
    (behind : paced.waiting ≠ []) : ∃ next k seg,
      machine.step paced (.pacingSendSegment 0 0) = some (next, []) ∧ Leaves k seg paced next := by
  have defined : ∃ next, machine.step paced (.pacingSendSegment 0 0) = some (next, []) := ⟨_, rfl⟩
  obtain ⟨next, stepped⟩ := defined
  rcases pacing_cases stepped with ⟨-, idle | empty⟩ | ⟨k, seg, leaves⟩
  · exact absurd (idle.symm.trans paces.pacing) (by decide)
  · obtain ⟨k, front, queued⟩ := window.front_of_waiting behind
    simp [empty] at queued
  · exact ⟨next, k, seg, stepped, leaves⟩

/-- The queue fills up to the transport number 65535, one segment leaves, another one is put
under the number zero, and one more leaves. -/
def overtaking : List PacingEvent :=
  List.replicate 65535 (.put dataless) ++
    [.pacingSendSegment 0 0, .put dataless, .pacingSendSegment 0 0]

/-- The segment under the number zero leaves before all that were put earlier. -/
theorem overtaken : ¬ ∀ n last out,
    machine.run (fresh 1 1) (overtaking.take n) = some (last, out) → last.InOrder := by
  intro always
  obtain ⟨s, ran, window, puts, departed, paces⟩ := run_puts 65534 (by omega)
  have reached : ∀ i last out, machine.run s (([.pacingSendSegment 0 0, .put dataless,
      .pacingSendSegment 0 0] : List PacingEvent).take i) = some (last, out) →
      last.InOrder := by
    intro i last out onwards
    refine always (65535 + i) last ([] ++ out) ?_
    have cut : overtaking.take (65535 + i) = List.replicate 65535 (.put dataless) ++
        ([.pacingSendSegment 0 0, .put dataless, .pacingSendSegment 0 0] :
          List PacingEvent).take i := by
      rw [overtaking, List.take_append, List.length_replicate, Nat.add_sub_cancel_left,
        List.take_of_length_le (by rw [List.length_replicate]; omega)]
    rw [cut]
    exact Machine.run_trans ran onwards
  have inOrder := reached 0 s [] rfl
  obtain ⟨s₁, k, seg, stepped₁, leaves₁⟩ := window.leaves paces (by
    rw [ne_eq, ← List.length_eq_zero_iff, waiting, List.length_drop, puts, departed]
    decide)
  have inOrder₁ := reached 1 s₁ _ (Machine.run_cons.mpr ⟨_, _, _, stepped₁, rfl, rfl⟩)
  have window₁ := step_window window inOrder stepped₁ inOrder₁
  have gone₁ : s₁.departed.length = 1 := by
    obtain ⟨sendTs, departed₁⟩ := leaves₁.departed
    rw [departed₁, departed]
    rfl
  have room : s₁.waiting.length < 65535 := by
    rw [waiting, List.length_drop, leaves₁.puts, puts, gone₁]
    decide
  obtain ⟨s₂, stepped₂⟩ : ∃ s₂, machine.step s₁ (.put dataless) = some (s₂, []) :=
    ⟨_, if_pos room⟩
  have entered := window₁.enters stepped₂
  have window₂ := entered.window window₁
  have paces₁ := leaves₁.paces paces
  have paces₂ := entered.paces paces₁.paceMode
    (paces₁.pacing.trans paces₁.pacingRunning.symm)
  have puts₂ : s₂.puts.length = 65536 := by
    rw [entered.puts, List.length_append, leaves₁.puts, puts]
    rfl
  have gone₂ : s₂.departed.length = 1 := by rw [entered.departed, gone₁]
  obtain ⟨s₃, k', seg', stepped₃, leaves₃⟩ := window₂.leaves paces₂ (by
    rw [ne_eq, ← List.length_eq_zero_iff, waiting, List.length_drop, puts₂, gone₂]
    decide)
  have inOrder₂ := reached 2 s₂ _ (Machine.run_cons.mpr ⟨_, _, _, stepped₁,
    Machine.run_cons.mpr ⟨_, _, _, stepped₂, rfl, rfl⟩, rfl⟩)
  have inOrder₃ := reached 3 s₃ _ (Machine.run_cons.mpr ⟨_, _, _, stepped₁,
    Machine.run_cons.mpr ⟨_, _, _, stepped₂,
      Machine.run_cons.mpr ⟨_, _, _, stepped₃, rfl, rfl⟩, rfl⟩, rfl⟩)
  refine ((leaves₃.inOrder_iff window₂ inOrder₂).mp inOrder₃).1 ⟨?_, ?_⟩
  · exact window₂.mem_keys_iff.mpr ⟨65535, by omega, by omega, rfl⟩
  · exact window₂.mem_keys_iff.mpr ⟨65534, by omega, by omega, rfl⟩

end PacedPath

end MpVideo.Sender
