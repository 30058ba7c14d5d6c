import Mathlib.Algebra.BigOperators.Group.List.Basic
import MpVideo.V1.PathSender

/-!
# The queues of the paths

The packets that wait in the queues of `path_sender_v1.cc` are shared. One of them can wait on
several paths and several times on one path, and is written again for every transmission. Here
the packets are named by numbers, and a queue holds the names.

In every state that is reached, `pending_bytes_` is what the packets in both queues weigh, as a
number of 32 bits. What entered a queue is what was sent from it, in this order, and what still
waits; what a path sends is numbered without gaps; and only when nothing waits to be sent again
does a path send anything else (`discipline`).

`PathSender.lean` has one path with packets of its own. Each path here runs as such a path, and
sends the same numbers (`mirrors_of_run`). As there, `queue_offset_` and the traces are left out.
-/

set_option autoImplicit false

namespace MpVideo.V1

/-- The members of `PathSenderV1` that queueing and sending use. -/
structure SharedPath where
  firstPacket : Bool := true
  sendingQueue : List Nat := []
  resendingQueue : List Nat := []
  idDelayMap : SortedMap UInt32 UInt32 := .empty
  seqIdMap : SortedMap UInt64 UInt32 := .empty
  seqDelayMap : SortedMap UInt64 Int32 := .empty
  seq : UInt64 := 1
  pendingBytes : UInt32 := 0

/-- The packets, and the paths that send them. -/
structure SharedPaths where
  packets : Nat → VideoPacketWrapper
  paths : Nat → SharedPath

/-- What a path sends: the sequence number, and the packet from a queue. -/
inductive Transmission where
  | stream (seq : UInt64) (isRetrans : Bool) (object : Nat)
  | padding (seq : UInt64)

/-- What happens to a path. -/
inductive SharedEvent where
  | onVideoPacket (path : Nat) (now packetId : UInt32) (object : Nat) (isRetrans : Bool)
  /-- The pacer lets a packet go or not, and the controller asks for a probe or not. -/
  | processVideoPacket (path : Nat) (now : UInt32) (maySend shouldProbe : Bool)

namespace SharedPath

/-- The queue of retransmissions, or that of first transmissions. -/
def queue (path : SharedPath) (isRetrans : Bool) : List Nat :=
  if isRetrans then path.resendingQueue else path.sendingQueue

/-- `OnVideoPacket` of a packet of this size. -/
def enqueue (now packetId : UInt32) (object : Nat) (size : UInt32) (isRetrans : Bool)
    (path : SharedPath) : SharedPath :=
  { path with
    sendingQueue := if isRetrans then path.sendingQueue else path.sendingQueue ++ [object]
    resendingQueue := if isRetrans then path.resendingQueue ++ [object] else path.resendingQueue
    pendingBytes := path.pendingBytes + size
    idDelayMap := path.idDelayMap.insert packetId now
    firstPacket := false }

/-- The front of a queue leaves, and its size is no longer pending. -/
def dequeue (rest : List Nat) (size : UInt32) (isRetrans : Bool) (path : SharedPath) :
    SharedPath :=
  { path with
    sendingQueue := if isRetrans then path.sendingQueue else rest
    resendingQueue := if isRetrans then rest else path.resendingQueue
    pendingBytes := path.pendingBytes - size }

/-- The next sequence number is taken, for a packet with this id. -/
def number (now packetId : UInt32) (path : SharedPath) : SharedPath :=
  { path with
    seq := path.seq + 1
    seqDelayMap := path.seqDelayMap.insert path.seq now.toInt32
    seqIdMap := path.seqIdMap.insert path.seq packetId }

/-- The number of entries in both queues. -/
def waiting (path : SharedPath) : Nat := path.resendingQueue.length + path.sendingQueue.length

/-- What the packets in both queues weigh. -/
def waitingBytes (path : SharedPath) (sizes : Nat → UInt32) : Nat :=
  ((path.resendingQueue ++ path.sendingQueue).map fun object => (sizes object).toNat).sum

end SharedPath

namespace SharedPaths

/-- `OnVideoPacket`. -/
def onVideoPacket (p : Nat) (now packetId : UInt32) (object : Nat) (isRetrans : Bool)
    (s : SharedPaths) : SharedPaths where
  packets := Function.update s.packets object ((s.packets object).setEnqueueTime now)
  paths := Function.update s.paths p
    ((s.paths p).enqueue now packetId object (s.packets object).payloadSize isRetrans)

/-- `SendPaddingPacket`. The id zero stands for no packet id. -/
def sendPaddingPacket (p : Nat) (now : UInt32) (s : SharedPaths) : SharedPaths × Transmission :=
  ({ s with paths := Function.update s.paths p ((s.paths p).number now 0) },
    .padding (s.paths p).seq)

/-- `SendStreamPacket`, from one of the queues. An empty queue is undefined, and so is a packet
that cannot be written (`none`). Otherwise `Serialize` returns the payload size. -/
def sendStreamPacket (quic : QuicData) (p : Nat) (now : UInt32) (isRetrans : Bool)
    (s : SharedPaths) : Option (SharedPaths × Transmission) :=
  match (s.paths p).queue isRetrans with
  | [] => none
  | object :: rest =>
      match (s.packets object).serialize quic maxBufSize now with
      | (none, _) => none
      | (some _, packet) =>
          let path := (s.paths p).dequeue rest packet.payloadSize isRetrans
          some (⟨Function.update s.packets object packet,
              Function.update s.paths p (path.number now packet.packetId)⟩,
            .stream (s.paths p).seq isRetrans object)

/-- `ProcessVideoPacket`. -/
def processVideoPacket (quic : QuicData) (p : Nat) (now : UInt32) (maySend shouldProbe : Bool)
    (s : SharedPaths) : Option (SharedPaths × List (Nat × Transmission)) :=
  if maySend then
    if (s.paths p).resendingQueue ≠ [] then
      (s.sendStreamPacket quic p now true).map fun (s, sent) => (s, [(p, sent)])
    else if (s.paths p).sendingQueue ≠ [] then
      (s.sendStreamPacket quic p now false).map fun (s, sent) => (s, [(p, sent)])
    else if shouldProbe then
      let (s, sent) := s.sendPaddingPacket p now
      some (s, [(p, sent)])
    else some (s, [])
  else some (s, [])

/-- The paths as a machine. It puts out what is sent, with the path. -/
def machine (quic : QuicData) : Machine SharedPaths SharedEvent (Nat × Transmission) where
  step s
    | .onVideoPacket p now packetId object isRetrans =>
        some (s.onVideoPacket p now packetId object isRetrans, [])
    | .processVideoPacket p now maySend shouldProbe =>
        s.processVideoPacket quic p now maySend shouldProbe

/-- What the packets in both queues of a path weigh. -/
def waitingBytes (s : SharedPaths) (p : Nat) : Nat :=
  (s.paths p).waitingBytes fun object => (s.packets object).payloadSize

end SharedPaths

/-- What a packet is made from: the arguments of its constructor and of `OnNewSegment`. -/
structure NewPacket where
  packetId : UInt32
  refTime : UInt32
  seg : VideoSegment
  now : UInt32

/-- A packet with its segment. -/
def NewPacket.packet (new : NewPacket) : VideoPacketWrapper :=
  VideoPacketWrapper.onNewSegment new.seg new.now
    { packetId := new.packetId, refTime := new.refTime }

/-- Before anything happens, no packet waits. -/
def SharedPaths.fresh (made : Nat → NewPacket) : SharedPaths where
  packets object := (made object).packet
  paths _ := {}

/-! ## Packets -/

/-- A packet carries a segment, and has the id and the size that it was made with. -/
structure VideoPacketWrapper.MadeFrom (new : NewPacket) (packet : VideoPacketWrapper) : Prop where
  segment : packet.segment.isSome
  packetId : packet.packetId = new.packetId
  payloadSize : packet.payloadSize = new.packet.payloadSize

/-- A packet fits into the buffer. -/
theorem NewPacket.payloadSize_le (new : NewPacket) : new.packet.payloadSize ≤ maxBufSize := by
  have bounded : new.seg.data.size ≤ 1000 := new.seg.data.bounded
  change videoSegmentHeaderSize + UInt32.ofNat new.seg.data.size ≤ maxBufSize
  rw [UInt32.le_iff_toNat_le, UInt32.toNat_add, UInt32.toNat_ofNat']
  change (15 + _) % _ ≤ 1400
  omega

namespace VideoPacketWrapper

variable {new : NewPacket} {packet : VideoPacketWrapper}

theorem MadeFrom.setEnqueueTime (intact : packet.MadeFrom new) (now : UInt32) :
    (packet.setEnqueueTime now).MadeFrom new :=
  ⟨intact.segment, intact.packetId, intact.payloadSize⟩

/-- A packet that was made is written, and stays what it is. -/
theorem MadeFrom.serialize (intact : packet.MadeFrom new) (quic : QuicData) (now : UInt32) :
    ∃ buf after, packet.serialize quic maxBufSize now = (some buf, after) ∧
      after.MadeFrom new := by
  obtain ⟨segment, carried⟩ := Option.isSome_iff_exists.mp intact.segment
  have fits : ¬ packet.payloadSize > maxBufSize :=
    UInt32.not_lt.mpr (intact.payloadSize ▸ new.payloadSize_le)
  simp only [VideoPacketWrapper.serialize, carried, if_neg fits]
  exact ⟨_, _, rfl, rfl, intact.packetId, intact.payloadSize⟩

end VideoPacketWrapper

/-! ## What a path sends -/

/-- The number that is sent. -/
def Transmission.seq : Transmission → UInt64
  | .stream seq _ _ => seq
  | .padding seq => seq

/-- The packet is from the queue of retransmissions. -/
def Transmission.isRetrans : Transmission → Bool
  | .stream _ isRetrans _ => isRetrans
  | .padding _ => false

/-- The packets that are sent from one of the queues. -/
def transmitted (isRetrans : Bool) (sent : List Transmission) : List Nat :=
  sent.filterMap fun
    | .stream _ other object => if other = isRetrans then some object else none
    | .padding _ => none

/-- What one path sends. -/
def sentOn (p : Nat) (out : List (Nat × Transmission)) : List Transmission :=
  out.filterMap fun (q, sent) => if q = p then some sent else none

/-- The packets that enter one of the queues of a path. -/
def enqueued (p : Nat) (isRetrans : Bool) (events : List SharedEvent) : List Nat :=
  events.filterMap fun
    | .onVideoPacket q _ _ object other =>
        if q = p ∧ other = isRetrans then some object else none
    | .processVideoPacket .. => none

theorem transmitted_append (isRetrans : Bool) (first second : List Transmission) :
    transmitted isRetrans (first ++ second) =
      transmitted isRetrans first ++ transmitted isRetrans second :=
  List.filterMap_append

theorem sentOn_append (p : Nat) (first second : List (Nat × Transmission)) :
    sentOn p (first ++ second) = sentOn p first ++ sentOn p second :=
  List.filterMap_append

theorem enqueued_append (p : Nat) (isRetrans : Bool) (first second : List SharedEvent) :
    enqueued p isRetrans (first ++ second) =
      enqueued p isRetrans first ++ enqueued p isRetrans second :=
  List.filterMap_append

theorem enqueued_onVideoPacket (p : Nat) (isRetrans : Bool) (q : Nat) (now packetId : UInt32)
    (object : Nat) (other : Bool) :
    enqueued p isRetrans [.onVideoPacket q now packetId object other] =
      if q = p ∧ other = isRetrans then [object] else [] := by
  simp only [enqueued, List.filterMap_cons, List.filterMap_nil]
  split_ifs <;> rfl

theorem sentOn_singleton (p q : Nat) (sent : Transmission) :
    sentOn p [(q, sent)] = if q = p then [sent] else [] := by
  simp only [sentOn, List.filterMap_cons, List.filterMap_nil]
  split_ifs <;> rfl

namespace SharedPath

/-- A path gets from one state to another: what waits and what enters a queue is what is sent
from it and what waits then, and what is sent is counted. -/
structure Follows (path : SharedPath) (entries : Bool → List Nat) (sent : List Transmission)
    (next : SharedPath) : Prop where
  fifo : ∀ isRetrans, path.queue isRetrans ++ entries isRetrans =
    transmitted isRetrans sent ++ next.queue isRetrans
  numbered : sent.map Transmission.seq =
    (List.range sent.length).map fun i => path.seq + UInt64.ofNat i
  seq : next.seq = path.seq + UInt64.ofNat sent.length

variable {path middle next : SharedPath} {entries more : Bool → List Nat}
  {sent later : List Transmission} {sizes : Nat → UInt32}

theorem Follows.refl (path : SharedPath) : path.Follows (fun _ => []) [] path where
  fifo _ := List.append_nil _
  numbered := rfl
  seq := (UInt64.add_zero _).symm

theorem Follows.trans (first : path.Follows entries sent middle)
    (second : middle.Follows more later next) :
    path.Follows (fun isRetrans => entries isRetrans ++ more isRetrans) (sent ++ later) next where
  fifo isRetrans := by
    rw [← List.append_assoc, first.fifo, List.append_assoc, second.fifo, transmitted_append,
      List.append_assoc]
  numbered := by
    rw [List.map_append, first.numbered, second.numbered, List.length_append, List.range_add,
      List.map_append, List.map_map]
    refine congrArg _ (List.map_congr_left fun i _ => ?_)
    rw [first.seq, Function.comp_apply, UInt64.ofNat_add, UInt64.add_assoc]
  seq := by
    rw [second.seq, first.seq, List.length_append, UInt64.ofNat_add, UInt64.add_assoc]

theorem follows_enqueue (now packetId : UInt32) (object : Nat) (size : UInt32) (isRetrans : Bool)
    (path : SharedPath) :
    path.Follows (fun other => if isRetrans = other then [object] else []) []
      (path.enqueue now packetId object size isRetrans) where
  fifo other := by
    cases isRetrans <;> cases other <;> simp [queue, enqueue, transmitted]
  numbered := rfl
  seq := (UInt64.add_zero _).symm

/-- The front of a queue is sent. -/
theorem follows_dequeue {isRetrans : Bool} {object : Nat} {rest : List Nat}
    (front : path.queue isRetrans = object :: rest) (size now packetId : UInt32) :
    path.Follows (fun _ => []) [.stream path.seq isRetrans object]
      ((path.dequeue rest size isRetrans).number now packetId) where
  fifo other := by
    cases isRetrans <;> cases other <;>
      simp_all [queue, dequeue, number, transmitted]
  numbered := congrArg (fun seq => [seq]) (UInt64.add_zero _).symm
  seq := rfl

theorem follows_padding (now : UInt32) (path : SharedPath) :
    path.Follows (fun _ => []) [.padding path.seq] (path.number now 0) where
  fifo _ := List.append_nil _
  numbered := congrArg (fun seq => [seq]) (UInt64.add_zero _).symm
  seq := rfl

/-! ## What is pending -/

theorem waiting_eq_zero : path.waiting = 0 ↔ ∀ isRetrans, path.queue isRetrans = [] := by
  rw [waiting, Nat.add_eq_zero_iff, List.length_eq_zero_iff, List.length_eq_zero_iff,
    Bool.forall_bool, and_comm]
  rfl

/-- `pending_bytes_` is what waits. -/
def Accounted (sizes : Nat → UInt32) (path : SharedPath) : Prop :=
  path.pendingBytes = UInt32.ofNat (path.waitingBytes sizes)

theorem waitingBytes_enqueue (sizes : Nat → UInt32) (now packetId : UInt32) (object : Nat)
    (size : UInt32) (isRetrans : Bool) (path : SharedPath) :
    (path.enqueue now packetId object size isRetrans).waitingBytes sizes =
      path.waitingBytes sizes + (sizes object).toNat := by
  cases isRetrans <;>
    simp only [waitingBytes, enqueue, Bool.false_eq_true, if_true, if_false, List.map_append,
      List.sum_append, List.map_singleton, List.sum_singleton] <;>
    omega

theorem Accounted.enqueue (accounted : path.Accounted sizes) (now packetId : UInt32)
    (object : Nat) (isRetrans : Bool) :
    (path.enqueue now packetId object (sizes object) isRetrans).Accounted sizes := by
  rw [Accounted, waitingBytes_enqueue, UInt32.ofNat_add, UInt32.ofNat_toNat, ← accounted]
  rfl

theorem Accounted.dequeue (accounted : path.Accounted sizes) {isRetrans : Bool} {object : Nat}
    {rest : List Nat} (front : path.queue isRetrans = object :: rest) :
    (path.dequeue rest (sizes object) isRetrans).Accounted sizes := by
  have shrunk : path.waitingBytes sizes =
      (path.dequeue rest (sizes object) isRetrans).waitingBytes sizes + (sizes object).toNat := by
    cases isRetrans <;>
      simp only [queue, Bool.false_eq_true, if_true, if_false] at front <;>
      simp only [waitingBytes, SharedPath.dequeue, Bool.false_eq_true, if_true, if_false, front,
        List.map_append, List.map_cons, List.sum_append, List.sum_cons] <;>
      omega
  rw [Accounted, shrunk, UInt32.ofNat_add, UInt32.ofNat_toNat] at accounted
  change path.pendingBytes - sizes object = _
  rw [accounted, UInt32.add_sub_cancel]

end SharedPath

namespace SharedPaths

variable {quic : QuicData} {made : Nat → NewPacket} {s : SharedPaths}

/-! ## Steps -/

/-- The packets are what they were made, and what waits is accounted for. -/
structure Kept (made : Nat → NewPacket) (s : SharedPaths) : Prop where
  intact : ∀ object, (s.packets object).MadeFrom (made object)
  accounted : ∀ p, (s.paths p).Accounted fun object => (made object).packet.payloadSize

theorem kept_fresh (made : Nat → NewPacket) : (fresh made).Kept made where
  intact _ := ⟨rfl, rfl, rfl⟩
  accounted _ := rfl

/-- What `ProcessVideoPacket` does. -/
theorem processVideoPacket_cases (quic : QuicData) (p : Nat) (now : UInt32)
    (maySend shouldProbe : Bool) (s : SharedPaths) :
    (s.processVideoPacket quic p now maySend shouldProbe = some (s, []) ∧
      (maySend = true → ∀ isRetrans, (s.paths p).queue isRetrans = [])) ∨
    (∃ isRetrans object rest, (s.paths p).queue isRetrans = object :: rest ∧
      (isRetrans = false → (s.paths p).resendingQueue = []) ∧
      s.processVideoPacket quic p now maySend shouldProbe =
        (s.sendStreamPacket quic p now isRetrans).map fun (s, sent) => (s, [(p, sent)])) ∨
    ((∀ isRetrans, (s.paths p).queue isRetrans = []) ∧
      s.processVideoPacket quic p now maySend shouldProbe =
        some ((s.sendPaddingPacket p now).1, [(p, .padding (s.paths p).seq)])) := by
  cases maySend with
  | false => exact .inl ⟨rfl, fun set => absurd set Bool.false_ne_true⟩
  | true =>
      simp only [processVideoPacket, if_true]
      cases again : (s.paths p).resendingQueue with
      | cons object rest => exact .inr (.inl ⟨true, object, rest, again, by simp, by simp⟩)
      | nil =>
          cases first : (s.paths p).sendingQueue with
          | cons object rest => exact .inr (.inl ⟨false, object, rest, first, by simp, by simp⟩)
          | nil =>
              have empty : ∀ isRetrans, (s.paths p).queue isRetrans = [] := by
                intro isRetrans
                cases isRetrans
                · exact first
                · exact again
              cases shouldProbe with
              | false => exact .inl ⟨by simp, fun _ => empty⟩
              | true => exact .inr (.inr ⟨empty, by simp [sendPaddingPacket]⟩)

/-- The front of a queue is sent. -/
theorem Kept.sendStreamPacket (kept : s.Kept made) (quic : QuicData) {p : Nat} {isRetrans : Bool}
    {object : Nat} {rest : List Nat} (front : (s.paths p).queue isRetrans = object :: rest)
    (now : UInt32) :
    ∃ next, s.sendStreamPacket quic p now isRetrans =
        some (next, .stream (s.paths p).seq isRetrans object) ∧ next.Kept made ∧
      next.paths = Function.update s.paths p
        (((s.paths p).dequeue rest (made object).packet.payloadSize isRetrans).number now
          (made object).packetId) := by
  obtain ⟨buf, after, written, intact⟩ := (kept.intact object).serialize quic now
  refine ⟨⟨Function.update s.packets object after, Function.update s.paths p _⟩, ?_, ?_, rfl⟩
  · simp only [SharedPaths.sendStreamPacket, front, written, intact.payloadSize, intact.packetId]
  · exact {
      intact := (Function.forall_update_iff s.packets
        fun object packet => packet.MadeFrom (made object)).mpr
          ⟨intact, fun other _ => kept.intact other⟩
      accounted := (Function.forall_update_iff s.paths fun _ path => path.Accounted _).mpr
        ⟨(kept.accounted p).dequeue front, fun q _ => kept.accounted q⟩ }

/-- A path changes, and the others stay. -/
theorem follows_update {p : Nat} {path : SharedPath} {events : List SharedEvent}
    {out : List (Nat × Transmission)}
    (own : (s.paths p).Follows (fun isRetrans => enqueued p isRetrans events) (sentOn p out) path)
    (others : ∀ q, q ≠ p → (∀ isRetrans, enqueued q isRetrans events = []) ∧ sentOn q out = [])
    (q : Nat) :
    (s.paths q).Follows (fun isRetrans => enqueued q isRetrans events) (sentOn q out)
      (Function.update s.paths p path q) := by
  rcases eq_or_ne q p with rfl | differ
  · rwa [Function.update_self]
  · obtain ⟨entries, sent⟩ := others q differ
    rw [Function.update_of_ne differ, sent]
    simp only [entries]
    exact .refl _

/-- **What one step does**: it is defined, and every path gets on. -/
theorem Kept.step (kept : s.Kept made) (quic : QuicData) (event : SharedEvent) :
    ∃ next out, (machine quic).step s event = some (next, out) ∧ next.Kept made ∧
      ∀ q, (s.paths q).Follows (fun isRetrans => enqueued q isRetrans [event]) (sentOn q out)
        (next.paths q) := by
  cases event with
  | onVideoPacket p now packetId object isRetrans =>
      refine ⟨_, _, rfl, ⟨?_, ?_⟩, ?_⟩
      · exact (Function.forall_update_iff s.packets
          fun object packet => packet.MadeFrom (made object)).mpr
            ⟨(kept.intact object).setEnqueueTime now, fun other _ => kept.intact other⟩
      · refine (Function.forall_update_iff s.paths fun _ path => path.Accounted _).mpr
          ⟨?_, fun q _ => kept.accounted q⟩
        rw [(kept.intact object).payloadSize]
        exact (kept.accounted p).enqueue now packetId object isRetrans
      · refine follows_update ?_ fun q differ => ⟨fun other => ?_, rfl⟩
        · simp only [enqueued_onVideoPacket, true_and]
          exact SharedPath.follows_enqueue ..
        · rw [enqueued_onVideoPacket, if_neg fun both => differ both.1.symm]
  | processVideoPacket p now maySend shouldProbe =>
      have alone : ∀ sent q, q ≠ p → (∀ isRetrans, enqueued q isRetrans
          [.processVideoPacket p now maySend shouldProbe] = []) ∧ sentOn q [(p, sent)] = [] :=
        fun sent q differ => ⟨fun _ => rfl, by rw [sentOn_singleton, if_neg differ.symm]⟩
      rcases processVideoPacket_cases quic p now maySend shouldProbe s with
        ⟨idle, -⟩ | ⟨isRetrans, object, rest, front, -, sends⟩ | ⟨-, pads⟩
      · exact ⟨s, [], idle, kept, fun q => .refl _⟩
      · obtain ⟨next, sent, after, paths⟩ := kept.sendStreamPacket quic front now
        refine ⟨next, _, sends.trans (by rw [sent]; rfl), after, ?_⟩
        rw [paths]
        refine follows_update ?_ (alone _)
        rw [sentOn_singleton, if_pos rfl]
        exact SharedPath.follows_dequeue front ..
      · refine ⟨_, _, pads, ⟨kept.intact, ?_⟩, ?_⟩
        · exact (Function.forall_update_iff s.paths fun _ path => path.Accounted _).mpr
            ⟨kept.accounted p, fun q _ => kept.accounted q⟩
        · refine follows_update ?_ (alone _)
          rw [sentOn_singleton, if_pos rfl]
          exact SharedPath.follows_padding now _

/-- Only when nothing waits to be sent again, something else is sent. -/
theorem Kept.first_after_again (kept : s.Kept made) {event : SharedEvent} {next : SharedPaths}
    {out : List (Nat × Transmission)} (stepped : (machine quic).step s event = some (next, out))
    {p : Nat} {sent : Transmission} (member : (p, sent) ∈ out) (other : sent.isRetrans = false) :
    (s.paths p).resendingQueue = [] := by
  cases event with
  | onVideoPacket =>
      obtain ⟨-, rfl⟩ := Prod.mk.inj (Option.some.inj stepped)
      cases member
  | processVideoPacket q now maySend shouldProbe =>
      rcases processVideoPacket_cases quic q now maySend shouldProbe s with
        ⟨idle, -⟩ | ⟨isRetrans, object, rest, front, again, sends⟩ | ⟨empty, pads⟩
      · obtain ⟨-, rfl⟩ := Prod.mk.inj (Option.some.inj (idle.symm.trans stepped))
        cases member
      · obtain ⟨after, transmits, -⟩ := kept.sendStreamPacket quic front now
        rw [transmits] at sends
        obtain ⟨-, rfl⟩ := Prod.mk.inj (Option.some.inj (sends.symm.trans stepped))
        obtain ⟨rfl, rfl⟩ := Prod.mk.inj (List.mem_singleton.mp member)
        exact again other
      · obtain ⟨-, rfl⟩ := Prod.mk.inj (Option.some.inj (pads.symm.trans stepped))
        obtain ⟨rfl, rfl⟩ := Prod.mk.inj (List.mem_singleton.mp member)
        exact empty true

/-! ## Runs -/

/-- **A run is defined**, and every path gets on. -/
theorem Kept.run (kept : s.Kept made) (quic : QuicData) (events : List SharedEvent) :
    ∃ last out, (machine quic).run s events = some (last, out) ∧ last.Kept made ∧
      ∀ q, (s.paths q).Follows (fun isRetrans => enqueued q isRetrans events) (sentOn q out)
        (last.paths q) := by
  induction events generalizing s with
  | nil => exact ⟨s, [], rfl, kept, fun q => .refl _⟩
  | cons event rest ih =>
      obtain ⟨next, first, stepped, keptNext, one⟩ := kept.step quic event
      obtain ⟨last, more, onwards, keptLast, others⟩ := ih keptNext
      refine ⟨last, first ++ more,
        Machine.run_cons.mpr ⟨next, first, more, stepped, onwards, rfl⟩, keptLast, fun q => ?_⟩
      simp only [sentOn_append, ← List.singleton_append (l := rest), enqueued_append]
      exact (one q).trans (others q)

/-- The pacer lets packets of a path go, at these times. -/
def grants (p : Nat) (answers : List (UInt32 × Bool)) : List SharedEvent :=
  answers.map fun (now, shouldProbe) => .processVideoPacket p now true shouldProbe

theorem enqueued_grants (p q : Nat) (isRetrans : Bool) (answers : List (UInt32 × Bool)) :
    enqueued p isRetrans (grants q answers) = [] := by
  rw [enqueued, grants, List.filterMap_map]
  exact List.filterMap_eq_nil_iff.mpr fun _ _ => rfl

/-- One entry leaves. -/
theorem Kept.grant (kept : s.Kept made) {p : Nat} {now : UInt32} {shouldProbe : Bool}
    {next : SharedPaths} {out : List (Nat × Transmission)}
    (stepped : s.processVideoPacket quic p now true shouldProbe = some (next, out)) :
    (next.paths p).waiting = (s.paths p).waiting - 1 := by
  rcases processVideoPacket_cases quic p now true shouldProbe s with
    ⟨idle, empty⟩ | ⟨isRetrans, object, rest, front, -, sends⟩ | ⟨empty, pads⟩
  · obtain ⟨rfl, -⟩ := Prod.mk.inj (Option.some.inj (idle.symm.trans stepped))
    rw [SharedPath.waiting_eq_zero.mpr (empty rfl)]
  · obtain ⟨after, transmits, -, paths⟩ := kept.sendStreamPacket quic front now
    rw [transmits] at sends
    obtain ⟨rfl, -⟩ := Prod.mk.inj (Option.some.inj (sends.symm.trans stepped))
    rw [paths, Function.update_self]
    cases isRetrans with
    | false =>
        have waits : (s.paths p).sendingQueue = object :: rest := front
        simp [SharedPath.waiting, SharedPath.number, SharedPath.dequeue, waits]
    | true =>
        have waits : (s.paths p).resendingQueue = object :: rest := front
        simp only [SharedPath.waiting, SharedPath.number, SharedPath.dequeue, waits, if_true,
          List.length_cons]
        omega
  · obtain ⟨rfl, -⟩ := Prod.mk.inj (Option.some.inj (pads.symm.trans stepped))
    change (Function.update s.paths p _ p).waiting = _
    rw [Function.update_self]
    change (s.paths p).waiting = _
    rw [SharedPath.waiting_eq_zero.mpr empty]

/-- **As many grants as there are entries empty both queues.** -/
theorem Kept.drain (kept : s.Kept made) (quic : QuicData) {p : Nat}
    {answers : List (UInt32 × Bool)} (enough : (s.paths p).waiting ≤ answers.length) :
    ∃ last out, (machine quic).run s (grants p answers) = some (last, out) ∧
      (last.paths p).waiting = 0 := by
  induction answers generalizing s with
  | nil => exact ⟨s, [], rfl, Nat.le_zero.mp enough⟩
  | cons answer rest ih =>
      obtain ⟨next, first, stepped, keptNext, -⟩ :=
        kept.step quic (.processVideoPacket p answer.1 true answer.2)
      have fewer := kept.grant stepped
      rw [List.length_cons] at enough
      obtain ⟨last, more, onwards, empty⟩ := ih keptNext (by omega)
      exact ⟨last, first ++ more,
        Machine.run_cons.mpr ⟨next, first, more, stepped, onwards, rfl⟩, empty⟩

/-! ## The discipline -/

/-- The queue discipline of a path after a run. -/
structure Disciplined (quic : QuicData) (p : Nat) (events : List SharedEvent)
    (last : SharedPaths) (out : List (Nat × Transmission)) : Prop where
  /-- `pending_bytes_` is what waits. -/
  pending : (last.paths p).pendingBytes.toNat = last.waitingBytes p % 2 ^ 32
  /-- What entered a queue is what was sent from it, in this order, and what still waits. -/
  fifo : ∀ isRetrans, enqueued p isRetrans events =
    transmitted isRetrans (sentOn p out) ++ (last.paths p).queue isRetrans
  numbered : (sentOn p out).map Transmission.seq =
    (List.range (sentOn p out).length).map fun i => UInt64.ofNat (i + 1)
  fresh : (sentOn p out).length ≤ 2 ^ 64 → ((sentOn p out).map Transmission.seq).Nodup
  /-- With as many grants as there are entries, everything that entered is sent. -/
  drained : ∀ answers : List (UInt32 × Bool), (last.paths p).waiting ≤ answers.length →
    ∃ final more, (machine quic).run last (grants p answers) = some (final, more) ∧
      ∀ isRetrans, enqueued p isRetrans events = transmitted isRetrans (sentOn p (out ++ more))

theorem Kept.pending (kept : s.Kept made) (p : Nat) :
    (s.paths p).pendingBytes.toNat = s.waitingBytes p % 2 ^ 32 := by
  have sizes : (fun object => (s.packets object).payloadSize) =
      fun object => (made object).packet.payloadSize :=
    funext fun object => (kept.intact object).payloadSize
  rw [waitingBytes, sizes, kept.accounted p, UInt32.toNat_ofNat']

/-- The numbers of 64 bits are different. -/
theorem nodup_numbers {n : Nat} (few : n ≤ 2 ^ 64) :
    ((List.range n).map fun i => UInt64.ofNat (i + 1)).Nodup := by
  refine List.Nodup.map_on ?_ List.nodup_range
  intro i iBelow j jBelow equal
  have iSmall := List.mem_range.mp iBelow
  have jSmall := List.mem_range.mp jBelow
  have words := congrArg UInt64.toNat equal
  rw [UInt64.toNat_ofNat', UInt64.toNat_ofNat'] at words
  omega

theorem disciplined_of_run {events : List SharedEvent} {last : SharedPaths}
    {out : List (Nat × Transmission)} (kept : last.Kept made) {p : Nat}
    (follows : ((fresh made).paths p).Follows (fun isRetrans => enqueued p isRetrans events)
      (sentOn p out) (last.paths p)) :
    Disciplined quic p events last out := by
  have fifo : ∀ isRetrans, enqueued p isRetrans events =
      transmitted isRetrans (sentOn p out) ++ (last.paths p).queue isRetrans := by
    intro isRetrans
    rw [← follows.fifo]
    cases isRetrans <;> rfl
  have numbered : (sentOn p out).map Transmission.seq =
      (List.range (sentOn p out).length).map fun i => UInt64.ofNat (i + 1) := by
    rw [follows.numbered]
    refine List.map_congr_left fun i _ => ?_
    rw [Nat.add_comm, UInt64.ofNat_add]
    rfl
  refine ⟨kept.pending p, fifo, numbered, fun few => ?_, fun answers enough => ?_⟩
  · rw [numbered]
    exact nodup_numbers few
  · obtain ⟨final, more, ran, empty⟩ := kept.drain quic enough
    obtain ⟨final', more', ran', -, onwards⟩ := kept.run quic (grants p answers)
    obtain ⟨rfl, rfl⟩ := Prod.mk.inj (Option.some.inj (ran'.symm.trans ran))
    refine ⟨final', more', ran, fun isRetrans => ?_⟩
    have all := (follows.trans (onwards p)).fifo isRetrans
    rw [enqueued_grants, List.append_nil, SharedPath.waiting_eq_zero.mp empty isRetrans,
      List.append_nil, ← sentOn_append] at all
    rw [← all]
    cases isRetrans <;> rfl

/-- **The queue discipline.** A run of the paths on packets that were made with their segments
is defined. After it, `pending_bytes_` is what waits, as a number of 32 bits; what entered a
queue was sent once and in order, or waits; what was sent is numbered from 1 on, as numbers of
64 bits. On the way, a first transmission and a padding are sent only when nothing waits to be
sent again. -/
theorem discipline (quic : QuicData) (made : Nat → NewPacket) (events : List SharedEvent) :
    ∃ last out, (machine quic).run (fresh made) events = some (last, out) ∧
      (∀ p, Disciplined quic p events last out) ∧
      ∀ n s event, (machine quic).Before (fresh made) events n s event →
        ∀ next sends, (machine quic).step s event = some (next, sends) →
          ∀ p sent, (p, sent) ∈ sends → sent.isRetrans = false →
            (s.paths p).resendingQueue = [] := by
  obtain ⟨last, out, ran, kept, follows⟩ := (kept_fresh made).run quic events
  refine ⟨last, out, ran, fun p => disciplined_of_run kept (follows p), ?_⟩
  intro n s event before next sends stepped p sent member other
  have keptBefore : s.Kept made := by
    refine Machine.before_invariant (Kept made) ?_ (kept_fresh made) before
    intro s event next out keptBefore stepped
    obtain ⟨next', out', stepped', keptAfter, -⟩ := keptBefore.step quic event
    obtain ⟨rfl, -⟩ := Prod.mk.inj (Option.some.inj (stepped'.symm.trans stepped))
    exact keptAfter
  exact keptBefore.first_after_again stepped member other

/-! ## Paths with packets of their own -/

/-- A path with packets of its own has what a path with shared packets has. -/
structure Mirrors (made : Nat → NewPacket) (path : SharedPath) (own : PathSenderV1) : Prop where
  sending : List.Forall₂ (fun object packet => packet.MadeFrom (made object))
    path.sendingQueue own.sendingQueue
  resending : List.Forall₂ (fun object packet => packet.MadeFrom (made object))
    path.resendingQueue own.resendingQueue
  firstPacket : own.firstPacket = path.firstPacket
  idDelayMap : own.idDelayMap = path.idDelayMap
  seqIdMap : own.seqIdMap = path.seqIdMap
  seqDelayMap : own.seqDelayMap = path.seqDelayMap
  seq : own.seq = path.seq
  pendingBytes : own.pendingBytes = path.pendingBytes

variable {path : SharedPath} {own : PathSenderV1}

theorem mirrors_unused (made : Nat → NewPacket) : Mirrors made {} {} :=
  ⟨.nil, .nil, rfl, rfl, rfl, rfl, rfl, rfl⟩

theorem Mirrors.onVideoPacket (mirrors : Mirrors made path own) {object : Nat}
    {packet : VideoPacketWrapper} (intact : packet.MadeFrom (made object)) (now packetId : UInt32)
    (isRetrans : Bool) :
    Mirrors made (path.enqueue now packetId object packet.payloadSize isRetrans)
      (own.onVideoPacket now packetId packet isRetrans) where
  sending := by
    cases isRetrans
    · exact List.rel_append mirrors.sending (.cons (intact.setEnqueueTime now) .nil)
    · exact mirrors.sending
  resending := by
    cases isRetrans
    · exact mirrors.resending
    · exact List.rel_append mirrors.resending (.cons (intact.setEnqueueTime now) .nil)
  firstPacket := rfl
  idDelayMap := congrArg (·.insert packetId now) mirrors.idDelayMap
  seqIdMap := mirrors.seqIdMap
  seqDelayMap := mirrors.seqDelayMap
  seq := mirrors.seq
  pendingBytes := congrArg (· + packet.payloadSize) mirrors.pendingBytes

theorem Mirrors.number (mirrors : Mirrors made path own) (now packetId : UInt32) :
    Mirrors made (path.number now packetId) (own.number now packetId) where
  sending := mirrors.sending
  resending := mirrors.resending
  firstPacket := mirrors.firstPacket
  idDelayMap := mirrors.idDelayMap
  seqIdMap := by simp only [PathSenderV1.number, SharedPath.number, mirrors.seqIdMap, mirrors.seq]
  seqDelayMap := by
    simp only [PathSenderV1.number, SharedPath.number, mirrors.seqDelayMap, mirrors.seq]
  seq := congrArg (· + 1) mirrors.seq
  pendingBytes := mirrors.pendingBytes

theorem Mirrors.sendStreamPacket (mirrors : Mirrors made path own) (quic : QuicData)
    {isRetrans : Bool} {object : Nat} {rest : List Nat}
    (front : path.queue isRetrans = object :: rest) (now : UInt32) :
    ∃ after, own.sendStreamPacket quic now isRetrans = some (after, (made object).packetId) ∧
      Mirrors made ((path.dequeue rest (made object).packet.payloadSize isRetrans).number now
        (made object).packetId) after := by
  have queues : List.Forall₂ (fun object packet => packet.MadeFrom (made object))
      (object :: rest) (if isRetrans then own.resendingQueue else own.sendingQueue) := by
    rw [← front]
    cases isRetrans
    · exact mirrors.sending
    · exact mirrors.resending
  cases queue : if isRetrans then own.resendingQueue else own.sendingQueue with
  | nil =>
      rw [queue] at queues
      cases queues
  | cons packet others =>
      rw [queue, List.forall₂_cons] at queues
      obtain ⟨intact, tail⟩ := queues
      obtain ⟨buf, written, serialized, -⟩ := intact.serialize quic now
      simp only [PathSenderV1.sendStreamPacket, queue, serialized, intact.packetId,
        intact.payloadSize]
      refine ⟨_, rfl, Mirrors.number ?_ now _⟩
      cases isRetrans
      · exact ⟨tail, mirrors.resending, mirrors.firstPacket, mirrors.idDelayMap,
          mirrors.seqIdMap, mirrors.seqDelayMap, mirrors.seq,
          congrArg (· - (made object).packet.payloadSize) mirrors.pendingBytes⟩
      · exact ⟨mirrors.sending, tail, mirrors.firstPacket, mirrors.idDelayMap,
          mirrors.seqIdMap, mirrors.seqDelayMap, mirrors.seq,
          congrArg (· - (made object).packet.payloadSize) mirrors.pendingBytes⟩

/-- The number that is sent, with the id of the packet that carries it. -/
def record (made : Nat → NewPacket) : Transmission → UInt64 × Option UInt32
  | .stream seq _ object => (seq, some (made object).packetId)
  | .padding seq => (seq, none)

/-- **A step of the paths is a step, or none, of a path with packets of its own.** -/
theorem Kept.mirrors_step (kept : s.Kept made) {p : Nat} {numbered : NumberedPath}
    (mirrors : Mirrors made (s.paths p) numbered.path) {event : SharedEvent} {next : SharedPaths}
    {out : List (Nat × Transmission)}
    (stepped : (machine quic).step s event = some (next, out)) :
    ∃ steps after, (NumberedPath.machine quic).run numbered steps = some (after, []) ∧
      Mirrors made (next.paths p) after.path ∧
      after.sent = ((sentOn p out).map (record made)).reverse ++ numbered.sent := by
  cases event with
  | onVideoPacket q now packetId object isRetrans =>
      obtain ⟨rfl, rfl⟩ := Prod.mk.inj (Option.some.inj stepped)
      simp only [SharedPaths.onVideoPacket]
      rcases eq_or_ne p q with rfl | differ
      · rw [Function.update_self]
        exact ⟨[.onVideoPacket now packetId (s.packets object) isRetrans], _, rfl,
          mirrors.onVideoPacket (kept.intact object) now packetId isRetrans, rfl⟩
      · rw [Function.update_of_ne differ]
        exact ⟨[], numbered, rfl, mirrors, rfl⟩
  | processVideoPacket q now maySend shouldProbe =>
      rcases processVideoPacket_cases quic q now maySend shouldProbe s with
        ⟨idle, -⟩ | ⟨isRetrans, object, rest, front, -, sends⟩ | ⟨-, pads⟩
      · obtain ⟨rfl, rfl⟩ := Prod.mk.inj (Option.some.inj (idle.symm.trans stepped))
        exact ⟨[], numbered, rfl, mirrors, rfl⟩
      · obtain ⟨after, transmits, -, paths⟩ := kept.sendStreamPacket quic front now
        rw [transmits] at sends
        obtain ⟨rfl, rfl⟩ := Prod.mk.inj (Option.some.inj (sends.symm.trans stepped))
        rw [paths, sentOn_singleton]
        rcases eq_or_ne p q with rfl | differ
        · obtain ⟨own, ran, same⟩ := mirrors.sendStreamPacket quic front now
          rw [Function.update_self, if_pos rfl]
          refine ⟨[.sendStreamPacket now isRetrans],
            ⟨own, (numbered.path.seq, some (made object).packetId) :: numbered.sent⟩, ?_, same, ?_⟩
          · simp [Machine.run, NumberedPath.machine, NumberedPath.handle, ran]
          · rw [mirrors.seq]
            rfl
        · rw [Function.update_of_ne differ, if_neg differ.symm]
          exact ⟨[], numbered, rfl, mirrors, rfl⟩
      · obtain ⟨rfl, rfl⟩ := Prod.mk.inj (Option.some.inj (pads.symm.trans stepped))
        simp only [sendPaddingPacket, sentOn_singleton]
        rcases eq_or_ne p q with rfl | differ
        · rw [Function.update_self, if_pos rfl]
          refine ⟨[.sendPaddingPacket now], _, rfl, mirrors.number now 0, ?_⟩
          rw [mirrors.seq]
          rfl
        · rw [Function.update_of_ne differ, if_neg differ.symm]
          exact ⟨[], numbered, rfl, mirrors, rfl⟩

/-- **Each path of a run runs as a path with packets of its own**, and sends the same numbers. -/
theorem mirrors_of_run (p : Nat) {events : List SharedEvent} {last : SharedPaths}
    {out : List (Nat × Transmission)}
    (ran : (machine quic).run (fresh made) events = some (last, out)) :
    ∃ steps numbered, (NumberedPath.machine quic).run {} steps = some (numbered, []) ∧
      Mirrors made (last.paths p) numbered.path ∧
      numbered.sent = ((sentOn p out).map (record made)).reverse := by
  have all : last.Kept made ∧ ∃ steps numbered,
      (NumberedPath.machine quic).run {} steps = some (numbered, []) ∧
        Mirrors made (last.paths p) numbered.path ∧
        numbered.sent = ((sentOn p ([] ++ out)).map (record made)).reverse := by
    refine Machine.run_log_invariant
      (fun s past => s.Kept made ∧ ∃ steps numbered,
        (NumberedPath.machine quic).run {} steps = some (numbered, []) ∧
          Mirrors made (s.paths p) numbered.path ∧
          numbered.sent = ((sentOn p past).map (record made)).reverse)
      ?_ [] ⟨kept_fresh made, [], {}, rfl, mirrors_unused made, rfl⟩ ran
    rintro s past event next sends ⟨kept, steps, numbered, before, mirrors, sent⟩ stepped
    obtain ⟨next', sends', stepped', keptNext, -⟩ := kept.step quic event
    obtain ⟨rfl, rfl⟩ := Prod.mk.inj (Option.some.inj (stepped'.symm.trans stepped))
    obtain ⟨more, after, onwards, same, log⟩ := kept.mirrors_step mirrors stepped
    refine ⟨keptNext, steps ++ more, after, Machine.run_trans before onwards, same, ?_⟩
    rw [log, sent, sentOn_append, List.map_append, List.reverse_append]
  exact all.2

/-! ## A counter of 32 bits -/

/-- A packet enters the queue of a path again and again. -/
theorem Kept.flood (kept : s.Kept made) (quic : QuicData) (n : Nat) :
    ∃ last, (machine quic).run s (List.replicate n (.onVideoPacket 0 0 1 0 false)) =
        some (last, []) ∧ last.Kept made ∧
      (last.paths 0).waitingBytes (fun object => (made object).packet.payloadSize) =
        (s.paths 0).waitingBytes (fun object => (made object).packet.payloadSize) +
          n * (made 0).packet.payloadSize.toNat := by
  induction n generalizing s with
  | zero => exact ⟨s, rfl, kept, by omega⟩
  | succ n ih =>
      obtain ⟨next, out, stepped, keptNext, -⟩ := kept.step quic (.onVideoPacket 0 0 1 0 false)
      obtain ⟨rfl, rfl⟩ := Prod.mk.inj (Option.some.inj stepped)
      obtain ⟨last, ran, keptLast, bytes⟩ := ih keptNext
      refine ⟨last, Machine.run_cons.mpr ⟨_, _, _, stepped, ran, rfl⟩, keptLast, ?_⟩
      have entered : (s.onVideoPacket 0 0 1 0 false).paths 0 =
          (s.paths 0).enqueue 0 1 0 (s.packets 0).payloadSize false := by
        simp only [onVideoPacket, Function.update_self]
      rw [bytes, entered, SharedPath.waitingBytes_enqueue, Nat.succ_mul]
      omega

/-- A packet with a full segment. -/
def fullPacket : NewPacket where
  packetId := 1
  refTime := 0
  seg := ⟨1, 0, 0, 1, 0, 0, .zeros videoPacketSize⟩
  now := 0

theorem fullPacket_payloadSize : fullPacket.packet.payloadSize = 1015 := by
  change videoSegmentHeaderSize + UInt32.ofNat (Wire.Payload.zeros videoPacketSize).size = 1015
  rw [Wire.Payload.size_zeros]
  rfl

/-- A packet that waits 4240000 times on a path weighs more than `pending_bytes_` can say. -/
theorem pendingBytes_wraps :
    ∃ last, (machine networkOrder).run (fresh fun _ => fullPacket)
        (List.replicate 4240000 (.onVideoPacket 0 0 1 0 false)) = some (last, []) ∧
      (last.paths 0).pendingBytes.toNat ≠ last.waitingBytes 0 := by
  obtain ⟨last, ran, kept, bytes⟩ :=
    (kept_fresh fun _ => fullPacket).flood networkOrder 4240000
  refine ⟨last, ran, fun same => ?_⟩
  have few := UInt32.toNat_lt (last.paths 0).pendingBytes
  have sizes : (fun object => (last.packets object).payloadSize) =
      fun _ => fullPacket.packet.payloadSize :=
    funext fun object => (kept.intact object).payloadSize
  rw [same, waitingBytes, sizes, bytes, fullPacket_payloadSize] at few
  change 0 + 4240000 * 1015 < _ at few
  omega

end SharedPaths

end MpVideo.V1
