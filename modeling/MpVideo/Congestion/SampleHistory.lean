import MpVideo.Congestion.Sampler
import MpVideo.Lib.Machine

/-!
# What the samples of the sampler measure

The sampler keeps running totals, and every packet keeps what they were when it was sent.
Beside it stands the history of the connection: the packets that were sent, acknowledged
and lost. In every run the totals are sums over the history, and the snapshot of a packet
is about the history up to its sending (`Accounts`).

So a sample measures the history (`sample_measures`): on the side of the sender it has the
bytes from the reference packet up to the acknowledged one, on the side of the receiver the
bytes that were acknowledged since that one was sent. Both are 64-bit numbers, and they are
the sums themselves while no more than 64 bits of bytes were sent.
-/

set_option autoImplicit false

namespace MpVideo.Congestion

/-- A packet as it was sent. -/
structure SentPacket where
  number : UInt64
  size : UInt64
  time : QuicTime
  deriving DecidableEq

/-- What happened to a packet. -/
inductive Occurrence where
  | sent (packet : SentPacket)
  | acked (time : QuicTime) (packet : SentPacket)
  | lost (packet : SentPacket)
  deriving DecidableEq

/-- The history of a connection, the latest occurrence first. -/
abbrev History := List Occurrence

namespace History

/-- The packets that were sent. -/
def sentPackets : History → List SentPacket
  | [] => []
  | .sent packet :: past => packet :: sentPackets past
  | .acked _ _ :: past => sentPackets past
  | .lost _ :: past => sentPackets past

/-- The packets that were sent, and neither acknowledged nor lost. -/
def outstanding : History → List SentPacket
  | [] => []
  | .sent packet :: past => packet :: outstanding past
  | .acked _ packet :: past => (outstanding past).erase packet
  | .lost packet :: past => (outstanding past).erase packet

/-- The sum of the sizes of some packets. -/
def sizes (packets : List SentPacket) : Nat := (packets.map (·.size.toNat)).sum

/-- The bytes that were sent. -/
def sentBytes (history : History) : Nat := sizes history.sentPackets

/-- The bytes that were acknowledged. -/
def ackedBytes : History → Nat
  | [] => 0
  | .sent _ :: past => ackedBytes past
  | .acked _ packet :: past => packet.size.toNat + ackedBytes past
  | .lost _ :: past => ackedBytes past

/-- The packet of the last acknowledgement or idle restart, and the time of that. A restart
is a packet that is sent while no bytes are outstanding. -/
def reference : History → Option (SentPacket × QuicTime)
  | [] => none
  | .sent packet :: past =>
      if sizes (outstanding past) = 0 then some (packet, packet.time) else reference past
  | .acked time packet :: _ => some (packet, time)
  | .lost _ :: past => reference past

/-- What happened after a packet was sent. -/
def since (packet : SentPacket) (history : History) : History :=
  history.takeWhile fun occurrence => occurrence ≠ .sent packet

/-- What happened until a packet was sent, its sending included. -/
def upTo (packet : SentPacket) (history : History) : History :=
  history.dropWhile fun occurrence => occurrence ≠ .sent packet

end History

/-- A sampler and the history of its connection. -/
structure Sampling where
  sampler : MySampler := {}
  history : History := []

/-- What happens to the sampler. -/
inductive SamplerEvent where
  | onPacketSent (sentTime : QuicTime) (packetNumber bytes bytesInFlight : UInt64)
  | onPacketAcknowledged (ackTime : QuicTime) (packetNumber : UInt64) (roundUpdate : Bool)
  | onPacketLost (packetNumber : UInt64)

namespace Sampling

/-- The outstanding packet with a number. -/
def outstanding? (packetNumber : UInt64) (sampling : Sampling) : Option SentPacket :=
  sampling.history.outstanding.find? fun packet => packet.number = packetNumber

/-- What happens on an event. A packet that is sent has a new number, and `bytes_in_flight`
are the bytes that are outstanding. -/
def handle (sampling : Sampling) : SamplerEvent → Option (Sampling × List Sample)
  | .onPacketSent sentTime packetNumber bytes bytesInFlight =>
      if packetNumber ∉ sampling.history.sentPackets.map SentPacket.number ∧
          bytesInFlight.toNat = History.sizes sampling.history.outstanding then
        some ({
          sampler := sampling.sampler.onPacketSent sentTime packetNumber bytes bytesInFlight
          history := .sent ⟨packetNumber, bytes, sentTime⟩ :: sampling.history }, [])
      else none
  | .onPacketAcknowledged ackTime packetNumber roundUpdate =>
      let (sampler, bw) :=
        sampling.sampler.onPacketAcknowledged ackTime packetNumber roundUpdate
      some ({
        sampler := sampler
        history := ((sampling.outstanding? packetNumber).map (Occurrence.acked ackTime)).toList ++
          sampling.history }, bw.toList)
  | .onPacketLost packetNumber =>
      some ({
        sampler := sampling.sampler.onPacketLost packetNumber
        history := ((sampling.outstanding? packetNumber).map Occurrence.lost).toList ++
          sampling.history }, [])

/-- The sampler as a machine. -/
def machine : Machine Sampling SamplerEvent Sample := ⟨handle⟩

end Sampling

namespace History

variable {history : History} {packet other : SentPacket} {time : QuicTime}

/-! ## Sums over a history -/

@[simp] theorem sizes_cons (packets : List SentPacket) :
    sizes (packet :: packets) = packet.size.toNat + sizes packets := by
  rw [sizes, List.map_cons, List.sum_cons, sizes]

@[simp] theorem sentPackets_append (first second : History) :
    sentPackets (first ++ second) = sentPackets first ++ sentPackets second := by
  induction first with
  | nil => rfl
  | cons occurrence rest ih =>
      cases occurrence with
      | sent packet => exact congrArg (packet :: ·) ih
      | acked time packet => exact ih
      | lost packet => exact ih

theorem sentBytes_append (first second : History) :
    sentBytes (first ++ second) = sentBytes first + sentBytes second := by
  rw [sentBytes, sentPackets_append, sizes, List.map_append, List.sum_append, sentBytes,
    sentBytes, sizes, sizes]

theorem ackedBytes_append (first second : History) :
    ackedBytes (first ++ second) = ackedBytes first + ackedBytes second := by
  induction first with
  | nil => exact (Nat.zero_add _).symm
  | cons occurrence rest ih =>
      cases occurrence with
      | sent packet => exact ih
      | acked time packet => simp only [List.cons_append, ackedBytes, ih, Nat.add_assoc]
      | lost packet => exact ih

theorem since_append_upTo (packet : SentPacket) (history : History) :
    since packet history ++ upTo packet history = history :=
  List.takeWhile_append_dropWhile

theorem sentBytes_since (packet : SentPacket) (history : History) :
    sentBytes (since packet history) + sentBytes (upTo packet history) = sentBytes history := by
  rw [← sentBytes_append, since_append_upTo]

theorem ackedBytes_since (packet : SentPacket) (history : History) :
    ackedBytes (since packet history) + ackedBytes (upTo packet history) =
      ackedBytes history := by
  rw [← ackedBytes_append, since_append_upTo]

theorem upTo_sent_self (packet : SentPacket) (history : History) :
    upTo packet (.sent packet :: history) = .sent packet :: history := by
  rw [upTo, List.dropWhile_cons_of_neg (by simp)]

theorem upTo_cons_of_ne {occurrence : Occurrence} (differ : occurrence ≠ .sent packet)
    (history : History) : upTo packet (occurrence :: history) = upTo packet history := by
  rw [upTo, List.dropWhile_cons_of_pos (by simpa using differ), upTo]

/-- An acknowledgement belongs to what happened since the packet was sent. -/
theorem since_acked (packet other : SentPacket) (time : QuicTime) (history : History) :
    since packet (.acked time other :: history) = .acked time other :: since packet history := by
  rw [since, List.takeWhile_cons_of_pos (by simp), since]

/-! ## Outstanding packets -/

theorem outstanding_sublist (history : History) :
    List.Sublist history.outstanding history.sentPackets := by
  induction history with
  | nil => exact .slnil
  | cons occurrence past ih =>
      cases occurrence with
      | sent packet => exact ih.cons_cons packet
      | acked time packet => exact List.erase_sublist.trans ih
      | lost packet => exact List.erase_sublist.trans ih

theorem outstanding_nodup (distinct : (history.sentPackets.map SentPacket.number).Nodup) :
    history.outstanding.Nodup :=
  (outstanding_sublist history).nodup (List.Nodup.of_map _ distinct)

theorem sizes_erase {packets : List SentPacket} (member : packet ∈ packets) :
    packet.size.toNat + sizes (packets.erase packet) = sizes packets := by
  rw [← sizes_cons, sizes, sizes]
  exact ((List.perm_cons_erase member).map _).sum_eq.symm

/-- What can have happened: every number is new, and only what is outstanding is
acknowledged. -/
structure WellFormed (history : History) : Prop where
  distinct : (history.sentPackets.map SentPacket.number).Nodup
  referenced : ∀ q time, history.reference = some (q, time) → q ∈ history.sentPackets
  started : history.reference = none → history.outstanding = []
  covered : history.ackedBytes + sizes history.outstanding ≤ history.sentBytes

theorem wellFormed_nil : WellFormed [] where
  distinct := .nil
  referenced := by simp [reference]
  started _ := rfl
  covered := le_rfl

/-- A number belongs to one packet. -/
theorem WellFormed.eq_of_number (wellFormed : history.WellFormed)
    (first : packet ∈ history.outstanding) (second : other ∈ history.outstanding)
    (same : packet.number = other.number) : packet = other :=
  List.inj_on_of_nodup_map wellFormed.distinct
    ((outstanding_sublist history).subset first) ((outstanding_sublist history).subset second)
    same

theorem WellFormed.sent (wellFormed : history.WellFormed)
    (new : packet.number ∉ history.sentPackets.map SentPacket.number) :
    WellFormed (.sent packet :: history) where
  distinct := List.nodup_cons.mpr ⟨new, wellFormed.distinct⟩
  referenced := by
    intro q time found
    rw [reference] at found
    split_ifs at found with idle
    · obtain ⟨rfl, rfl⟩ := Prod.mk.inj (Option.some.inj found)
      exact List.mem_cons_self
    · exact List.mem_cons_of_mem _ (wellFormed.referenced q time found)
  started := by
    intro missing
    rw [reference] at missing
    split_ifs at missing with idle
    exact absurd (by rw [wellFormed.started missing]; rfl) idle
  covered := by
    have covered := wellFormed.covered
    simp only [ackedBytes, outstanding, sentBytes, sentPackets, sizes_cons] at covered ⊢
    omega

theorem WellFormed.acked (wellFormed : history.WellFormed)
    (member : packet ∈ history.outstanding) (time : QuicTime) :
    WellFormed (.acked time packet :: history) where
  distinct := wellFormed.distinct
  referenced := by
    intro q since found
    obtain ⟨rfl, rfl⟩ := Prod.mk.inj (Option.some.inj found)
    exact (outstanding_sublist history).subset member
  started := by simp [reference]
  covered := by
    have covered := wellFormed.covered
    have removed := sizes_erase member
    simp only [ackedBytes, outstanding, sentBytes, sentPackets] at covered ⊢
    omega

theorem WellFormed.lost (wellFormed : history.WellFormed)
    (member : packet ∈ history.outstanding) : WellFormed (.lost packet :: history) where
  distinct := wellFormed.distinct
  referenced := wellFormed.referenced
  started := fun missing => absurd member (by rw [wellFormed.started missing]; simp)
  covered := by
    have covered := wellFormed.covered
    have removed := sizes_erase member
    simp only [ackedBytes, outstanding, sentBytes, sentPackets] at covered ⊢
    omega

end History

/-! ## The totals and the snapshots -/

open History

/-- The totals of a sampler are about the history. -/
structure MySampler.Totals (sampler : MySampler) (history : History) : Prop where
  sent : sampler.totalBytesSent = UInt64.ofNat history.sentBytes
  acked : sampler.totalBytesAcked = UInt64.ofNat history.ackedBytes
  latest : ∀ q time, history.reference = some (q, time) →
    sampler.totalBytesSentAtLastAckedPacket = UInt64.ofNat (history.upTo q).sentBytes ∧
    sampler.lastAckedPacketSentTime = q.time ∧ sampler.lastAckedPacketAckTime = time

/-- A snapshot of the sampler is about the history until the packet was sent. -/
structure PacketState.Records (record : PacketState) (packet : SentPacket)
    (history : History) : Prop where
  sentTime : record.sentTime = packet.time
  size : record.size = packet.size
  sent : record.totalBytesSent = UInt64.ofNat history.sentBytes
  acked : record.totalBytesAckedAtTheLastAckedPacket = UInt64.ofNat history.ackedBytes
  reference : ∃ q time, history.reference = some (q, time) ∧
    record.totalBytesSentAtLastAckedPacket = UInt64.ofNat (history.upTo q).sentBytes ∧
    record.lastAckedPacketSentTime = q.time ∧ record.lastAckedPacketAckTime = time

/-- The snapshots belong to the outstanding packets. -/
structure Snapshots (packetInfos : SortedMap UInt64 PacketState) (history : History) :
    Prop where
  known : ∀ packet ∈ history.outstanding, packet.number ∈ packetInfos.keys
  records : ∀ n record, packetInfos.find? n = some record →
    ∃ packet ∈ history.outstanding, packet.number = n ∧
      record.Records packet (history.upTo packet)

/-- The sampler is about the history. -/
structure Sampling.Accounts (sampling : Sampling) : Prop where
  wellFormed : sampling.history.WellFormed
  totals : sampling.sampler.Totals sampling.history
  snapshots : Snapshots sampling.sampler.packetInfos sampling.history

section

variable {sampler : MySampler} {history : History} {packet : SentPacket}
  {packetInfos : SortedMap UInt64 PacketState}

theorem accounts_fresh : Sampling.Accounts {} where
  wellFormed := wellFormed_nil
  totals := ⟨rfl, rfl, by simp [reference]⟩
  snapshots := ⟨by simp [outstanding], by simp⟩

theorem MySampler.Totals.snapshot (totals : sampler.Totals history)
    (started : history.reference ≠ none) :
    (sampler.snapshot packet.time packet.size).Records packet history := by
  obtain ⟨⟨q, time⟩, found⟩ := Option.ne_none_iff_exists'.mp started
  exact ⟨rfl, rfl, totals.sent, totals.acked, q, time, found, totals.latest q time found⟩

/-- A packet that is no longer outstanding is taken out. -/
theorem Snapshots.erase (snapshots : Snapshots packetInfos history)
    (wellFormed : history.WellFormed) (member : packet ∈ history.outstanding)
    {occurrence : Occurrence} (after : ∀ other, occurrence ≠ .sent other)
    (left : outstanding (occurrence :: history) = history.outstanding.erase packet) :
    Snapshots (packetInfos.erase packet.number) (occurrence :: history) := by
  have nodup := outstanding_nodup wellFormed.distinct
  refine ⟨?_, ?_⟩
  · intro other present
    rw [left, nodup.mem_erase_iff] at present
    refine SortedMap.mem_keys_erase.mpr ⟨snapshots.known other present.2, fun same => ?_⟩
    exact present.1 (wellFormed.eq_of_number present.2 member same)
  · intro n record found
    rw [SortedMap.find?_erase] at found
    split_ifs at found with other
    obtain ⟨owner, present, rfl, records⟩ := snapshots.records n record found
    refine ⟨owner, ?_, rfl, ?_⟩
    · rw [left, nodup.mem_erase_iff]
      exact ⟨fun same => other (congrArg SentPacket.number same), present⟩
    · rwa [upTo_cons_of_ne (after owner)]

/-! ## Steps -/

theorem ofNat_sizes_add (size : UInt64) (n : Nat) :
    UInt64.ofNat (size.toNat + n) = UInt64.ofNat n + size := by
  rw [UInt64.ofNat_add, UInt64.ofNat_toNat, UInt64.add_comm]

/-- Before it leaves its snapshot, a packet that is sent is counted. -/
theorem MySampler.Totals.onPacketSent (totals : sampler.Totals history)
    (wellFormed : history.WellFormed)
    (new : packet.number ∉ history.sentPackets.map SentPacket.number) {bytesInFlight : UInt64}
    (inFlight : bytesInFlight.toNat = sizes history.outstanding) :
    ∃ counted : MySampler, counted.Totals (.sent packet :: history) ∧
      sampler.onPacketSent packet.time packet.number packet.size bytesInFlight =
        { counted with
          packetInfos :=
            sampler.packetInfos.insert packet.number
              (counted.snapshot packet.time packet.size) } := by
  have counts : sampler.totalBytesSent + packet.size =
      UInt64.ofNat (sentBytes (.sent packet :: history)) := by
    rw [sentBytes, sentPackets, sizes_cons, ofNat_sizes_add, totals.sent, sentBytes]
  have restarts : bytesInFlight = 0 ↔ sizes history.outstanding = 0 := by
    rw [← UInt64.toNat_inj, inFlight, UInt64.toNat_zero]
  unfold MySampler.onPacketSent
  split_ifs with idle
  · refine ⟨{ sampler with
      totalBytesSent := sampler.totalBytesSent + packet.size
      lastAckedPacketAckTime := packet.time
      totalBytesSentAtLastAckedPacket := sampler.totalBytesSent + packet.size
      lastAckedPacketSentTime := packet.time }, ⟨counts, totals.acked, ?_⟩, rfl⟩
    intro q time found
    rw [reference, if_pos (restarts.mp idle)] at found
    obtain ⟨rfl, rfl⟩ := Prod.mk.inj (Option.some.inj found)
    exact ⟨by rw [upTo_sent_self]; exact counts, rfl, rfl⟩
  · refine ⟨{ sampler with totalBytesSent := sampler.totalBytesSent + packet.size },
      ⟨counts, totals.acked, ?_⟩, rfl⟩
    intro q time found
    rw [reference, if_neg (mt restarts.mpr idle)] at found
    have older : Occurrence.sent packet ≠ .sent q := fun same =>
      new (Occurrence.sent.inj same ▸
        List.mem_map_of_mem (wellFormed.referenced q time found))
    rw [upTo_cons_of_ne older]
    exact totals.latest q time found

namespace Sampling

variable {sampling : Sampling}

theorem Accounts.onPacketSent (accounts : sampling.Accounts)
    (new : packet.number ∉ sampling.history.sentPackets.map SentPacket.number)
    {bytesInFlight : UInt64}
    (inFlight : bytesInFlight.toNat = sizes sampling.history.outstanding) :
    Accounts ⟨sampling.sampler.onPacketSent packet.time packet.number packet.size bytesInFlight,
      .sent packet :: sampling.history⟩ := by
  have wellFormed := accounts.wellFormed.sent new
  obtain ⟨counted, totals, same⟩ :=
    accounts.totals.onPacketSent accounts.wellFormed new inFlight
  have started : reference (.sent packet :: sampling.history) ≠ none := fun missing =>
    absurd (wellFormed.started missing) (List.cons_ne_nil _ _)
  have absent : ∀ record, sampling.sampler.packetInfos.find? packet.number ≠ some record := by
    intro record found
    obtain ⟨owner, member, number, -⟩ := accounts.snapshots.records _ _ found
    exact new (number ▸ List.mem_map_of_mem
      ((outstanding_sublist sampling.history).subset member))
  rw [same]
  refine ⟨wellFormed, ⟨totals.sent, totals.acked, totals.latest⟩, ?_, ?_⟩
  · intro other member
    rw [SortedMap.mem_keys_insert]
    rcases List.mem_cons.mp member with rfl | older
    · exact .inl rfl
    · exact .inr (accounts.snapshots.known other older)
  · intro n record found
    rw [SortedMap.find?_insert, Option.eq_none_iff_forall_ne_some.mpr absent,
      Option.getD_none] at found
    split_ifs at found with own
    · obtain rfl := Option.some.inj found
      exact ⟨packet, List.mem_cons_self, own.symm, by
        rw [upTo_sent_self]
        exact totals.snapshot started⟩
    · obtain ⟨owner, member, rfl, records⟩ := accounts.snapshots.records n record found
      refine ⟨owner, List.mem_cons_of_mem _ member, rfl, ?_⟩
      rwa [upTo_cons_of_ne]
      rintro ⟨⟩
      exact own rfl

/-- The sampler and the history know the same outstanding packets. -/
theorem Accounts.outstanding?_eq_some (accounts : sampling.Accounts) {n : UInt64} :
    sampling.outstanding? n = some packet ↔
      packet ∈ sampling.history.outstanding ∧ packet.number = n := by
  constructor
  · intro found
    exact ⟨List.mem_of_find?_eq_some found, by simpa using List.find?_some found⟩
  · rintro ⟨member, rfl⟩
    cases found : sampling.outstanding? packet.number with
    | none =>
        have missing := List.find?_eq_none.mp found packet member
        simp at missing
    | some other =>
        have number : other.number = packet.number := by simpa using List.find?_some found
        rw [accounts.wellFormed.eq_of_number (List.mem_of_find?_eq_some found) member number]

theorem Accounts.find?_eq_none_iff (accounts : sampling.Accounts) {n : UInt64} :
    sampling.sampler.packetInfos.find? n = none ↔ sampling.outstanding? n = none := by
  constructor
  · intro unknown
    refine Option.eq_none_iff_forall_ne_some.mpr fun packet found => ?_
    obtain ⟨member, rfl⟩ := accounts.outstanding?_eq_some.mp found
    obtain ⟨record, present⟩ :=
      SortedMap.mem_keys_iff.mp (accounts.snapshots.known packet member)
    rw [unknown] at present
    cases present
  · intro unknown
    refine Option.eq_none_iff_forall_ne_some.mpr fun record found => ?_
    obtain ⟨packet, member, number, -⟩ := accounts.snapshots.records n record found
    rw [accounts.outstanding?_eq_some.mpr ⟨member, number⟩] at unknown
    cases unknown

theorem Accounts.onPacketAcknowledged (accounts : sampling.Accounts)
    (found : sampling.outstanding? packet.number = some packet) (ackTime : QuicTime)
    (roundUpdate : Bool) :
    Accounts ⟨(sampling.sampler.onPacketAcknowledged ackTime packet.number roundUpdate).1,
      .acked ackTime packet :: sampling.history⟩ := by
  obtain ⟨member, -⟩ := accounts.outstanding?_eq_some.mp found
  cases known : sampling.sampler.packetInfos.find? packet.number with
  | none => simp [accounts.find?_eq_none_iff.mp known] at found
  | some record =>
      obtain ⟨owner, present, number, records⟩ := accounts.snapshots.records _ _ known
      obtain rfl := accounts.wellFormed.eq_of_number present member number
      rw [MySampler.onPacketAcknowledged, known]
      refine ⟨accounts.wellFormed.acked member ackTime, ⟨accounts.totals.sent, ?_, ?_⟩,
        accounts.snapshots.erase accounts.wellFormed member (by simp) rfl⟩
      · change sampling.sampler.totalBytesAcked + record.size = _
        rw [ackedBytes, ofNat_sizes_add, accounts.totals.acked, records.size]
      · intro q time latest
        obtain ⟨rfl, rfl⟩ := Prod.mk.inj (Option.some.inj latest)
        rw [upTo_cons_of_ne (by simp)]
        exact ⟨records.sent, records.sentTime, rfl⟩

theorem Accounts.onPacketLost (accounts : sampling.Accounts)
    (found : sampling.outstanding? packet.number = some packet) :
    Accounts ⟨sampling.sampler.onPacketLost packet.number, .lost packet :: sampling.history⟩ := by
  obtain ⟨member, -⟩ := accounts.outstanding?_eq_some.mp found
  refine ⟨accounts.wellFormed.lost member,
    ⟨accounts.totals.sent, accounts.totals.acked, ?_⟩,
    accounts.snapshots.erase accounts.wellFormed member (by simp) rfl⟩
  intro q time latest
  rw [upTo_cons_of_ne (by simp)]
  exact accounts.totals.latest q time latest

theorem Accounts.step (s : Sampling) (event : SamplerEvent) (next : Sampling)
    (out : List Sample) (accounts : s.Accounts)
    (stepped : machine.step s event = some (next, out)) : next.Accounts := by
  cases event with
  | onPacketSent sentTime packetNumber bytes bytesInFlight =>
      obtain ⟨⟨new, inFlight⟩, sent⟩ := Option.ite_none_right_eq_some.mp stepped
      obtain ⟨rfl, -⟩ := Prod.mk.inj (Option.some.inj sent)
      have packetNew : (SentPacket.mk packetNumber bytes sentTime).number ∉
          s.history.sentPackets.map SentPacket.number := new
      exact accounts.onPacketSent packetNew inFlight
  | onPacketAcknowledged ackTime packetNumber roundUpdate =>
      obtain ⟨rfl, -⟩ := Prod.mk.inj (Option.some.inj stepped)
      cases found : s.outstanding? packetNumber with
      | none =>
          rw [accounts.find?_eq_none_iff.mpr found]
          exact accounts
      | some packet =>
          obtain ⟨-, rfl⟩ := accounts.outstanding?_eq_some.mp found
          exact accounts.onPacketAcknowledged found ackTime roundUpdate
  | onPacketLost packetNumber =>
      obtain ⟨rfl, -⟩ := Prod.mk.inj (Option.some.inj stepped)
      cases found : s.outstanding? packetNumber with
      | none =>
          rw [MySampler.onPacketLost, MySampler.packetInfoRemove, SortedMap.erase_of_find?_none
            (accounts.find?_eq_none_iff.mpr found)]
          exact accounts
      | some packet =>
          obtain ⟨-, rfl⟩ := accounts.outstanding?_eq_some.mp found
          exact accounts.onPacketLost found

theorem accounts_of_run {events : List SamplerEvent} {out : List Sample}
    (ran : machine.run {} events = some (sampling, out)) : sampling.Accounts :=
  Machine.run_invariant Accounts Accounts.step accounts_fresh ran

/-! ## Samples -/

/-- What a sample is made of. -/
theorem sample_eq_some {ackTime : QuicTime} {record : PacketState} {roundUpdate : Bool}
    {bw : Sample} (formed : sampler.sample ackTime record roundUpdate = some bw) :
    (∀ rate, bw.sendRate = some rate →
      rate.bytes = record.totalBytesSent - record.totalBytesSentAtLastAckedPacket ∧
      rate.delta = record.sentTime - record.lastAckedPacketSentTime ∧ 0 < rate.delta) ∧
    bw.ackRate.bytes =
      sampler.totalBytesAcked - record.totalBytesAckedAtTheLastAckedPacket ∧
    bw.ackRate.delta = ackTime - record.lastAckedPacketAckTime ∧ 0 < bw.ackRate.delta := by
  unfold MySampler.sample at formed
  split_ifs at formed with round missing late later
  · obtain rfl := Option.some.inj formed
    refine ⟨?_, rfl, rfl, Int.sub_pos_of_lt (not_le.mp late)⟩
    intro rate found
    obtain rfl := Option.some.inj found
    exact ⟨rfl, rfl, Int.sub_pos_of_lt later⟩
  · obtain rfl := Option.some.inj formed
    exact ⟨fun rate found => (Option.some_ne_none rate found.symm).elim, rfl, rfl,
      Int.sub_pos_of_lt (not_le.mp late)⟩

/-- A difference of two totals is the sum of what lies between. -/
theorem toNat_total_sub {total earlier between : Nat} (split : between + earlier = total) :
    (UInt64.ofNat total - UInt64.ofNat earlier).toNat = between % 2 ^ 64 := by
  rw [← split, UInt64.ofNat_add, UInt64.add_sub_cancel, UInt64.toNat_ofNat']

theorem ofNat_le_ofNat {total earlier : Nat} (le : earlier ≤ total) (bound : total < 2 ^ 64) :
    UInt64.ofNat earlier ≤ UInt64.ofNat total := by
  rw [UInt64.le_iff_toNat_le, UInt64.toNat_ofNat', UInt64.toNat_ofNat',
    Nat.mod_eq_of_lt bound, Nat.mod_eq_of_lt (le.trans_lt bound)]
  exact le

/-- **A sample measures the history**: the bytes from the reference packet up to the
acknowledged one, and the bytes that were acknowledged since that one was sent. -/
theorem sample_measures {events : List SamplerEvent} {out : List Sample}
    (ran : machine.run {} events = some (sampling, out)) {ackTime : QuicTime}
    {packetNumber : UInt64} {roundUpdate : Bool} {next : MySampler} {bw : Sample}
    (acked : sampling.sampler.onPacketAcknowledged ackTime packetNumber roundUpdate =
      (next, some bw)) :
    ∃ packet ∈ sampling.history.outstanding, packet.number = packetNumber ∧
    ∃ record, sampling.sampler.packetInfos.find? packetNumber = some record ∧
    ∃ q time, reference (sampling.history.upTo packet) = some (q, time) ∧
      (∀ rate, bw.sendRate = some rate →
        rate.bytes.toNat = sentBytes (since q (sampling.history.upTo packet)) % 2 ^ 64 ∧
        rate.delta = packet.time - q.time ∧ 0 < rate.delta) ∧
      bw.ackRate.bytes.toNat =
        ackedBytes (since packet (.acked ackTime packet :: sampling.history)) % 2 ^ 64 ∧
      bw.ackRate.delta = ackTime - time ∧ 0 < bw.ackRate.delta ∧
      (sampling.history.sentBytes < 2 ^ 64 →
        record.totalBytesSentAtLastAckedPacket ≤ record.totalBytesSent ∧
        record.totalBytesAckedAtTheLastAckedPacket ≤ next.totalBytesAcked ∧
        packet.size ≤ bw.ackRate.bytes) := by
  have accounts := accounts_of_run ran
  cases known : sampling.sampler.packetInfos.find? packetNumber with
  | none => simp [MySampler.onPacketAcknowledged, known] at acked
  | some record =>
      obtain ⟨packet, member, rfl, records⟩ := accounts.snapshots.records _ _ known
      obtain ⟨q, time, latest, sentAtLast, sentTime, since⟩ := records.reference
      rw [MySampler.onPacketAcknowledged, known] at acked
      obtain ⟨rfl, formed⟩ := Prod.mk.inj acked
      obtain ⟨sendRate, ackBytes, ackDelta, positive⟩ := sample_eq_some formed
      -- the total after this acknowledgement
      have total : sampling.sampler.totalBytesAcked + record.size =
          UInt64.ofNat (ackedBytes (.acked ackTime packet :: sampling.history)) := by
        rw [ackedBytes, ofNat_sizes_add, accounts.totals.acked, records.size]
      have sentSplit := sentBytes_since packet sampling.history
      have ackedSplit := ackedBytes_since packet (.acked ackTime packet :: sampling.history)
      rw [upTo_cons_of_ne (by simp)] at ackedSplit
      have ackSum : bw.ackRate.bytes.toNat =
          ackedBytes (History.since packet (.acked ackTime packet :: sampling.history)) %
            2 ^ 64 := by
        rw [ackBytes, records.acked]
        change (sampling.sampler.totalBytesAcked + record.size - _).toNat = _
        rw [total]
        exact toNat_total_sub ackedSplit
      refine ⟨packet, member, rfl, record, rfl, q, time, latest, ?_, ackSum, ?_, positive, ?_⟩
      · intro rate found
        obtain ⟨bytes, delta, later⟩ := sendRate rate found
        refine ⟨?_, by rw [delta, records.sentTime, sentTime], later⟩
        rw [bytes, records.sent, sentAtLast]
        exact toNat_total_sub (sentBytes_since q _)
      · rw [ackDelta, since]
      · intro bound
        have covered := (accounts.wellFormed.acked member ackTime).covered
        have sentSame : sentBytes (.acked ackTime packet :: sampling.history) =
            sampling.history.sentBytes := rfl
        refine ⟨?_, ?_, ?_⟩
        · rw [records.sent, sentAtLast]
          have le := sentBytes_since q (sampling.history.upTo packet)
          exact ofNat_le_ofNat (by omega) (by omega)
        · rw [records.acked]
          exact (ofNat_le_ofNat (by omega) (by omega)).trans_eq total.symm
        · rw [UInt64.le_iff_toNat_le, ackSum, Nat.mod_eq_of_lt (by omega), since_acked, ackedBytes]
          exact Nat.le_add_right _ _

/-- The third packet is measured from the first one, that was acknowledged in between. -/
theorem sample_measures_third :
    ∃ sampling next bw, machine.run {} [.onPacketSent 1 1 100 0, .onPacketSent 2 2 200 100,
        .onPacketAcknowledged 5 1 false, .onPacketSent 6 3 300 200] = some (sampling, []) ∧
      sampling.sampler.onPacketAcknowledged 9 3 true = (next, some bw) ∧
      bw = ⟨some ⟨500, 5⟩, ⟨300, 4⟩⟩ ∧
      ∃ packet ∈ sampling.history.outstanding, packet.number = 3 ∧
        packet.size ≤ bw.ackRate.bytes := by
  refine ⟨_, _, _, rfl, rfl, by decide, ?_⟩
  obtain ⟨packet, member, number, record, -, q, time, -, -, -, -, -, whole⟩ := sample_measures
    (show machine.run {} [.onPacketSent 1 1 100 0, .onPacketSent 2 2 200 100,
      .onPacketAcknowledged 5 1 false, .onPacketSent 6 3 300 200] = some (_, []) from rfl)
    (show MySampler.onPacketAcknowledged 9 3 true _ = (_, some _) from rfl)
  exact ⟨packet, member, number, (whole (by decide)).2.2⟩

/-- The second packet is lost; with the third one, twice 2^63 bytes follow the first one, and
the sample has none of them. -/
theorem sendRate_wraps :
    ∃ sampling next bw rate packet q time,
      machine.run {} [.onPacketSent 1 1 9223372036854775808 0,
        .onPacketSent 2 2 9223372036854775808 9223372036854775808, .onPacketLost 2,
        .onPacketSent 3 3 9223372036854775808 9223372036854775808] = some (sampling, []) ∧
      sampling.sampler.onPacketAcknowledged 4 3 true = (next, some bw) ∧
      packet ∈ sampling.history.outstanding ∧ packet.number = 3 ∧
      bw.sendRate = some rate ∧
      reference (sampling.history.upTo packet) = some (q, time) ∧
      rate.bytes = 0 ∧ sentBytes (since q (sampling.history.upTo packet)) = 2 ^ 64 := by
  refine ⟨_, _, _, ⟨0, 2⟩, ⟨3, 9223372036854775808, 3⟩, ⟨1, 9223372036854775808, 1⟩, 1, rfl, rfl,
    ?_, rfl, ?_, ?_, rfl, ?_⟩
  all_goals decide +kernel

end Sampling

end

end MpVideo.Congestion
