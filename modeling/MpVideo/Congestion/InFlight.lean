import MpVideo.Congestion.BbrSender

/-!
# The two stores of a BBR sender agree

The sender takes a prefix out of `sent_packets_map_`, and the sampler removes the skipped
numbers one by one and then the acknowledged one. Both hold the recorded packets beyond
`last_ack_seq_` after every event (`Keeps`), whatever the decisions of the sender are.

The bytes in flight are the sum of the sizes in the map as a 64-bit number. They are the
sum itself exactly as long as it has 64 bits, and then no subtraction of the next
acknowledgement underflows (`inFlight_accounts`).
-/

set_option autoImplicit false

namespace MpVideo.Congestion

namespace Account

/-- The sum of the sizes in a list of entries. -/
def sizes (entries : List (UInt64 × PerPacket)) : Nat :=
  (entries.map fun entry => entry.2.bytes.toNat).sum

/-- The sum of the sizes in `sent_packets_map_`. -/
def carried (account : Account) : Nat := sizes account.sentPacketsMap.entries

/-- The accounts agree with each other and with the recorded packet numbers. -/
structure Keeps (sent recorded : List UInt64) (account : Account) : Prop where
  sent_le : ∀ n ∈ sent, n ≤ account.lastSentPacket
  recorded_le : ∀ n ∈ recorded, n ≤ account.lastSentPacket
  acked_le : account.lastAckSeq ≤ account.lastSentPacket
  mem_map : ∀ n, n ∈ account.sentPacketsMap.keys ↔ n ∈ recorded ∧ account.lastAckSeq < n
  mem_sampler : ∀ n, n ∈ account.sampler.packetInfos.keys ↔ n ∈ account.sentPacketsMap.keys
  bytes : account.bytesInFlight = UInt64.ofNat account.carried

variable {sent recorded : List UInt64} {account : Account}

theorem keeps_fresh : Keeps [] [] {} where
  sent_le := by simp
  recorded_le := by simp
  acked_le := le_rfl
  mem_map := by simp [SortedMap.keys, SortedMap.empty]
  mem_sampler _ := Iff.rfl
  bytes := rfl

/-! ## A packet is sent -/

theorem Keeps.ignored (keeps : Keeps sent recorded account) {n : UInt64}
    (known : n ≤ account.lastSentPacket) : Keeps (n :: sent) recorded account :=
  { keeps with sent_le := List.forall_mem_cons.mpr ⟨known, keeps.sent_le⟩ }

/-- A number beyond the last one sent is new to both stores. -/
theorem Keeps.onPacketSent (keeps : Keeps sent recorded account) {n : UInt64}
    (beyond : account.lastSentPacket < n) (now : QuicTime) (bytes : UInt64) :
    Keeps (n :: sent) (n :: recorded) (account.onPacketSent now n bytes) := by
  have unknown : n ∉ account.sentPacketsMap.keys := fun present =>
    absurd (keeps.recorded_le n ((keeps.mem_map n).mp present).1) (not_le.mpr beyond)
  have absent : account.sentPacketsMap.find? n = none := by
    cases found : account.sentPacketsMap.find? n with
    | none => rfl
    | some packet => exact absurd (SortedMap.mem_keys_iff.mpr ⟨packet, found⟩) unknown
  have unacked : account.lastAckSeq < n := lt_of_le_of_lt keeps.acked_le beyond
  rw [Account.onPacketSent, if_neg (not_le.mpr beyond)]
  refine ⟨?_, ?_, ?_, ?_, ?_, ?_⟩
  · exact List.forall_mem_cons.mpr
      ⟨le_rfl, fun m member => (keeps.sent_le m member).trans beyond.le⟩
  · exact List.forall_mem_cons.mpr
      ⟨le_rfl, fun m member => (keeps.recorded_le m member).trans beyond.le⟩
  · exact unacked.le
  · intro m
    change m ∈ (account.sentPacketsMap.insert n _).keys ↔ _
    rw [SortedMap.mem_keys_insert, keeps.mem_map, List.mem_cons]
    constructor
    · rintro (rfl | ⟨member, later⟩)
      · exact ⟨.inl rfl, unacked⟩
      · exact ⟨.inr member, later⟩
    · rintro ⟨rfl | member, later⟩
      · exact .inl rfl
      · exact .inr ⟨member, later⟩
  · intro m
    change m ∈ (account.sampler.onPacketSent now n bytes _).packetInfos.keys ↔
      m ∈ (account.sentPacketsMap.insert n _).keys
    rw [MySampler.packetInfos_onPacketSent, SortedMap.mem_keys_insert, keeps.mem_sampler]
  · have more : (account.addPacketInfo now n bytes).carried =
        bytes.toNat + account.carried :=
      SortedMap.total_insert (fun packet : PerPacket => packet.bytes.toNat) absent ⟨now, bytes⟩
    change account.bytesInFlight + bytes = UInt64.ofNat (account.addPacketInfo now n bytes).carried
    rw [more, UInt64.ofNat_add, UInt64.ofNat_toNat, keeps.bytes, UInt64.add_comm]

/-! ## A packet is acknowledged -/

/-- The loop removes its numbers and no others. -/
theorem mem_lossLoop (rounds : Nat) (i seq : UInt64) (sampler : MySampler)
    (fits : i.toNat + rounds ≤ 2 ^ 64) :
    seq ∈ (lossLoop rounds i sampler).packetInfos.keys ↔
      seq ∈ sampler.packetInfos.keys ∧ ¬ (i ≤ seq ∧ seq.toNat < i.toNat + rounds) := by
  induction rounds generalizing i sampler with
  | zero =>
      rw [lossLoop]
      refine (and_iff_left ?_).symm
      rintro ⟨above, below⟩
      rw [UInt64.le_iff_toNat_le] at above
      omega
  | succ rounds ih =>
      rw [lossLoop]
      by_cases last : rounds = 0
      · subst last
        rw [lossLoop, MySampler.packetInfos_onPacketLost, UInt64.le_iff_toNat_le]
        have only : seq ≠ i ↔ ¬ (i.toNat ≤ seq.toNat ∧ seq.toNat < i.toNat + 1) := by
          rw [ne_eq, ← UInt64.toNat_inj]
          omega
        rw [only]
      · have step : (i + 1).toNat = i.toNat + 1 := by
          rw [UInt64.toNat_add, UInt64.toNat_one]
          omega
        rw [ih (i + 1) _ (by omega), MySampler.packetInfos_onPacketLost, and_assoc]
        refine and_congr_right fun _ => ?_
        rw [ne_eq, ← UInt64.toNat_inj, UInt64.le_iff_toNat_le, UInt64.le_iff_toNat_le, step]
        omega

/-- Taking the packets up to a number out of the sum leaves the sum of the others. -/
theorem release_fst (n : UInt64) (entries : List (UInt64 × PerPacket)) :
    (release n entries (UInt64.ofNat (sizes entries))).1 =
      UInt64.ofNat (sizes (entries.dropWhile fun entry => entry.1 ≤ n)) := by
  induction entries with
  | nil => rfl
  | cons entry rest ih =>
      obtain ⟨seq, packet⟩ := entry
      have split : sizes ((seq, packet) :: rest) = packet.bytes.toNat + sizes rest := rfl
      by_cases low : seq ≤ n
      · rw [release, if_pos low, List.dropWhile_cons_of_pos (by simpa using low), split,
          UInt64.ofNat_add, UInt64.ofNat_toNat, UInt64.add_comm, UInt64.add_sub_cancel]
        exact ih
      · rw [release, if_neg low, List.dropWhile_cons_of_neg (by simpa using low)]

/-- Nothing underflows as long as the sum has 64 bits. -/
theorem release_snd (n : UInt64) (entries : List (UInt64 × PerPacket))
    (fits : sizes entries < 2 ^ 64) :
    ∀ subtraction ∈ (release n entries (UInt64.ofNat (sizes entries))).2,
      subtraction.amount ≤ subtraction.before := by
  induction entries with
  | nil => simp [release]
  | cons entry rest ih =>
      obtain ⟨seq, packet⟩ := entry
      have split : sizes ((seq, packet) :: rest) = packet.bytes.toNat + sizes rest := rfl
      have back : (UInt64.ofNat (sizes ((seq, packet) :: rest))).toNat =
          sizes ((seq, packet) :: rest) :=
        UInt64.toNat_ofNat_of_lt' fits
      have left : UInt64.ofNat (sizes ((seq, packet) :: rest)) - packet.bytes =
          UInt64.ofNat (sizes rest) := by
        rw [split, UInt64.ofNat_add, UInt64.ofNat_toNat, UInt64.add_comm, UInt64.add_sub_cancel]
      rw [release]
      split_ifs with low
      · rw [left]
        refine List.forall_mem_cons.mpr ⟨?_, ih (by omega)⟩
        rw [UInt64.le_iff_toNat_le, back, split]
        exact Nat.le_add_right ..
      · simp

/-- The accounts after `OnAck` of a number beyond `last_ack_seq_`, but for the round trips
and what the sampler has measured. -/
structure Settled (n : UInt64) (account next : Account) : Prop where
  lastSentPacket : next.lastSentPacket = account.lastSentPacket
  lastAckSeq : next.lastAckSeq = n
  sentPacketsMap : next.sentPacketsMap = account.sentPacketsMap.popLe n
  bytesInFlight : next.bytesInFlight =
    (release n account.sentPacketsMap.entries account.bytesInFlight).1
  mem_sampler : ∀ seq, seq ∈ next.sampler.packetInfos.keys ↔
    seq ∈ account.sampler.packetInfos.keys ∧ ¬ (account.lastAckSeq < seq ∧ seq ≤ n)

/-- Both stores lose the packets up to the acknowledged one. -/
theorem Keeps.settled (keeps : Keeps sent recorded account) {n : UInt64} {next : Account}
    (member : n ∈ sent) (beyond : account.lastAckSeq < n) (settled : Settled n account next) :
    Keeps sent recorded next := by
  refine ⟨?_, ?_, ?_, ?_, ?_, ?_⟩
  · rw [settled.lastSentPacket]
    exact keeps.sent_le
  · rw [settled.lastSentPacket]
    exact keeps.recorded_le
  · rw [settled.lastSentPacket, settled.lastAckSeq]
    exact keeps.sent_le n member
  · intro seq
    rw [settled.sentPacketsMap, settled.lastAckSeq, SortedMap.mem_keys_popLe, keeps.mem_map,
      and_assoc]
    exact and_congr_right fun _ => and_iff_right_of_imp beyond.trans
  · intro seq
    rw [settled.mem_sampler, settled.sentPacketsMap, SortedMap.mem_keys_popLe, keeps.mem_sampler]
    refine and_congr_right fun present => ?_
    rw [not_and, not_le]
    exact forall_prop_of_true ((keeps.mem_map seq).mp present).2
  · rw [settled.bytesInFlight, keeps.bytes, carried, carried, settled.sentPacketsMap]
    exact release_fst n _

end Account

/-! ## One event -/

namespace MyBbrSender

variable {σ : Type} (control : Control σ)

/-- What `OnAck` does with the accounts, in terms of the two stores. -/
theorem settle_settled (now : QuicTime) {n : UInt64} {sender : MyBbrSender σ}
    (beyond : sender.account.lastAckSeq < n) :
    Account.Settled n sender.account (sender.settle control now n).1.account := by
  have next : (sender.account.lastAckSeq + 1).toNat = sender.account.lastAckSeq.toNat + 1 := by
    rw [UInt64.lt_iff_toNat_lt] at beyond
    have := n.toNat_lt
    rw [UInt64.toNat_add, UInt64.toNat_one]
    omega
  have rounds : (n - (sender.account.lastAckSeq + 1)).toNat =
      n.toNat - (sender.account.lastAckSeq.toNat + 1) := by
    rw [UInt64.lt_iff_toNat_lt] at beyond
    have covered : sender.account.lastAckSeq + 1 ≤ n := by
      rw [UInt64.le_iff_toNat_le]
      omega
    rw [UInt64.toNat_sub_of_le _ _ covered, next]
  have loop := fun seq => Account.mem_lossLoop
    (n - (sender.account.lastAckSeq + 1)).toNat (sender.account.lastAckSeq + 1) seq
    sender.account.sampler (by
      have := n.toNat_lt
      rw [UInt64.lt_iff_toNat_lt] at beyond
      omega)
  have sampler : ∀ (update : Bool) (seq : UInt64),
      seq ∈ ((Account.lossLoop (n - (sender.account.lastAckSeq + 1)).toNat
        (sender.account.lastAckSeq + 1) sender.account.sampler).onPacketAcknowledged now n
          update).1.packetInfos.keys ↔
      seq ∈ sender.account.sampler.packetInfos.keys ∧
        ¬ (sender.account.lastAckSeq < seq ∧ seq ≤ n) := by
    intro update seq
    rw [MySampler.packetInfos_onPacketAcknowledged, loop, and_assoc]
    refine and_congr_right fun _ => ?_
    rw [ne_eq, ← UInt64.toNat_inj, UInt64.le_iff_toNat_le, UInt64.le_iff_toNat_le,
      UInt64.lt_iff_toNat_lt, next, rounds]
    rw [UInt64.lt_iff_toNat_lt] at beyond
    omega
  unfold settle updateRttAndInflight Account.updateInflight Account.updateRoundTripCounter
  dsimp only
  split_ifs
  · exact ⟨rfl, rfl, rfl, rfl, sampler true⟩
  · exact ⟨rfl, rfl, rfl, rfl, sampler false⟩

/-- The subtractions of `OnAck`. -/
theorem settle_log (now : QuicTime) (n : UInt64) (sender : MyBbrSender σ) :
    (sender.settle control now n).2.2 =
      (Account.release n sender.account.sentPacketsMap.entries sender.account.bytesInFlight).2 :=
  rfl

/-- `OnAck` ignores an old number or settles a new one; the decisions change no account. -/
theorem onAck_cases {version : Version} {now : QuicTime} {n : UInt64}
    {sender next : MyBbrSender σ} {log : List Subtraction}
    (acked : sender.onAck version control now n = some (next, log)) :
    (n ≤ sender.account.lastAckSeq ∧ next = sender ∧ log = []) ∨
      (sender.account.lastAckSeq < n ∧
        next.account = (sender.settle control now n).1.account ∧
        log = (sender.settle control now n).2.2) := by
  unfold onAck at acked
  split_ifs at acked with old
  · obtain ⟨rfl, rfl⟩ := Prod.mk.inj (Option.some.inj acked)
    exact .inl ⟨old, rfl, rfl⟩
  · obtain ⟨state, -, result⟩ := Option.map_eq_some_iff.mp acked
    obtain ⟨rfl, rfl⟩ := Prod.mk.inj result
    exact .inr ⟨not_le.mp old, rfl, rfl⟩

end MyBbrSender

namespace TracedSender

variable {σ : Type} {version : Version} {control : Control σ}

/-- The accounts of a traced sender agree with its history. -/
abbrev Agrees (traced : TracedSender σ) : Prop :=
  Account.Keeps traced.sent traced.recorded traced.sender.account

/-- Every event keeps the accounts in agreement. -/
theorem handle_agrees {traced next : TracedSender σ} {event : CongestionEvent}
    {log : List Subtraction} (agrees : traced.Agrees)
    (handled : (machine version control).step traced event = some (next, log)) :
    next.Agrees := by
  cases event with
  | onPacketSent now n bytes =>
      obtain ⟨rfl, -⟩ := Prod.mk.inj (Option.some.inj handled)
      by_cases known : n ≤ traced.sender.account.lastSentPacket
      · have same : traced.sender.account.onPacketSent now n bytes = traced.sender.account :=
          if_pos known
        simp only [Agrees, MyBbrSender.onPacketSent, same, if_pos known]
        exact agrees.ignored known
      · simp only [Agrees, MyBbrSender.onPacketSent, if_neg known]
        exact agrees.onPacketSent (not_le.mp known) now bytes
  | onAck now n =>
      change handle version control traced (.onAck now n) = _ at handled
      rw [handle] at handled
      split_ifs at handled with member
      obtain ⟨⟨sender, subtractions⟩, acked, result⟩ := Option.map_eq_some_iff.mp handled
      obtain ⟨rfl, rfl⟩ := Prod.mk.inj result
      rcases MyBbrSender.onAck_cases control acked with ⟨-, rfl, -⟩ | ⟨beyond, same, -⟩
      · exact agrees
      · have settled := MyBbrSender.settle_settled control now beyond
        rw [← same] at settled
        exact Account.Keeps.settled agrees member beyond settled

/-- An event subtracts no more than there is, as long as the sum has 64 bits. -/
theorem handle_covered {traced next : TracedSender σ} {event : CongestionEvent}
    {log : List Subtraction} (agrees : traced.Agrees)
    (fits : traced.sender.account.carried < 2 ^ 64)
    (handled : (machine version control).step traced event = some (next, log)) :
    ∀ subtraction ∈ log, subtraction.amount ≤ subtraction.before := by
  cases event with
  | onPacketSent now n bytes =>
      obtain ⟨-, rfl⟩ := Prod.mk.inj (Option.some.inj handled)
      simp
  | onAck now n =>
      change handle version control traced (.onAck now n) = _ at handled
      rw [handle] at handled
      split_ifs at handled with member
      obtain ⟨⟨sender, subtractions⟩, acked, result⟩ := Option.map_eq_some_iff.mp handled
      obtain ⟨rfl, rfl⟩ := Prod.mk.inj result
      rcases MyBbrSender.onAck_cases control acked with ⟨-, -, rfl⟩ | ⟨-, -, rfl⟩
      · simp
      · rw [MyBbrSender.settle_log, agrees.bytes]
        exact Account.release_snd n _ fits

/-- **The accounts of the four senders agree after every run.** `sent_packets_map_` and the
sampler hold exactly the recorded packets beyond `last_ack_seq_`; the bytes in flight are
the sum of the sizes as a 64-bit number, and the sum itself exactly while it has 64 bits, and
then nothing that the next event subtracts is more than what is there. -/
theorem inFlight_accounts (version : Version) (control : Control σ) (state : σ)
    (events : List CongestionEvent) (traced : TracedSender σ) (log : List Subtraction)
    (ran : (machine version control).run (fresh state) events = some (traced, log)) :
    (∀ n, n ∈ traced.sender.account.sentPacketsMap.keys ↔
        n ∈ traced.recorded ∧ traced.sender.account.lastAckSeq < n) ∧
      (∀ n, n ∈ traced.sender.account.sampler.packetInfos.keys ↔
        n ∈ traced.sender.account.sentPacketsMap.keys) ∧
      traced.sender.account.bytesInFlight.toNat = traced.sender.account.carried % 2 ^ 64 ∧
      (traced.sender.account.bytesInFlight.toNat = traced.sender.account.carried ↔
        traced.sender.account.carried < 2 ^ 64) ∧
      (traced.sender.account.carried < 2 ^ 64 →
        ∀ event next more, (machine version control).step traced event = some (next, more) →
          ∀ subtraction ∈ more, subtraction.amount ≤ subtraction.before) := by
  have agrees : traced.Agrees := Machine.run_invariant Agrees
    (fun _ _ _ _ holds stepped => handle_agrees holds stepped) Account.keeps_fresh ran
  have bytes : traced.sender.account.bytesInFlight.toNat =
      traced.sender.account.carried % 2 ^ 64 := by
    rw [agrees.bytes, UInt64.toNat_ofNat']
  refine ⟨agrees.mem_map, agrees.mem_sampler, bytes, ?_, ?_⟩
  · rw [bytes]
    omega
  · intro fits event next more stepped
    exact handle_covered agrees fits stepped

/-- Decisions that never change anything. -/
def idle : Control Unit where
  mode _ := .start
  isAtFullBandwidth _ := false
  updateRtt _ _ _ _ := id
  minRttExpired _ _ := false
  updateMaxBandwidth _ _ := id
  updateMaxBw := id
  checkIfFullBandwidthReached := id
  checkIfCongestion _ _ _ _ s := (s, false)
  maybeExitStartupOrDrain _ _ := id
  maybeEnterOrExitDecrease _ _ _ _ _ := id
  updateCongestionSignal _ := id
  updateCycle _ := id
  calculatePacingRate _ := some

/-- Packets 3, 5 and 9 are sent, 5 is acknowledged, and 3 is acknowledged late. -/
def reordered : List CongestionEvent :=
  [.onPacketSent 10 3 1000, .onPacketSent 20 5 400, .onPacketSent 30 9 700, .onAck 40 5,
    .onAck 50 3]

/-- Only packet 9 is carried at the end. -/
theorem inFlight_accounts_reordered :
    ∃ traced log, (machine .v5 idle).run (fresh ()) reordered = some (traced, log) ∧
      traced.sender.account.carried = 700 ∧
      traced.sender.account.bytesInFlight.toNat = traced.sender.account.carried := by
  obtain ⟨traced, log, ran, carried⟩ : ∃ traced log,
      (machine .v5 idle).run (fresh ()) reordered = some (traced, log) ∧
        traced.sender.account.carried = 700 := ⟨_, _, rfl, by decide⟩
  obtain ⟨-, -, -, exactly, -⟩ := inFlight_accounts .v5 idle () reordered traced log ran
  exact ⟨traced, log, ran, carried, exactly.mpr (by rw [carried]; decide)⟩

/-- Two packets whose sizes do not add up within 64 bits: the bytes in flight are zero, and
the acknowledgement of the first packet takes its size out of zero. -/
theorem bytesInFlight_wraps :
    ∃ traced next log subtraction,
      (machine .v5 idle).run (fresh ())
          [.onPacketSent 10 1 18446744073709551615, .onPacketSent 20 2 1] = some (traced, []) ∧
      traced.sender.account.bytesInFlight.toNat ≠ traced.sender.account.carried ∧
      (machine .v5 idle).step traced (.onAck 30 1) = some (next, log) ∧
      subtraction ∈ log ∧ subtraction.before < subtraction.amount :=
  ⟨_, _, _, ⟨0, 18446744073709551615⟩, rfl, by decide, rfl, List.mem_singleton.mpr rfl, by decide⟩

end TracedSender

end MpVideo.Congestion
