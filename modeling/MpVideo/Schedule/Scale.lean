import MpVideo.Lib.Rounding
import MpVideo.Lib.Sorting
import MpVideo.Schedule.Basic

/-!
# Proportional scheduling

`ScaleSchedule` of `scaleschedule.cc`. A first loop gives each path a number of
packets, in the order of the path ids, and a second loop sends the packets, to the
paths with the lowest delay first.

The first loop reads the rate of the first path only, before it begins, and gives the
same number to every path but the last. It stores no entry once nothing is left, and
the second loop reads the entry of every path. So all packets are scheduled only if
the paths but the last leave something for the last one, and in proportion only if
their shares are the same (`incomingPackets_proportionalWhen`).
-/

set_option autoImplicit false

namespace MpVideo.Schedule

open Rounding

/-- `Key`: a path with its delay. -/
structure Key where
  pid : UInt8
  rtt : UInt32

namespace ScaleSchedule

/-- `packet_num*rate/totalrate+0.5` in doubles, without its fraction. -/
def scaled (packetNum totalrate rate : Nat) : Nat :=
  ⌊round 53 (round 53 (round 53 ((packetNum : ℚ) * rate) / totalrate) + 1 / 2)⌋₊

/-- The conversion to `num`, which is undefined for what a division by zero leaves and
for a number beyond 32 bits. -/
def num (packetNum totalrate rate : UInt32) : Option UInt32 :=
  if totalrate = 0 ∨ 2 ^ 32 ≤ scaled packetNum.toNat totalrate.toNat rate.toNat then none
  else some (UInt32.ofNat (scaled packetNum.toNat totalrate.toNat rate.toNat))

/-- The loop over `pathrate` that fills `pathpacket`. -/
def allocate (packetNum totalrate rate : UInt32) :
    List (UInt8 × UInt32) → UInt32 → SortedMap UInt8 UInt32 → Option (SortedMap UInt8 UInt32)
  | [], _, pathpacket => some pathpacket
  | (pid, _) :: rest, remain, pathpacket =>
      (num packetNum totalrate rate).bind fun num =>
        if rest = [] then some (if remain > 0 then pathpacket.insert pid remain else pathpacket)
        else allocate packetNum totalrate rate rest (remain - num)
          (if remain > 0 then pathpacket.insert pid num else pathpacket)

/-- The loop over `delay_path`. It is undefined to read an entry that is not there, to
go beyond the packets, and to count them beyond an `int`. -/
def send (pathpacket : SortedMap UInt8 UInt32) : List Key → List UInt32 → Option Calls
  | [], _ => some []
  | key :: rest, ids =>
      (pathpacket.find? key.pid).bind fun pathINum =>
        if pathINum.toNat ≥ 2 ^ 31 ∨ ids.length < pathINum.toNat then none
        else (send pathpacket rest (ids.drop pathINum.toNat)).map
          ((ids.take pathINum.toNat).map (fun packetId => (packetId, key.pid)) ++ ·)

/-- `delay_path`: the paths with a rate in the order of their delays. -/
def delayPath (sorter : SortBy Key.rtt) (rate rtt : UInt8 → UInt32) (pids : List UInt8) : List Key :=
  sorter.sort ((pids.filter fun pid => rate pid ≠ 0).map fun pid => ⟨pid, rtt pid⟩)

/-- `ScaleSchedule::IncomingPackets`. The rate of the first path is read before the total is
tested, which is undefined when no path has a rate. -/
def incomingPackets (sorter : SortBy Key.rtt) (costType : CostType) (info : UInt8 → PathRates)
    (rtt : UInt8 → UInt32) (pids : List UInt8) (packets : Packets) : Option Calls :=
  if pids.length = 1 ∨ packetNum packets = 1 then roundRobin pids packets
  else
    let rate := fun pid => (info pid).ofCostType costType
    let (pathrate, totalrate) := collectRates rate pids
    pathrate.entries.head?.bind fun first =>
      (allocate (packetNum packets) totalrate first.2 pathrate.entries (packetNum packets)
        .empty).bind fun pathpacket =>
          if totalrate = 0 then roundRobin pids packets
          else send pathpacket (delayPath sorter rate rtt pids) packets.keys

/-! ## Allocation -/

/-- What is stored: the remainder for the last path and the same number for the others,
unless nothing is left. -/
theorem allocate_spec {packetNum totalrate rate n : UInt32}
    (defined : num packetNum totalrate rate = some n) {init : List (UInt8 × UInt32)}
    {last : UInt8 × UInt32} (distinct : ((init ++ [last]).map Prod.fst).Nodup) (remain : UInt32)
    (pathpacket : SortedMap UInt8 UInt32)
    (new : ∀ entry ∈ init ++ [last], pathpacket.find? entry.1 = none) :
    ∃ result, allocate packetNum totalrate rate (init ++ [last]) remain pathpacket = some result ∧
      result.find? last.1 = (if remain - UInt32.ofNat init.length * n > 0 then
        some (remain - UInt32.ofNat init.length * n) else none) ∧
      (∀ entry ∈ init, result.find? entry.1 = none ∨ result.find? entry.1 = some n) ∧
      (init.length * n.toNat < remain.toNat → ∀ entry ∈ init, result.find? entry.1 = some n) ∧
      ∀ pid, pid ∉ (init ++ [last]).map Prod.fst → result.find? pid = pathpacket.find? pid := by
  induction init generalizing remain pathpacket with
  | nil =>
      have whole : remain - UInt32.ofNat ([] : List (UInt8 × UInt32)).length * n = remain := by
        simp
      have fresh := new last (by simp)
      refine ⟨if remain > 0 then pathpacket.insert last.1 remain else pathpacket, ?_, ?_,
        by simp, by simp, ?_⟩
      · simp [allocate, defined]
      · rw [whole]
        split_ifs with left
        · rw [SortedMap.find?_insert, if_pos rfl, fresh, Option.getD_none]
        · exact fresh
      · intro pid other
        have differs : pid ≠ last.1 := by simpa using other
        split_ifs with left
        · rw [SortedMap.find?_insert, if_neg differs]
        · rfl
  | cons entry init ih =>
      obtain ⟨absent, later⟩ := List.nodup_cons.mp
        (show (entry.1 :: (init ++ [last]).map Prod.fst).Nodup from distinct)
      have fresh := new entry (by simp)
      have rest : init ++ [last] ≠ [] := by simp
      obtain ⟨result, allocated, isLast, others, room, frame⟩ := ih later (remain - n)
        (if remain > 0 then pathpacket.insert entry.1 n else pathpacket) (by
          intro other member
          have differs : other.1 ≠ entry.1 := fun same =>
            absent (same ▸ List.mem_map_of_mem member)
          have old := new other (List.mem_cons_of_mem _ member)
          split_ifs
          · rw [SortedMap.find?_insert, if_neg differs, old]
          · exact old)
      have steps : remain - n - UInt32.ofNat init.length * n =
          remain - UInt32.ofNat (entry :: init).length * n := by
        rw [List.length_cons, UInt32.ofNat_add]
        grind
      have here : result.find? entry.1 = if remain > 0 then some n else none := by
        rw [frame entry.1 absent]
        split_ifs
        · rw [SortedMap.find?_insert, if_pos rfl, fresh, Option.getD_none]
        · exact fresh
      rw [steps] at isLast
      refine ⟨result, ?_, isLast, ?_, ?_, ?_⟩
      · rw [List.cons_append, allocate, defined, Option.bind_some, if_neg rest, allocated]
      · intro other member
        rcases List.mem_cons.mp member with rfl | behind
        · rw [here]
          split_ifs
          · exact .inr rfl
          · exact .inl rfl
        · exact others other behind
      · intro enough other member
        rw [List.length_cons, Nat.add_one_mul] at enough
        have less : n ≤ remain := UInt32.le_iff_toNat_le.mpr (by omega)
        rcases List.mem_cons.mp member with rfl | behind
        · rw [here, if_pos (UInt32.lt_iff_toNat_lt.mpr (by change 0 < remain.toNat; omega))]
        · refine room ?_ other behind
          rw [UInt32.toNat_sub_of_le _ _ less]
          omega
      · intro pid other
        rw [List.cons_append, List.map_cons, List.mem_cons, not_or] at other
        obtain ⟨differs, behind⟩ := other
        rw [frame pid behind]
        split_ifs
        · rw [SortedMap.find?_insert, if_neg differs]
        · rfl

/-! ## Sending -/

/-- The number of packets that are stored for a path. -/
def stored (pathpacket : SortedMap UInt8 UInt32) (pid : UInt8) : Nat :=
  ((pathpacket.find? pid).map UInt32.toNat).getD 0

/-- The entry of a path is there and fits an `int`. -/
def Readable (pathpacket : SortedMap UInt8 UInt32) (pid : UInt8) : Prop :=
  ∃ pathINum, pathpacket.find? pid = some pathINum ∧ pathINum.toNat < 2 ^ 31

theorem send_isSome (pathpacket : SortedMap UInt8 UInt32) (order : List Key) (ids : List UInt32)
    (readable : ∀ key ∈ order, Readable pathpacket key.pid)
    (room : (order.map fun key => stored pathpacket key.pid).sum ≤ ids.length) :
    ∃ calls, send pathpacket order ids = some calls := by
  induction order generalizing ids with
  | nil => exact ⟨[], rfl⟩
  | cons key rest ih =>
      obtain ⟨pathINum, found, fits⟩ := readable key List.mem_cons_self
      have here : stored pathpacket key.pid = pathINum.toNat := by rw [stored, found]; rfl
      rw [List.map_cons, List.sum_cons, here] at room
      obtain ⟨calls, sent⟩ := ih (ids.drop pathINum.toNat)
        (fun other member => readable other (List.mem_cons_of_mem _ member))
        (by rw [List.length_drop]; omega)
      have reaches : ¬ (pathINum.toNat ≥ 2 ^ 31 ∨ ids.length < pathINum.toNat) := by omega
      refine ⟨(ids.take pathINum.toNat).map (fun packetId => (packetId, key.pid)) ++ calls, ?_⟩
      rw [send, found, Option.bind_some, if_neg reaches, sent, Option.map_some]

/-- What is sent: the packets in order, to each path as many as are stored. -/
theorem send_spec {pathpacket : SortedMap UInt8 UInt32} {order : List Key} {ids : List UInt32}
    {calls : Calls} (sent : send pathpacket order ids = some calls) :
    (∀ key ∈ order, Readable pathpacket key.pid) ∧
      (order.map fun key => stored pathpacket key.pid).sum ≤ ids.length ∧
      calls.map Prod.fst = ids.take (order.map fun key => stored pathpacket key.pid).sum ∧
      calls.map Prod.snd =
        order.flatMap fun key => List.replicate (stored pathpacket key.pid) key.pid := by
  induction order generalizing ids calls with
  | nil =>
      obtain rfl := Option.some.inj sent
      simp
  | cons key rest ih =>
      rw [send] at sent
      obtain ⟨pathINum, found, sent⟩ := Option.bind_eq_some_iff.mp sent
      split_ifs at sent with bad
      obtain ⟨fits, room⟩ := not_or.mp bad
      obtain ⟨later, sentLater, rfl⟩ := Option.map_eq_some_iff.mp sent
      obtain ⟨readable, enough, packets, paths⟩ := ih sentLater
      have here : stored pathpacket key.pid = pathINum.toNat := by rw [stored, found]; rfl
      rw [List.length_drop] at enough
      simp only [List.map_cons, List.sum_cons, List.flatMap_cons, here]
      refine ⟨?_, by omega, ?_, ?_⟩
      · intro other member
        rcases List.mem_cons.mp member with rfl | behind
        · exact ⟨pathINum, found, by omega⟩
        · exact readable other behind
      · rw [List.map_append, packets, List.take_add, List.map_map]
        exact congrArg (· ++ _) (List.map_id _)
      · rw [List.map_append, paths]
        simp only [List.map_map, Function.comp_def, List.map_const', List.length_take,
          Nat.min_eq_left (not_lt.mp room)]

variable {rate : UInt8 → UInt32} {pids : List UInt8} {packets : Packets}

theorem delayPath_perm (sorter : SortBy Key.rtt) (rtt : UInt8 → UInt32) (distinct : pids.Nodup) :
    ((delayPath sorter rate rtt pids).map Key.pid).Perm (collectRates rate pids).1.keys := by
  apply ((sorter.perm _).map Key.pid).trans
  rw [List.map_map]
  exact (List.Perm.of_eq (List.map_id _)).trans (rated_perm distinct)

/-- What is sent, whatever the delays are. -/
theorem send_delayPath (sorter : SortBy Key.rtt) (rtt : UInt8 → UInt32) (distinct : pids.Nodup)
    {pathpacket : SortedMap UInt8 UInt32} {calls : Calls}
    (sent : send pathpacket (delayPath sorter rate rtt pids) packets.keys = some calls) :
    (∀ pid ∈ (collectRates rate pids).1.keys, Readable pathpacket pid) ∧
      ((collectRates rate pids).1.keys.map (stored pathpacket)).sum ≤ packets.size ∧
      calls.map Prod.fst =
        packets.keys.take ((collectRates rate pids).1.keys.map (stored pathpacket)).sum ∧
      (∀ call ∈ calls, call.2 ∈ (collectRates rate pids).1.keys) ∧
      ∀ choose : UInt8 → Bool, calls.countP (fun call => choose call.2) =
        ((collectRates rate pids).1.keys.map fun pid =>
          if choose pid then stored pathpacket pid else 0).sum := by
  obtain ⟨readable, room, ids, paths⟩ := send_spec sent
  have perm : ((delayPath sorter rate rtt pids).map Key.pid).Perm (collectRates rate pids).1.keys :=
    delayPath_perm sorter rtt distinct
  have total : ((delayPath sorter rate rtt pids).map fun key => stored pathpacket key.pid).sum =
      ((collectRates rate pids).1.keys.map (stored pathpacket)).sum := by
    rw [← (perm.map (stored pathpacket)).sum_eq, List.map_map]
    rfl
  rw [total, SortedMap.length_keys] at room
  rw [total] at ids
  refine ⟨?_, room, ids, ?_, ?_⟩
  · intro pid member
    obtain ⟨key, isKey, rfl⟩ := List.mem_map.mp (perm.mem_iff.mpr member)
    exact readable key isKey
  · intro call isCall
    have path : call.2 ∈ calls.map Prod.snd := List.mem_map_of_mem isCall
    rw [paths, List.mem_flatMap] at path
    obtain ⟨key, isKey, same⟩ := path
    rw [(List.mem_replicate.mp same).2]
    exact perm.mem_iff.mp (List.mem_map_of_mem isKey)
  · intro choose
    calc calls.countP (fun call => choose call.2)
        = (calls.map Prod.snd).countP choose := by rw [List.countP_map]; rfl
      _ = ((delayPath sorter rate rtt pids).map fun key =>
            if choose key.pid then stored pathpacket key.pid else 0).sum := by
          rw [paths, List.countP_flatMap]
          simp only [Function.comp_def, List.countP_replicate]
      _ = (((delayPath sorter rate rtt pids).map Key.pid).map fun pid =>
            if choose pid then stored pathpacket pid else 0).sum := by rw [List.map_map]; rfl
      _ = _ := (perm.map _).sum_eq

/-! ## Both loops -/

/-- All paths but the last have the same number of packets stored. -/
structure Stored (pathpacket : SortedMap UInt8 UInt32) (init : List UInt8) (last : UInt8)
    (share rest : Nat) : Prop where
  init : ∀ pid ∈ init, stored pathpacket pid = share
  last : stored pathpacket last = rest

theorem Stored.sum {pathpacket : SortedMap UInt8 UInt32} {init : List UInt8} {last : UInt8}
    {share rest : Nat} (all : Stored pathpacket init last share rest) (choose : UInt8 → Bool) :
    ((init ++ [last]).map fun pid => if choose pid then stored pathpacket pid else 0).sum =
      init.countP choose * share + if choose last then rest else 0 := by
  obtain ⟨same, isLast⟩ := all
  rw [List.map_append, List.sum_append, List.map_singleton, List.sum_singleton, isLast]
  congr 1
  induction init with
  | nil => simp
  | cons pid init ih =>
      rw [List.map_cons, List.sum_cons, List.countP_cons,
        ih fun other member => same other (List.mem_cons_of_mem _ member),
        same pid List.mem_cons_self]
      split_ifs
      · rw [Nat.add_one_mul, Nat.add_comm]
      · rw [Nat.zero_add, Nat.add_zero]

theorem Stored.total {pathpacket : SortedMap UInt8 UInt32} {init : List UInt8} {last : UInt8}
    {share rest : Nat} (all : Stored pathpacket init last share rest) :
    ((init ++ [last]).map (stored pathpacket)).sum = init.length * share + rest := by
  have sum := all.sum fun _ => true
  simpa using sum

/-- The numbers for which both loops succeed: something is left for the last path, and
no path has more packets than an `int` counts. -/
structure Room (paths share size : Nat) : Prop where
  counted : size < 2 ^ 32
  room : paths * share < size
  eachFits : 0 < paths → share < 2 ^ 31
  restFits : size - paths * share < 2 ^ 31

theorem scaled_zero (totalrate rate : Nat) : scaled 0 totalrate rate = 0 := by
  have half : Representable 53 (1 / 2 : ℚ) := ⟨1, -1, by decide, by norm_num⟩
  rw [scaled, Nat.cast_zero, zero_mul, Rounding.round_zero, zero_div, Rounding.round_zero, zero_add,
    round_of_representable half]
  exact Nat.floor_eq_zero.mpr (by norm_num)

section

variable {totalrate firstRate n : UInt32} {init : List (UInt8 × UInt32)} {last : UInt8 × UInt32}
  {pathpacket : SortedMap UInt8 UInt32}

theorem keys_of_entries (entries : (collectRates rate pids).1.entries = init ++ [last]) :
    (collectRates rate pids).1.keys = init.map Prod.fst ++ [last.1] := by
  rw [SortedMap.keys, entries, List.map_append, List.map_singleton]

theorem nodup_of_entries (entries : (collectRates rate pids).1.entries = init ++ [last]) :
    ((init ++ [last]).map Prod.fst).Nodup := by
  rw [← entries]
  exact SortedMap.keys_nodup _

/-- The entries when there is room. -/
theorem stored_of_room (defined : num (packetNum packets) totalrate firstRate = some n)
    (distinct : ((init ++ [last]).map Prod.fst).Nodup)
    (allocated : allocate (packetNum packets) totalrate firstRate (init ++ [last])
      (packetNum packets) .empty = some pathpacket)
    (room : Room init.length n.toNat packets.size) :
    (∀ pid ∈ init.map Prod.fst, pathpacket.find? pid = some n) ∧
      ∃ rest, pathpacket.find? last.1 = some rest ∧
        rest.toNat = packets.size - init.length * n.toNat := by
  obtain ⟨result, same, isLast, -, enough, -⟩ := allocate_spec defined distinct
    (packetNum packets) .empty fun _ _ => rfl
  obtain rfl := Option.some.inj (same.symm.trans allocated)
  have count := toNat_packetNum_of_lt room.counted
  have product : (UInt32.ofNat init.length * n).toNat = init.length * n.toNat := by
    rw [UInt32.toNat_mul, UInt32.toNat_ofNat', Nat.mod_mul_mod,
      Nat.mod_eq_of_lt (lt_trans room.room room.counted)]
  have below : UInt32.ofNat init.length * n ≤ packetNum packets := by
    rw [UInt32.le_iff_toNat_le, product, count]
    exact le_of_lt room.room
  have difference : (packetNum packets - UInt32.ofNat init.length * n).toNat =
      packets.size - init.length * n.toNat := by
    rw [UInt32.toNat_sub_of_le _ _ below, product, count]
  have positive : packetNum packets - UInt32.ofNat init.length * n > 0 := by
    apply UInt32.lt_iff_toNat_lt.mpr
    rw [difference]
    exact Nat.sub_pos_of_lt room.room
  rw [if_pos positive] at isLast
  refine ⟨?_, _, isLast, difference⟩
  intro pid member
  obtain ⟨entry, isEntry, rfl⟩ := List.mem_map.mp member
  exact enough (by rw [count]; exact room.room) entry isEntry

theorem stored_of_find? {pid : UInt8} {count : UInt32}
    (found : pathpacket.find? pid = some count) : stored pathpacket pid = count.toNat := by
  rw [stored, found]
  rfl

/-- With room, all packets are sent. -/
theorem sends_of_room (sorter : SortBy Key.rtt) (rtt : UInt8 → UInt32) (distinct : pids.Nodup)
    (entries : (collectRates rate pids).1.entries = init ++ [last])
    (defined : num (packetNum packets) totalrate firstRate = some n)
    (allocated : allocate (packetNum packets) totalrate firstRate (init ++ [last])
      (packetNum packets) .empty = some pathpacket)
    (room : Room init.length n.toNat packets.size) :
    Stored pathpacket (init.map Prod.fst) last.1 n.toNat
        (packets.size - init.length * n.toNat) ∧
      ∃ calls, send pathpacket (delayPath sorter rate rtt pids) packets.keys = some calls ∧
        calls.map Prod.fst = packets.keys := by
  have keys := keys_of_entries entries
  have nodup := nodup_of_entries entries
  obtain ⟨found, rest, foundRest, isRest⟩ := stored_of_room defined nodup allocated room
  have stores : Stored pathpacket (init.map Prod.fst) last.1 n.toNat
      (packets.size - init.length * n.toNat) :=
    ⟨fun pid member => stored_of_find? (found pid member),
      (stored_of_find? foundRest).trans isRest⟩
  have perm : ((delayPath sorter rate rtt pids).map Key.pid).Perm (init.map Prod.fst ++ [last.1]) :=
    keys ▸ delayPath_perm sorter rtt distinct
  have total : ((delayPath sorter rate rtt pids).map fun key => stored pathpacket key.pid).sum =
      packets.size := by
    have sum := (perm.map (stored pathpacket)).sum_eq
    rw [stores.total, List.map_map, List.length_map] at sum
    have whole := room.room
    exact sum.trans (by omega)
  have readable : ∀ key ∈ delayPath sorter rate rtt pids, Readable pathpacket key.pid := by
    intro key isKey
    cases List.mem_append.mp (perm.mem_iff.mp (List.mem_map_of_mem isKey)) with
    | inl before =>
        refine ⟨n, found key.pid before, room.eachFits ?_⟩
        obtain ⟨entry, isEntry, -⟩ := List.mem_map.mp before
        exact List.length_pos_of_mem isEntry
    | inr isLast =>
        rw [List.mem_singleton.mp isLast]
        exact ⟨rest, foundRest, isRest ▸ room.restFits⟩
  obtain ⟨calls, sent⟩ := send_isSome pathpacket (delayPath sorter rate rtt pids) packets.keys
    readable (by rw [total, SortedMap.length_keys])
  refine ⟨stores, calls, sent, ?_⟩
  rw [(send_spec sent).2.2.1, total, ← SortedMap.length_keys, List.take_length]

/-- If all packets are sent, there was room. -/
theorem room_of_sends (sorter : SortBy Key.rtt) (rtt : UInt8 → UInt32) (distinct : pids.Nodup)
    (entries : (collectRates rate pids).1.entries = init ++ [last])
    (defined : num (packetNum packets) totalrate firstRate = some n)
    (allocated : allocate (packetNum packets) totalrate firstRate (init ++ [last])
      (packetNum packets) .empty = some pathpacket) {calls : Calls}
    (sent : send pathpacket (delayPath sorter rate rtt pids) packets.keys = some calls)
    (all : calls.map Prod.fst = packets.keys) : Room init.length n.toNat packets.size := by
  have keys := keys_of_entries entries
  have nodup := nodup_of_entries entries
  obtain ⟨result, same, isLast, others, -, -⟩ := allocate_spec defined nodup
    (packetNum packets) .empty fun _ _ => rfl
  obtain rfl := Option.some.inj (same.symm.trans allocated)
  obtain ⟨readable, fits, taken, -, -⟩ := send_delayPath sorter rtt distinct sent
  rw [keys] at readable fits taken
  have before : ∀ entry ∈ init, result.find? entry.1 = some n ∧ n.toNat < 2 ^ 31 := by
    intro entry isEntry
    obtain ⟨count, found, small⟩ :=
      readable entry.1 (List.mem_append_left _ (List.mem_map_of_mem isEntry))
    cases others entry isEntry with
    | inl none =>
        rw [none] at found
        cases found
    | inr some =>
        obtain rfl := Option.some.inj (some.symm.trans found)
        exact ⟨found, small⟩
  obtain ⟨rest, found, small⟩ := readable last.1 (by simp)
  have stores : Stored result (init.map Prod.fst) last.1 n.toNat rest.toNat := by
    refine ⟨?_, stored_of_find? found⟩
    intro pid member
    obtain ⟨entry, isEntry, rfl⟩ := List.mem_map.mp member
    exact stored_of_find? (before entry isEntry).1
  rw [isLast] at found
  split_ifs at found with positive
  obtain rfl := Option.some.inj found
  have nonzero := UInt32.lt_iff_toNat_lt.mp positive
  change 0 < _ at nonzero
  have everything := congrArg List.length (all.symm.trans taken)
  rw [List.length_take, SortedMap.length_keys, stores.total, List.length_map] at everything
  rw [stores.total, List.length_map] at fits
  refine ⟨?_, by omega, ?_, by omega⟩
  · rcases toNat_packetNum packets with count | ⟨-, none⟩
    · rw [← count]
      exact UInt32.toNat_lt _
    · -- If the counter is zero, so is the share, and nothing is left for the last path.
      have zero : packetNum packets = 0 := UInt32.toNat_inj.mp none
      have share : scaled (0 : UInt32).toNat totalrate.toNat firstRate.toNat = 0 := scaled_zero _ _
      rw [zero, num, share] at defined
      split_ifs at defined
      rw [zero, ← Option.some.inj defined] at positive
      simp at positive
  · intro some
    obtain ⟨entry, member⟩ := List.exists_mem_of_length_pos some
    exact (before entry member).2

end

/-! ## Proportion -/

/-- The number of packets that went to a path. -/
def received (calls : Calls) (pid : UInt8) : Nat := calls.countP fun call => call.2 = pid

/-- The number of packets that did not go to a path with a rate and a smaller id. -/
def left (rate : UInt8 → UInt32) (packets : Packets) (calls : Calls) (pid : UInt8) : Nat :=
  packets.size - calls.countP fun call => rate call.2 ≠ 0 ∧ call.2 < pid

/-- A path with a rate that is not the last one. -/
def Earlier (rate : UInt8 → UInt32) (pids : List UInt8) (pid : UInt8) : Prop :=
  pid ∈ pids ∧ rate pid ≠ 0 ∧ ∃ other ∈ pids, rate other ≠ 0 ∧ pid < other

/-- Each path but the last receives its own share, as far as packets are left, and the
last one the remainder. -/
structure InProportion (rate : UInt8 → UInt32) (pids : List UInt8) (packets : Packets)
    (calls : Calls) : Prop where
  shares : ∀ pid, Earlier rate pids pid → received calls pid =
    min ⌊exactShare rate pids packets pid + 1 / 2⌋₊ (left rate packets calls pid)
  remainder : ∀ pid ∈ pids, rate pid ≠ 0 → ¬ Earlier rate pids pid →
    received calls pid = left rate packets calls pid

/-- The paths but the last are the first entries. -/
theorem earlier_iff (distinct : pids.Nodup) {init : List UInt8} {last : UInt8}
    (keys : (collectRates rate pids).1.keys = init ++ [last]) (pid : UInt8) :
    Earlier rate pids pid ↔ pid ∈ init := by
  have sorted := (collectRates rate pids).1.keys_sorted
  have member : ∀ pid, pid ∈ pids ∧ rate pid ≠ 0 ↔ pid ∈ init ∨ pid = last := by
    intro pid
    rw [← mem_keys_collectRates distinct, keys, List.mem_append, List.mem_singleton]
  rw [keys] at sorted
  obtain ⟨-, -, below⟩ := List.pairwise_append.mp sorted
  constructor
  · rintro ⟨registered, rated, other, isPath, hasRate, less⟩
    rcases (member pid).mp ⟨registered, rated⟩ with before | rfl
    · exact before
    · rcases (member other).mp ⟨isPath, hasRate⟩ with before | rfl
      · exact absurd (below other before pid (List.mem_singleton_self pid)) (lt_asymm less)
      · exact absurd less (lt_irrefl other)
  · intro before
    obtain ⟨registered, rated⟩ := (member pid).mpr (.inl before)
    obtain ⟨isPath, hasRate⟩ := (member last).mpr (.inr rfl)
    exact ⟨registered, rated, last, isPath, hasRate,
      below pid before last (List.mem_singleton_self last)⟩

/-- The counts of what is sent: a path but the last receives the common number, with
more than that left for it, and the last one what is left. -/
theorem received_spec (sorter : SortBy Key.rtt) (rtt : UInt8 → UInt32) (distinct : pids.Nodup)
    {init : List UInt8} {last : UInt8} {share : Nat} {pathpacket : SortedMap UInt8 UInt32}
    (keys : (collectRates rate pids).1.keys = init ++ [last])
    (stores : Stored pathpacket init last share (packets.size - init.length * share))
    (room : init.length * share < packets.size) {calls : Calls}
    (sent : send pathpacket (delayPath sorter rate rtt pids) packets.keys = some calls) :
    (∀ pid ∈ init, received calls pid = share ∧ share < left rate packets calls pid) ∧
      received calls last = left rate packets calls last := by
  obtain ⟨-, -, -, onPaths, counts⟩ := send_delayPath sorter rtt distinct sent
  rw [keys] at onPaths counts
  have nodup : (init ++ [last]).Nodup := keys ▸ SortedMap.keys_nodup _
  have sorted := (collectRates rate pids).1.keys_sorted
  rw [keys] at sorted
  obtain ⟨-, -, below⟩ := List.pairwise_append.mp sorted
  have isBelow : ∀ pid ∈ init, pid < last := fun pid before =>
    below pid before last (List.mem_singleton_self last)
  have receivedOf : ∀ pid, received calls pid =
      init.countP (fun other => decide (other = pid)) * share +
        if last = pid then packets.size - init.length * share else 0 := by
    intro pid
    have equal := (counts fun other => decide (other = pid)).trans (stores.sum _)
    simp only [decide_eq_true_eq] at equal
    exact equal
  have leftOf : ∀ pid, left rate packets calls pid = packets.size -
      (init.countP (fun other => decide (other < pid)) * share +
        if last < pid then packets.size - init.length * share else 0) := by
    intro pid
    have smaller := (counts fun other => decide (other < pid)).trans (stores.sum _)
    simp only [decide_eq_true_eq] at smaller
    rw [left, ← smaller]
    congr 1
    apply List.countP_congr
    intro call isCall
    have rated := ((mem_keys_collectRates distinct).mp (keys ▸ onPaths call isCall)).2
    simp [rated]
  constructor
  · intro pid before
    have once : init.countP (fun other => decide (other = pid)) = 1 :=
      List.count_eq_one_of_mem (List.nodup_append.mp nodup).1 before
    have others : init.countP (fun other => decide (other < pid)) < init.length := by
      apply lt_of_le_of_ne List.countP_le_length
      intro all
      have less := List.countP_eq_length.mp all pid before
      exact lt_irrefl pid (of_decide_eq_true less)
    have enough := Nat.mul_le_mul_right share (Nat.succ_le_of_lt others)
    rw [Nat.succ_mul] at enough
    rw [receivedOf, leftOf, once, if_neg (ne_of_gt (isBelow pid before)),
      if_neg (lt_asymm (isBelow pid before))]
    omega
  · have none : init.countP (fun other => decide (other = last)) = 0 :=
      List.countP_eq_zero.mpr fun pid before same =>
        absurd (of_decide_eq_true same) (ne_of_lt (isBelow pid before))
    have all : init.countP (fun other => decide (other < last)) = init.length :=
      List.countP_eq_length.mpr fun pid before => decide_eq_true (isBelow pid before)
    rw [receivedOf, leftOf, none, all, if_pos rfl, if_neg (lt_irrefl last)]
    omega

/-- **What is sent is in proportion if and only if the shares are the number that all
paths have.** -/
theorem inProportion_iff (sorter : SortBy Key.rtt) (rtt : UInt8 → UInt32) (distinct : pids.Nodup)
    {init : List UInt8} {last : UInt8} {share : Nat} {pathpacket : SortedMap UInt8 UInt32}
    (keys : (collectRates rate pids).1.keys = init ++ [last])
    (stores : Stored pathpacket init last share (packets.size - init.length * share))
    (room : init.length * share < packets.size) {calls : Calls}
    (sent : send pathpacket (delayPath sorter rate rtt pids) packets.keys = some calls) :
    InProportion rate pids packets calls ↔
      ∀ pid, Earlier rate pids pid → ⌊exactShare rate pids packets pid + 1 / 2⌋₊ = share := by
  obtain ⟨before, isLast⟩ := received_spec sorter rtt distinct keys stores room sent
  constructor
  · intro proportion pid earlier
    have own := proportion.shares pid earlier
    obtain ⟨equal, more⟩ := before pid ((earlier_iff distinct keys pid).mp earlier)
    rw [equal] at own
    omega
  · intro same
    refine ⟨?_, ?_⟩
    · intro pid earlier
      obtain ⟨equal, more⟩ := before pid ((earlier_iff distinct keys pid).mp earlier)
      rw [equal, same pid earlier]
      omega
    · intro pid registered rated notEarlier
      have member := (mem_keys_collectRates distinct).mpr ⟨registered, rated⟩
      rw [keys, List.mem_append, ← earlier_iff distinct keys] at member
      rw [List.mem_singleton.mp (member.resolve_left notEarlier)]
      exact isLast

/-! ## The scheduler -/

/-- Every packet is scheduled once on a registered path and, where the rates decide, in
proportion to them. -/
def ScalesRates (rate : UInt8 → UInt32) (pids : List UInt8) (packets : Packets)
    (result : Option Calls) : Prop :=
  ∃ calls, result = some calls ∧ Schedules packets (· ∈ pids) calls ∧
    (2 ≤ pids.length → 2 ≤ packets.size → 0 < rateSum rate pids →
      InProportion rate pids packets calls)

/-- The first path with a rate. -/
def IsFirst (rate : UInt8 → UInt32) (pids : List UInt8) (first : UInt8) : Prop :=
  first ∈ pids ∧ rate first ≠ 0 ∧ ∀ other ∈ pids, rate other ≠ 0 → first ≤ other

/-- The product of the number of packets and the rate of the first path, beyond which the
arithmetic in doubles can move a share. -/
def ShortProduct (rate : UInt8 → UInt32) (pids : List UInt8) (packets : Packets) : Prop :=
  ∀ first, IsFirst rate pids first → packets.size * (rate first).toNat < 2 ^ 50

/-- All paths but the last have the same exact share, the total does not vanish in 32 bits, with
what is left of it the share of the first path is the same, and there is room. -/
structure SameShares (rate : UInt8 → UInt32) (pids : List UInt8) (packets : Packets)
    (first : UInt8) (share : Nat) : Prop where
  isFirst : IsFirst rate pids first
  total : ¬ 2 ^ 32 ∣ rateSum rate pids
  quotient : ⌊(packets.size : ℚ) * (rate first).toNat / (rateSum rate pids % 2 ^ 32 : ℕ) +
    1 / 2⌋₊ = share
  shares : ∀ pid, Earlier rate pids pid → ⌊exactShare rate pids packets pid + 1 / 2⌋₊ = share
  room : Room (pids.countP (fun pid => rate pid ≠ 0) - 1) share packets.size

/-- The inputs that are scheduled correctly. -/
inductive ScalesWhen (rate : UInt8 → UInt32) (pids : List UInt8) (packets : Packets) : Prop
  | roundRobin (without : pids.length = 1 ∨ packets.size = 1) (few : pids.length < 256)
  | onePath (paths : 2 ≤ pids.length) (many : 2 ≤ packets.size)
      (one : pids.countP (fun pid => rate pid ≠ 0) = 1) (fits : packets.size < 2 ^ 31)
  | sameShares (paths : 2 ≤ pids.length) (many : 2 ≤ packets.size)
      (several : 2 ≤ pids.countP fun pid => rate pid ≠ 0) (short : ShortProduct rate pids packets)
      (first : UInt8) (share : Nat) (same : SameShares rate pids packets first share)

theorem IsFirst.unique {first second : UInt8} (one : IsFirst rate pids first)
    (two : IsFirst rate pids second) : first = second :=
  le_antisymm (one.2.2 second two.1 two.2.1) (two.2.2 first one.1 one.2.1)

theorem isFirst_head (distinct : pids.Nodup) {entry : UInt8 × UInt32}
    {rest : List (UInt8 × UInt32)} (entries : (collectRates rate pids).1.entries = entry :: rest) :
    IsFirst rate pids entry.1 ∧ entry.2 = rate entry.1 := by
  have sorted := (collectRates rate pids).1.sorted
  rw [entries] at sorted
  have member : entry ∈ (collectRates rate pids).1.entries := by
    rw [entries]
    exact List.mem_cons_self
  obtain ⟨registered, rated, same⟩ := (mem_collectRates distinct).mp member
  refine ⟨⟨registered, rated, ?_⟩, same⟩
  intro other isPath hasRate
  have found : (other, rate other) ∈ (collectRates rate pids).1.entries :=
    (mem_collectRates distinct).mpr ⟨isPath, hasRate, rfl⟩
  rw [entries] at found
  cases List.mem_cons.mp found with
  | inl isEntry => exact le_of_eq (congrArg Prod.fst isEntry).symm
  | inr behind => exact le_of_lt ((List.pairwise_cons.mp sorted).1 _ behind)

theorem countP_rated (distinct : pids.Nodup) :
    pids.countP (fun pid => rate pid ≠ 0) = (collectRates rate pids).1.entries.length := by
  rw [List.countP_eq_length_filter, (rated_perm distinct).length_eq, SortedMap.length_keys]
  rfl

/-- The number for each path is the share of the first path in doubles. -/
theorem num_eq_some_iff (distinct : pids.Nodup) (counted : packets.size < 2 ^ 32)
    (rate₁ : UInt32) (n : UInt32) :
    num (packetNum packets) (collectRates rate pids).2 rate₁ = some n ↔
      ¬ 2 ^ 32 ∣ rateSum rate pids ∧
        scaled packets.size (rateSum rate pids % 2 ^ 32) rate₁.toNat = n.toNat := by
  have count := toNat_packetNum_of_lt counted
  have total : (collectRates rate pids).2.toNat = rateSum rate pids % 2 ^ 32 := by
    rw [(collectRates_spec rate distinct).2, UInt32.toNat_ofNat']
  rw [num, count, total, ← totalrate_ne_zero_iff distinct]
  split_ifs with undefined
  · apply iff_of_false (fun none => nomatch none)
    rintro ⟨nonzero, same⟩
    rw [same] at undefined
    exact absurd (UInt32.toNat_lt n) (not_lt.mpr (undefined.resolve_left nonzero))
  · obtain ⟨nonzero, fits⟩ := not_or.mp undefined
    rw [Option.some.injEq, ← UInt32.toNat_inj, UInt32.toNat_ofNat',
      Nat.mod_eq_of_lt (not_le.mp fits)]
    exact (and_iff_right nonzero).symm

/-- The share of an only path is not larger than the number of packets. -/
theorem scaled_self_le {size rate : Nat} (some : 0 < rate) (small : rate < 2 ^ 32)
    (fits : size ≤ 2 ^ 31) : scaled size rate rate ≤ 2 ^ 31 := by
  have positive : (0 : ℚ) < rate := Nat.cast_pos.mpr some
  have product : round 53 ((size : ℚ) * rate) ≤ 2 ^ 31 * rate := by
    have whole : Representable 53 ((2 : ℚ) ^ 31 * rate) :=
      ⟨rate, 31, lt_trans small (by decide), by rw [mul_comm]; norm_num⟩
    rw [← round_of_representable whole]
    apply round_mono (by positivity)
    exact mul_le_mul_of_nonneg_right (by exact_mod_cast fits) (le_of_lt positive)
  have quotient : round 53 (round 53 ((size : ℚ) * rate) / rate) ≤ 2 ^ 31 := by
    have whole : Representable 53 ((2 : ℚ) ^ 31) := ⟨1, 31, by decide, by norm_num⟩
    rw [← round_of_representable whole]
    refine round_mono (div_nonneg (round_nonneg (by positivity))
      (le_of_lt positive)) ?_
    rwa [div_le_iff₀ positive]
  have sum : round 53 (round 53 (round 53 ((size : ℚ) * rate) / rate) + 1 / 2) ≤
      2 ^ 31 + 1 / 2 := by
    have whole : Representable 53 ((2 : ℚ) ^ 31 + 1 / 2) :=
      ⟨2 ^ 32 + 1, -1, by decide, by norm_num⟩
    rw [← round_of_representable whole]
    refine round_mono ?_ (by linarith)
    exact add_nonneg (round_nonneg (div_nonneg (round_nonneg (by positivity))
      (le_of_lt positive))) (by norm_num)
  refine Nat.le_of_lt_succ ((Nat.floor_lt' (by decide)).mpr (lt_of_le_of_lt sum ?_))
  norm_num

variable {costType : CostType} {info : UInt8 → PathRates}

/-- What remains of the scheduler when some path has a rate. -/
theorem incomingPackets_rated (sorter : SortBy Key.rtt) (rtt : UInt8 → UInt32)
    (rates : rate = fun pid => (info pid).ofCostType costType)
    (general : ¬ (pids.length = 1 ∨ packetNum packets = 1)) {init : List (UInt8 × UInt32)}
    {last : UInt8 × UInt32} (distinct : pids.Nodup)
    (entries : (collectRates rate pids).1.entries = init ++ [last]) {first : UInt8}
    (isFirst : IsFirst rate pids first) :
    (∃ n pathpacket,
      num (packetNum packets) (collectRates rate pids).2 (rate first) = some n ∧
      allocate (packetNum packets) (collectRates rate pids).2 (rate first) (init ++ [last])
        (packetNum packets) .empty = some pathpacket ∧
      incomingPackets sorter costType info rtt pids packets =
        send pathpacket (delayPath sorter rate rtt pids) packets.keys) ∨
    num (packetNum packets) (collectRates rate pids).2 (rate first) = none ∧
      incomingPackets sorter costType info rtt pids packets = none := by
  obtain ⟨entry, rest, same⟩ :=
    List.exists_cons_of_ne_nil (List.append_ne_nil_of_right_ne_nil init (List.cons_ne_nil last []))
  obtain ⟨isHead, isRate⟩ := isFirst_head distinct (entries.trans same)
  obtain rfl := isFirst.unique isHead
  rw [incomingPackets, if_neg general, ← rates]
  dsimp only
  rw [entries, same, List.head?_cons, Option.bind_some, isRate]
  cases defined : num (packetNum packets) (collectRates rate pids).2 (rate entry.1) with
  | none =>
      rw [allocate, defined]
      exact .inr ⟨rfl, rfl⟩
  | some n =>
      obtain ⟨pathpacket, allocated, -⟩ := allocate_spec defined (nodup_of_entries entries)
        (packetNum packets) .empty fun _ _ => rfl
      have nonzero : (collectRates rate pids).2 ≠ 0 := by
        intro zero
        rw [num, if_pos (.inl zero)] at defined
        cases defined
      rw [← same, allocated, Option.bind_some, if_neg nonzero]
      exact .inl ⟨n, pathpacket, rfl, rfl, rfl⟩

/-- With a rate on some path, the packets are scheduled in proportion if and only if the
first loop gives each path its share and there is room. -/
theorem scalesRates_rated_iff (sorter : SortBy Key.rtt) (rtt : UInt8 → UInt32)
    (rates : rate = fun pid => (info pid).ofCostType costType)
    (distinct : pids.Nodup) (paths : 2 ≤ pids.length) (many : 2 ≤ packets.size)
    {first : UInt8} (isFirst : IsFirst rate pids first) :
    ScalesRates rate pids packets (incomingPackets sorter costType info rtt pids packets) ↔
      ∃ n, num (packetNum packets) (collectRates rate pids).2 (rate first) = some n ∧
        Room (pids.countP (fun pid => rate pid ≠ 0) - 1) n.toNat packets.size ∧
        ∀ pid, Earlier rate pids pid →
          ⌊exactShare rate pids packets pid + 1 / 2⌋₊ = n.toNat := by
  have general : ¬ (pids.length = 1 ∨ packetNum packets = 1) :=
    not_or.mpr ⟨by omega, packetNum_ne_one many⟩
  have head : (first, rate first) ∈ (collectRates rate pids).1.entries :=
    (mem_collectRates distinct).mpr ⟨isFirst.1, isFirst.2.1, rfl⟩
  have nonempty := List.ne_nil_of_mem head
  obtain ⟨init, last, entries⟩ : ∃ init last, (collectRates rate pids).1.entries = init ++ [last] :=
    ⟨_, _, (List.dropLast_append_getLast nonempty).symm⟩
  have keys : (collectRates rate pids).1.keys = init.map Prod.fst ++ [last.1] := by
    rw [SortedMap.keys, entries, List.map_append, List.map_singleton]
  have others : pids.countP (fun pid => rate pid ≠ 0) - 1 = init.length := by
    rw [countP_rated distinct, entries, List.length_append, List.length_singleton,
      Nat.add_sub_cancel]
  have positive := rateSum_pos isFirst.1 isFirst.2.1
  rw [others]
  rcases incomingPackets_rated sorter rtt rates general distinct entries
    isFirst with ⟨n, pathpacket, defined, allocated, result⟩ | ⟨undefined, result⟩
  · constructor
    · rintro ⟨calls, scheduled, served, proportion⟩
      rw [result] at scheduled
      have room := room_of_sends sorter rtt distinct entries defined allocated scheduled served.ids
      obtain ⟨stores, -⟩ := sends_of_room sorter rtt distinct entries defined allocated room
      have length := room.room
      rw [← List.length_map (f := Prod.fst)] at stores length
      exact ⟨n, defined, room, (inProportion_iff sorter rtt distinct keys stores length
        scheduled).mp (proportion paths many positive)⟩
    · rintro ⟨m, same, room, shares⟩
      obtain rfl := Option.some.inj (defined.symm.trans same)
      obtain ⟨stores, calls, sent, ids⟩ :=
        sends_of_room sorter rtt distinct entries defined allocated room
      have onPaths := (send_delayPath sorter rtt distinct sent).2.2.2.1
      have length := room.room
      rw [← List.length_map (f := Prod.fst)] at stores length
      refine ⟨calls, result.trans sent, ⟨ids, ?_⟩, ?_⟩
      · intro call isCall
        exact ((mem_keys_collectRates distinct).mp (onPaths call isCall)).1
      · intro _ _ _
        exact (inProportion_iff sorter rtt distinct keys stores length sent).mpr shares
  · refine iff_of_false ?_ ?_
    · rintro ⟨calls, scheduled, -⟩
      rw [result] at scheduled
      cases scheduled
    · rintro ⟨n, defined, -⟩
      rw [undefined] at defined
      cases defined

/-- Where the rates do not decide, round robin is all that matters. -/
theorem scalesRates_roundRobin_iff (distinct : pids.Nodup) (paths : pids ≠ [])
    (packet : 0 < packets.size)
    (without : ¬ (2 ≤ pids.length ∧ 2 ≤ packets.size ∧ 0 < rateSum rate pids)) :
    ScalesRates rate pids packets (roundRobin pids packets) ↔ pids.length < 256 := by
  rw [← roundRobin_iff distinct paths packet]
  refine exists_congr fun calls => and_congr_right fun _ => and_iff_left ?_
  exact fun several many positive => absurd ⟨several, many, positive⟩ without

/-- **Several packets for several paths without a rate are undefined.** -/
theorem incomingPackets_zero (sorter : SortBy Key.rtt) (rtt : UInt8 → UInt32)
    (rates : rate = fun pid => (info pid).ofCostType costType) (distinct : pids.Nodup)
    (general : ¬ (pids.length = 1 ∨ packetNum packets = 1))
    (none : ∀ pid ∈ pids, rate pid = 0) :
    incomingPackets sorter costType info rtt pids packets = .none := by
  have empty : (collectRates rate pids).1 = .empty := by
    apply SortedMap.ext_find?
    intro pid
    rw [(collectRates_spec rate distinct).1, if_neg fun both => both.2 (none pid both.1)]
    rfl
  rw [incomingPackets, if_neg general, ← rates]
  dsimp only
  rw [empty]
  rfl

/-- An only path with a rate can have all packets that an `int` counts. -/
theorem onePath_room (distinct : pids.Nodup) (one : pids.countP (fun pid => rate pid ≠ 0) = 1)
    (fits : packets.size < 2 ^ 31) (packet : 0 < packets.size) {first : UInt8}
    (isFirst : IsFirst rate pids first) :
    ∃ n, num (packetNum packets) (collectRates rate pids).2 (rate first) = some n ∧
      Room (pids.countP (fun pid => rate pid ≠ 0) - 1) n.toNat packets.size ∧
      ∀ pid, ¬ Earlier rate pids pid := by
  obtain ⟨entry, single⟩ := List.length_eq_one_iff.mp ((countP_rated distinct).symm.trans one)
  obtain ⟨isHead, isRate⟩ := isFirst_head distinct single
  obtain rfl := isFirst.unique isHead
  have sum : rateSum rate pids = (rate entry.1).toNat := by
    rw [rateSum_eq distinct, single, ← isRate]
    exact List.sum_singleton
  have small := UInt32.toNat_lt (rate entry.1)
  have positive : 0 < (rate entry.1).toNat :=
    Nat.pos_of_ne_zero fun zero => isFirst.2.1 (UInt32.toNat_inj.mp zero)
  have bound : scaled packets.size (rate entry.1).toNat (rate entry.1).toNat ≤ 2 ^ 31 :=
    scaled_self_le positive small (le_of_lt fits)
  have range : scaled packets.size (rate entry.1).toNat (rate entry.1).toNat < 2 ^ 32 := by omega
  refine ⟨UInt32.ofNat (scaled packets.size (rate entry.1).toNat (rate entry.1).toNat),
    (num_eq_some_iff distinct (by omega) _ _).mpr ⟨?_, ?_⟩, ?_, ?_⟩
  · rw [sum]
    exact Nat.not_dvd_of_pos_of_lt positive small
  · rw [sum, Nat.mod_eq_of_lt small, UInt32.toNat_ofNat', Nat.mod_eq_of_lt range]
  · rw [one]
    exact ⟨by omega, by omega, fun some => absurd some (Nat.lt_irrefl 0), by omega⟩
  · have keys : (collectRates rate pids).1.keys = [] ++ [entry.1] := by
      rw [SortedMap.keys, single]
      rfl
    intro pid earlier
    exact absurd ((earlier_iff distinct keys pid).mp earlier) List.not_mem_nil

/-- In doubles the share of a path is exact for a product of up to 50 bits. -/
theorem scaled_eq {size total rate : Nat} (some : 0 < total) (product : size * rate < 2 ^ 50)
    (small : total < 2 ^ 32) :
    scaled size total rate = ⌊(size : ℚ) * rate / total + 1 / 2⌋₊ := by
  rw [scaled, ← Nat.cast_mul, round_of_lt (by omega)]
  exact floor_round_div_add_half some (by omega)

/-- A scheduler that serves all packets in proportion for certain inputs, and for products of 50
bits only for these. -/
structure ProportionalWhen (rate : UInt8 → UInt32) (pids : List UInt8) (packets : Packets)
    (proportional : Prop) : Prop where
  enough : ScalesWhen rate pids packets → proportional
  needed : ShortProduct rate pids packets → proportional → ScalesWhen rate pids packets

/-- With a rate on some path. -/
theorem proportionalWhen_rated (sorter : SortBy Key.rtt) (rtt : UInt8 → UInt32)
    (rates : rate = fun pid => (info pid).ofCostType costType)
    (distinct : pids.Nodup) (paths : 2 ≤ pids.length) (many : 2 ≤ packets.size)
    {first : UInt8} (isFirst : IsFirst rate pids first) :
    ProportionalWhen rate pids packets
      (ScalesRates rate pids packets (incomingPackets sorter costType info rtt pids packets)) := by
  have someRated : 0 < pids.countP fun pid => rate pid ≠ 0 :=
    List.countP_pos_iff.mpr ⟨first, isFirst.1, decide_eq_true isFirst.2.1⟩
  have exactly : ShortProduct rate pids packets → ¬ 2 ^ 32 ∣ rateSum rate pids →
      scaled packets.size (rateSum rate pids % 2 ^ 32) (rate first).toNat =
        ⌊(packets.size : ℚ) * (rate first).toNat / (rateSum rate pids % 2 ^ 32 : ℕ) +
          1 / 2⌋₊ := fun short total =>
    scaled_eq (Nat.pos_of_ne_zero fun zero => total (Nat.dvd_of_mod_eq_zero zero))
      (short first isFirst) (Nat.mod_lt _ (by decide))
  have spec := @scalesRates_rated_iff _ _ packets _ _ sorter rtt rates distinct paths many
    first isFirst
  constructor
  · intro when
    refine spec.mpr ?_
    cases when with
    | roundRobin without => omega
    | onePath _ _ one fits =>
        obtain ⟨n, defined, room, noEarlier⟩ := onePath_room distinct one fits (by omega) isFirst
        exact ⟨n, defined, room, fun pid earlier => absurd earlier (noEarlier pid)⟩
    | sameShares _ _ several short other share same =>
        obtain rfl := isFirst.unique same.isFirst
        have small : share < 2 ^ 32 := by
          have fits := same.room.eachFits (by omega)
          omega
        have value : (UInt32.ofNat share).toNat = share := by
          rw [UInt32.toNat_ofNat', Nat.mod_eq_of_lt small]
        have defined := (num_eq_some_iff distinct same.room.counted (rate first)
          (UInt32.ofNat share)).mpr
          ⟨same.total, by rw [value, exactly short same.total, same.quotient]⟩
        exact ⟨_, defined, value.symm ▸ same.room, value.symm ▸ same.shares⟩
  · intro short scales
    obtain ⟨n, defined, room, shares⟩ := spec.mp scales
    obtain ⟨total, inDoubles⟩ := (num_eq_some_iff distinct room.counted _ _).mp defined
    cases Nat.lt_or_ge (pids.countP fun pid => rate pid ≠ 0) 2 with
    | inl one =>
        have rest := room.restFits
        rw [show (pids.countP fun pid => rate pid ≠ 0) - 1 = 0 by omega] at rest
        exact .onePath paths many (by omega) (by omega)
    | inr two =>
        exact .sameShares paths many two short first n.toNat
          ⟨isFirst, total, (exactly short total).symm.trans inDoubles, shares, room⟩

/-- **The packets are all scheduled in proportion when** they go round robin, or to one path, or
all paths but the last have the same share and leave room; and for products of the number of
packets and the first rate below `2 ^ 50` only then. -/
theorem incomingPackets_proportionalWhen (sorter : SortBy Key.rtt) (costType : CostType)
    (info : UInt8 → PathRates) (rtt : UInt8 → UInt32) (distinct : pids.Nodup) (paths : pids ≠ [])
    (packet : 0 < packets.size) :
    ProportionalWhen (fun pid => (info pid).ofCostType costType) pids packets
      (ScalesRates (fun pid => (info pid).ofCostType costType) pids packets
        (incomingPackets sorter costType info rtt pids packets)) := by
  generalize rates : (fun pid => (info pid).ofCostType costType) = rate
  have countOne : packetNum packets = 1 ↔ packets.size = 1 := by
    refine ⟨?_, fun one => by rw [packetNum, one]; rfl⟩
    intro one
    by_contra other
    exact packetNum_ne_one (by omega) one
  by_cases few : pids.length = 1 ∨ packets.size = 1
  · have result : incomingPackets sorter costType info rtt pids packets =
        roundRobin pids packets := by
      rw [incomingPackets, if_pos (few.imp_right countOne.mpr)]
    have byLength := @scalesRates_roundRobin_iff rate _ _ distinct paths packet (by omega)
    rw [result]
    refine ⟨fun when => byLength.mpr ?_, fun _ scales => .roundRobin few (byLength.mp scales)⟩
    rcases when with ⟨-, less⟩ | ⟨several, many, -, -⟩ | ⟨several, many, -, -, -, -, -⟩
    · exact less
    all_goals omega
  have several : 2 ≤ pids.length ∧ 2 ≤ packets.size := by
    have := List.length_pos_iff.mpr paths
    omega
  by_cases none : ∀ pid ∈ pids, rate pid = 0
  · have noPath : pids.countP (fun pid => rate pid ≠ 0) = 0 :=
      List.countP_eq_zero.mpr fun pid member rated => of_decide_eq_true rated (none pid member)
    have undefined := @incomingPackets_zero _ _ packets _ _ sorter rtt rates.symm distinct
      (fun one => few (one.imp_right countOne.mp)) none
    rw [undefined]
    constructor
    · rintro (⟨without, -⟩ | ⟨-, -, one, -⟩ | ⟨-, -, two, -, -, -, -⟩) <;> omega
    · rintro - ⟨calls, defined, -⟩
      cases defined
  obtain ⟨first, isFirst⟩ : ∃ first, IsFirst rate pids first := by
    obtain ⟨pid, registered, rated⟩ := not_forall₂.mp none
    have member : (pid, rate pid) ∈ (collectRates rate pids).1.entries :=
      (mem_collectRates distinct).mpr ⟨registered, rated, rfl⟩
    obtain ⟨entry, rest, entries⟩ := List.exists_cons_of_ne_nil (List.ne_nil_of_mem member)
    exact ⟨entry.1, (isFirst_head distinct entries).1⟩
  exact proportionalWhen_rated sorter rtt rates.symm distinct several.1 several.2 isFirst

/-- With a total of 32 bits, several paths are served in proportion if all but the last have the
same share and something is left for the last. -/
theorem sameShares_of_total {first : UInt8} {share : Nat} (isFirst : IsFirst rate pids first)
    (several : 2 ≤ pids.countP fun pid => rate pid ≠ 0) (total : rateSum rate pids < 2 ^ 32)
    (size : packets.size < 2 ^ 31)
    (shares : ∀ pid, Earlier rate pids pid →
      ⌊exactShare rate pids packets pid + 1 / 2⌋₊ = share)
    (room : (pids.countP (fun pid => rate pid ≠ 0) - 1) * share < packets.size)
    (earlier : Earlier rate pids first) : SameShares rate pids packets first share where
  isFirst := isFirst
  total := Nat.not_dvd_of_pos_of_lt (rateSum_pos isFirst.1 isFirst.2.1) total
  quotient := by
    rw [Nat.mod_eq_of_lt total]
    exact shares first earlier
  shares := shares
  room := by
    have atLeast : share ≤ (pids.countP (fun pid => rate pid ≠ 0) - 1) * share :=
      Nat.le_mul_of_pos_left _ (by omega)
    exact ⟨by omega, room, fun _ => by omega, by omega⟩

theorem incomingPackets_equalRates :
    ScalesRates (fun _ => 1) [1, 2] twoPackets (incomingPackets (.insertion Key.rtt) .cSmooth
      (fun _ => ⟨1, 1⟩) (fun _ => 20) [1, 2] twoPackets) := by
  have when := @incomingPackets_proportionalWhen _ twoPackets (.insertion Key.rtt)
    .cSmooth (fun _ => ⟨1, 1⟩) (fun _ => 20) (show [1, 2].Nodup by decide) (by decide) (by decide)
  have isFirst : IsFirst (fun _ => 1) [1, 2] 1 := ⟨by decide, by decide, by simp⟩
  refine when.enough (.sameShares (by decide) (by decide) (by decide) ?_ 1 1 ?_)
  · intro first _
    change twoPackets.size * (1 : UInt32).toNat < 2 ^ 50
    decide
  refine sameShares_of_total isFirst (by decide) (by decide) (by decide)
    ?_ (by decide) ⟨by decide, by decide, 2, by decide, by decide, by decide⟩
  intro pid _
  have share : exactShare (fun _ => 1) [1, 2] twoPackets pid = 1 := by
    norm_num [exactShare, rateSum, twoPackets, SortedMap.size, UInt32.toNat_one]
  change ⌊exactShare (fun _ => 1) [1, 2] twoPackets pid + 1 / 2⌋₊ = 1
  rw [share]
  exact (Nat.floor_eq_iff (by norm_num)).mpr (by norm_num)

/-- Four packets of 1030 bytes. -/
def fourPackets : Packets := ⟨[(1, 1030), (2, 1030), (3, 1030), (4, 1030)], by decide⟩

/-- The first path has twice the rate of the others. -/
def doubleFirst (pid : UInt8) : PathRates := if pid = 1 then ⟨2, 2⟩ else ⟨1, 1⟩

/-- The second path is given the two packets of the first, and none is left for the third. -/
theorem doubleFirst_undefined : ¬ ScalesRates (fun pid => (doubleFirst pid).ofCostType .cSmooth)
    [1, 2, 3] fourPackets (incomingPackets (.insertion Key.rtt) .cSmooth doubleFirst (fun _ => 20)
      [1, 2, 3] fourPackets) := by
  have isFirst : IsFirst (fun pid => (doubleFirst pid).ofCostType .cSmooth) [1, 2, 3] 1 := by
    refine ⟨by decide, by decide, ?_⟩
    intro other member _
    simp only [List.mem_cons, List.not_mem_nil, or_false] at member
    rcases member with rfl | rfl | rfl <;> decide
  have total : rateSum (fun pid => (doubleFirst pid).ofCostType .cSmooth) [1, 2, 3] = 4 := rfl
  have two : exactShare (fun pid => (doubleFirst pid).ofCostType .cSmooth) [1, 2, 3]
      fourPackets 1 = 2 := by
    rw [exactShare, total]
    change ((4 : ℕ) : ℚ) * ((2 : ℕ) : ℚ) / ((4 : ℕ) : ℚ) = 2
    norm_num
  have one : exactShare (fun pid => (doubleFirst pid).ofCostType .cSmooth) [1, 2, 3]
      fourPackets 2 = 1 := by
    rw [exactShare, total]
    change ((4 : ℕ) : ℚ) * ((1 : ℕ) : ℚ) / ((4 : ℕ) : ℚ) = 1
    norm_num
  rw [scalesRates_rated_iff (.insertion Key.rtt) (fun _ => 20) rfl (by decide) (by decide)
    (by decide) isFirst]
  rintro ⟨n, -, -, shares⟩
  have first := shares 1 ⟨by decide, by decide, 2, by decide, by decide, by decide⟩
  have second := shares 2 ⟨by decide, by decide, 3, by decide, by decide, by decide⟩
  rw [two, (Nat.floor_eq_iff (by norm_num)).mpr (by norm_num : _ ∧ (2 : ℚ) + 1 / 2 < (2 : ℕ) + 1)]
    at first
  rw [one, (Nat.floor_eq_iff (by norm_num)).mpr (by norm_num : _ ∧ (1 : ℚ) + 1 / 2 < (1 : ℕ) + 1)]
    at second
  omega

end ScaleSchedule

end MpVideo.Schedule
