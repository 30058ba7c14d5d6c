import MpVideo.Schedule.Basic

/-!
# Weighted round robin

`wrr.cc`. The scheduler walks in circles through its servers. A level falls by one
with each circle, from the greatest weight down to one, and a server is chosen if
its weight reaches the level.

The level never exceeds the greatest weight, so the loop of `GetServer` ends before
one circle is complete (`getServer_spec`). Without a server there is no circle: the
remainder is taken modulo zero, which is undefined (`none`).
-/

set_option autoImplicit false

namespace MpVideo.Schedule

/-- `ServerInfo`. -/
structure ServerInfo where
  id : Int32
  weight : UInt32
  deriving DecidableEq

/-- The members of `WeightRoundRobin`. The level is kept in two's complement. -/
structure WeightRoundRobin where
  servers : List ServerInfo := []
  maxWeight : UInt32 := 0
  cw : Int32 := 0
  i : Int := -1

namespace WeightRoundRobin

/-- `AddServer`. -/
def addServer (id : Int32) (weight : UInt32) (wrr : WeightRoundRobin) : WeightRoundRobin :=
  if ∃ server ∈ wrr.servers, server.id = id then wrr
  else if weight > 0 then { wrr with servers := wrr.servers ++ [⟨id, weight⟩] }
  else wrr

/-- `GetGCD`. -/
def getGCD : Int32 := 1

/-- `GetMaxWeight`. -/
def getMaxWeight (wrr : WeightRoundRobin) : UInt32 :=
  wrr.servers.foldl (fun maxWeight server => max maxWeight server.weight) 0

/-- The beginning of the loop of `GetServer`: the index moves on, and at the start of
a circle the level falls. -/
def advance (wrr : WeightRoundRobin) : WeightRoundRobin :=
  let i := (wrr.i + 1) % wrr.servers.length
  if i = 0 then
    let cw := wrr.cw - getGCD
    { wrr with i, cw := if cw ≤ 0 then wrr.maxWeight.toInt32 else cw }
  else { wrr with i }

/-- The loop of `GetServer`, a number of turns of it. The level is compared as an
unsigned number. -/
def search : Nat → WeightRoundRobin → Option (Int32 × WeightRoundRobin)
  | 0, _ => none
  | turns + 1, wrr =>
      let wrr := wrr.advance
      match wrr.servers[wrr.i.toNat]? with
      | none => none
      | some server =>
          if server.weight ≥ wrr.cw.toUInt32 then some (server.id, wrr) else search turns wrr

/-- `GetServer`. -/
def getServer (wrr : WeightRoundRobin) : Option (Int32 × WeightRoundRobin) :=
  if wrr.servers = [] then none
  else search wrr.servers.length { wrr with maxWeight := wrr.getMaxWeight }

/-- `PacketSchedule` for each packet with the server that comes next. -/
def dispatch : List UInt32 → WeightRoundRobin → Option Calls
  | [], _ => some []
  | packetId :: rest, wrr =>
      wrr.getServer.bind fun (server, wrr) =>
        (dispatch rest wrr).map ((packetId, server.toUInt32.toUInt8) :: ·)

/-- A path id as the `int` that identifies a server. -/
def idOf (pid : UInt8) : Int32 := pid.toUInt32.toInt32

/-- A fresh object to which the entries of a map of weights were added. -/
def ofWeights (weights : SortedMap UInt8 UInt32) : WeightRoundRobin :=
  weights.entries.foldl (fun wrr entry => wrr.addServer (idOf entry.1) entry.2) {}

/-! ## The servers -/

@[simp] theorem toUInt8_idOf (pid : UInt8) : (idOf pid).toUInt32.toUInt8 = pid := by
  rw [idOf, UInt32.toUInt32_toInt32, UInt8.toUInt8_toUInt32]

theorem idOf_injective : Function.Injective idOf :=
  Function.LeftInverse.injective (g := fun id : Int32 => id.toUInt32.toUInt8) toUInt8_idOf

/-- The servers that a list of weights leads to. -/
def serversOf (weights : List (UInt8 × UInt32)) : List ServerInfo :=
  (weights.filter fun entry => entry.2 > 0).map fun entry => ⟨idOf entry.1, entry.2⟩

/-- `AddServer` for each of several servers. -/
def addServers (added : List ServerInfo) (wrr : WeightRoundRobin) : WeightRoundRobin :=
  added.foldl (fun wrr server => wrr.addServer server.id server.weight) wrr

/-- **Adding servers with new ids** appends those with a positive weight. -/
theorem addServers_eq {added : List ServerInfo}
    (distinct : added.Pairwise fun first second => first.id ≠ second.id) (wrr : WeightRoundRobin)
    (new : ∀ other ∈ added, ∀ server ∈ wrr.servers, server.id ≠ other.id) :
    wrr.addServers added =
      { wrr with servers := wrr.servers ++ added.filter fun server => server.weight > 0 } := by
  induction added generalizing wrr with
  | nil => simp [addServers]
  | cons one rest ih =>
      obtain ⟨differs, later⟩ := List.pairwise_cons.mp distinct
      have absent : ¬ ∃ server ∈ wrr.servers, server.id = one.id := by
        rintro ⟨server, member, same⟩
        exact new one List.mem_cons_self server member same
      have old : ∀ other ∈ rest, ∀ server ∈ wrr.servers, server.id ≠ other.id :=
        fun other member => new other (List.mem_cons_of_mem _ member)
      rw [addServers, List.foldl_cons, addServer, if_neg absent]
      split_ifs with positive
      · refine (ih later _ ?_).trans (by simp [positive])
        intro other member server isServer
        rcases List.mem_append.mp isServer with before | here
        · exact old other member server before
        · obtain rfl := List.mem_singleton.mp here
          exact differs other member
      · exact (ih later wrr old).trans (by simp [positive])

/-- **The servers are the entries with a positive weight.** -/
theorem ofWeights_eq (weights : SortedMap UInt8 UInt32) :
    ofWeights weights = { servers := serversOf weights.entries } := by
  have each : ofWeights weights =
      ({} : WeightRoundRobin).addServers
        (weights.entries.map fun entry => ⟨idOf entry.1, entry.2⟩) := by
    rw [addServers, List.foldl_map]
    rfl
  rw [each, addServers_eq]
  · rw [serversOf, List.filter_map]
    rfl
  · rw [List.pairwise_map]
    exact weights.sorted.imp fun less same => ne_of_lt less (idOf_injective same)
  · exact fun _ _ _ member => absurd member List.not_mem_nil

/-! ## The level -/

/-- The index is that of a server or the initial one, and no level exceeds the weights. -/
structure Valid (wrr : WeightRoundRobin) : Prop where
  servers : wrr.servers ≠ []
  lower : -1 ≤ wrr.i
  upper : wrr.i < wrr.servers.length
  level : wrr.cw.toUInt32 ≤ wrr.getMaxWeight

theorem foldl_max (servers : List ServerInfo) (start : UInt32) :
    start ≤ servers.foldl (fun maxWeight server => max maxWeight server.weight) start ∧
      (servers.foldl (fun maxWeight server => max maxWeight server.weight) start = start ∨
        ∃ server ∈ servers, server.weight =
          servers.foldl (fun maxWeight server => max maxWeight server.weight) start) := by
  induction servers generalizing start with
  | nil => exact ⟨le_refl _, .inl rfl⟩
  | cons server rest ih =>
      obtain ⟨grows, reached⟩ := ih (max start server.weight)
      refine ⟨le_trans (le_max_left _ _) grows, ?_⟩
      rw [List.foldl_cons]
      rcases reached with same | ⟨other, member, weight⟩
      · cases le_total server.weight start with
        | inl below => exact .inl (same.trans (max_eq_left below))
        | inr above =>
            exact .inr ⟨server, List.mem_cons_self, (same.trans (max_eq_right above)).symm⟩
      · exact .inr ⟨other, List.mem_cons_of_mem _ member, weight⟩

/-- Some server has a weight that reaches every level. -/
theorem exists_heaviest {wrr : WeightRoundRobin} (servers : wrr.servers ≠ []) :
    ∃ (m : Nat) (server : ServerInfo), wrr.servers[m]? = some server ∧
      wrr.getMaxWeight ≤ server.weight := by
  rcases (foldl_max wrr.servers 0).2 with zero | ⟨server, member, weight⟩
  · obtain ⟨server, rest, same⟩ := List.exists_cons_of_ne_nil servers
    refine ⟨0, server, by rw [same]; rfl, ?_⟩
    rw [getMaxWeight, zero]
    exact UInt32.zero_le
  · obtain ⟨m, bound, found⟩ := List.getElem_of_mem member
    exact ⟨m, server, List.getElem?_eq_some_iff.mpr ⟨bound, found⟩, le_of_eq weight.symm⟩

/-- A level that is positive stays in bounds when it falls. -/
theorem toUInt32_sub_getGCD {cw : Int32} {bound : UInt32} (level : cw.toUInt32 ≤ bound)
    (positive : ¬ cw - getGCD ≤ 0) : (cw - getGCD).toUInt32 ≤ bound := by
  have nonzero : cw.toUInt32 ≠ 0 := by
    intro zero
    have none : cw = 0 := by rw [← Int32.toInt32_toUInt32 cw, zero]; rfl
    exact positive (none.symm ▸ by decide)
  have falls : (cw - getGCD).toUInt32 = cw.toUInt32 - 1 := Int32.toUInt32_sub ..
  rw [falls]
  have some : (1 : UInt32) ≤ cw.toUInt32 := by grind
  have less : cw.toUInt32 - 1 ≤ cw.toUInt32 := by
    rw [UInt32.le_iff_toNat_le, UInt32.toNat_sub_of_le _ _ some]
    exact Nat.sub_le _ _
  exact le_trans less level

theorem advance_servers (wrr : WeightRoundRobin) : wrr.advance.servers = wrr.servers := by
  simp only [advance]
  split_ifs <;> rfl

theorem advance_i (wrr : WeightRoundRobin) :
    wrr.advance.i = (wrr.i + 1) % wrr.servers.length := by
  simp only [advance]
  split_ifs <;> rfl

theorem advance_getMaxWeight (wrr : WeightRoundRobin) :
    wrr.advance.getMaxWeight = wrr.getMaxWeight := by
  rw [getMaxWeight, advance_servers, getMaxWeight]

theorem advance_greatest {wrr : WeightRoundRobin} (greatest : wrr.maxWeight = wrr.getMaxWeight) :
    wrr.advance.maxWeight = wrr.advance.getMaxWeight := by
  rw [advance_getMaxWeight, ← greatest]
  simp only [advance]
  split_ifs <;> rfl

/-- One turn keeps the level in bounds. -/
theorem Valid.advance {wrr : WeightRoundRobin} (valid : wrr.Valid)
    (greatest : wrr.maxWeight = wrr.getMaxWeight) :
    wrr.advance.Valid := by
  have some : (0 : Int) < wrr.servers.length := by
    have := List.length_pos_iff.mpr valid.servers
    omega
  have lower := Int.emod_nonneg (wrr.i + 1) (Int.ne_of_gt some)
  have upper := Int.emod_lt_of_pos (wrr.i + 1) some
  refine ⟨?_, ?_, ?_, ?_⟩
  · rw [advance_servers]
    exact valid.servers
  · rw [advance_i]
    omega
  · rw [advance_i, advance_servers]
    exact upper
  · rw [advance_getMaxWeight]
    simp only [WeightRoundRobin.advance]
    split_ifs with start falls
    · rw [greatest, UInt32.toUInt32_toInt32]
    · exact toUInt32_sub_getGCD valid.level falls
    · exact valid.level

/-! ## Termination -/

/-- **The loop ends when it comes to the heaviest server, if not before.** The number
of turns that are left is the distance to that server on the circle. -/
theorem search_spec {wrr : WeightRoundRobin} (valid : wrr.Valid)
    (greatest : wrr.maxWeight = wrr.getMaxWeight) {m : Nat} {heaviest : ServerInfo}
    (found : wrr.servers[m]? = some heaviest) (weight : wrr.getMaxWeight ≤ heaviest.weight)
    {distance turns : Nat} (ahead : (wrr.i + (distance + 1)) % wrr.servers.length = m)
    (enough : distance < turns) :
    ∃ server next, wrr.search turns = some (server.id, next) ∧ server ∈ wrr.servers ∧
      next.servers = wrr.servers ∧ next.Valid := by
  induction distance generalizing wrr turns with
  | zero =>
      obtain ⟨turns, rfl⟩ := Nat.exists_eq_add_one_of_ne_zero (Nat.ne_of_gt enough)
      have still := valid.advance greatest
      have index : wrr.advance.i.toNat = m := by
        rw [advance_i]
        simpa using congrArg Int.toNat ahead
      have reaches : heaviest.weight ≥ wrr.advance.cw.toUInt32 :=
        le_trans still.level (advance_getMaxWeight wrr ▸ weight)
      refine ⟨heaviest, wrr.advance, ?_, List.mem_of_getElem? found, advance_servers wrr, still⟩
      rw [search, index, advance_servers, found]
      exact if_pos reaches
  | succ distance ih =>
      obtain ⟨turns, rfl⟩ :=
        Nat.exists_eq_add_one_of_ne_zero (Nat.ne_of_gt (Nat.zero_lt_of_lt enough))
      have still := valid.advance greatest
      have bound : wrr.advance.i.toNat < wrr.advance.servers.length := by
        have := still.upper
        have some := List.length_pos_iff.mpr still.servers
        omega
      rw [search, List.getElem?_eq_getElem bound]
      dsimp only
      split_ifs with reaches
      · exact ⟨_, wrr.advance, rfl, advance_servers wrr ▸ List.getElem_mem bound,
          advance_servers wrr, still⟩
      · have closer : (wrr.advance.i + (distance + 1)) % wrr.advance.servers.length = m := by
          rw [advance_i, advance_servers, Int.emod_add_emod, ← ahead]
          congr 1
          omega
        obtain ⟨server, next, searched, member, same, final⟩ := ih still (advance_greatest greatest)
          (advance_servers wrr ▸ found) (advance_getMaxWeight wrr ▸ weight) closer
          (Nat.lt_of_succ_lt_succ enough)
        exact ⟨server, next, searched, advance_servers wrr ▸ member,
          same.trans (advance_servers wrr), final⟩

/-- **`GetServer` returns** one of the servers, and it can be called again. -/
theorem getServer_spec {wrr : WeightRoundRobin} (valid : wrr.Valid) :
    ∃ server next, wrr.getServer = some (server.id, next) ∧ server ∈ wrr.servers ∧
      next.servers = wrr.servers ∧ next.Valid := by
  obtain ⟨m, heaviest, found, weight⟩ := exists_heaviest valid.servers
  have small : m < wrr.servers.length := (List.getElem?_eq_some_iff.mp found).1
  have positive : (0 : Int) < wrr.servers.length := by omega
  have lower := Int.emod_nonneg ((m : Int) - wrr.i - 1) (Int.ne_of_gt positive)
  have upper := Int.emod_lt_of_pos ((m : Int) - wrr.i - 1) positive
  obtain ⟨distance, distanceEq⟩ := Int.eq_ofNat_of_zero_le lower
  have ahead : (wrr.i + (distance + 1)) % wrr.servers.length = m := by
    rw [← distanceEq, show wrr.i + (((m : Int) - wrr.i - 1) % wrr.servers.length + 1) =
      wrr.i + 1 + ((m : Int) - wrr.i - 1) % wrr.servers.length by omega, Int.add_emod_emod,
      show wrr.i + 1 + ((m : Int) - wrr.i - 1) = m by omega]
    exact Int.emod_eq_of_lt (by omega) (by omega)
  rw [getServer, if_neg valid.servers]
  have ready : ({ wrr with maxWeight := wrr.getMaxWeight } : WeightRoundRobin).Valid :=
    ⟨valid.servers, valid.lower, valid.upper, valid.level⟩
  exact search_spec ready rfl found weight ahead (by omega)

/-- A fresh object with servers is ready. -/
theorem valid_fresh {servers : List ServerInfo} (some : servers ≠ []) :
    Valid { servers := servers } where
  servers := some
  lower := Int.le_refl _
  upper := by
    change (-1 : Int) < servers.length
    omega
  level := UInt32.zero_le

/-- **Every packet is handed to a server, exactly once and in order.** -/
theorem dispatch_spec (ids : List UInt32) {wrr : WeightRoundRobin} (valid : wrr.Valid) :
    ∃ calls, dispatch ids wrr = some calls ∧ calls.map Prod.fst = ids ∧
      ∀ call ∈ calls, ∃ server ∈ wrr.servers, call.2 = server.id.toUInt32.toUInt8 := by
  induction ids generalizing wrr with
  | nil => exact ⟨[], rfl, rfl, fun _ member => absurd member List.not_mem_nil⟩
  | cons packetId rest ih =>
      obtain ⟨server, next, chosen, member, same, again⟩ := getServer_spec valid
      obtain ⟨calls, dispatched, keys, served⟩ := ih again
      refine ⟨(packetId, server.id.toUInt32.toUInt8) :: calls, ?_,
        congrArg (packetId :: ·) keys, ?_⟩
      · rw [dispatch, chosen, Option.bind_some]
        simp only [dispatched, Option.map_some]
      · intro call isCall
        rcases List.mem_cons.mp isCall with rfl | later
        · exact ⟨server, member, rfl⟩
        · exact same ▸ served call later

/-- Without servers the first packet divides by zero. -/
theorem dispatch_noServers {ids : List UInt32} (some : ids ≠ []) {wrr : WeightRoundRobin}
    (none : wrr.servers = []) : dispatch ids wrr = .none := by
  obtain ⟨packetId, rest, rfl⟩ := List.exists_cons_of_ne_nil some
  rw [dispatch, getServer, if_pos none, Option.bind_none]

/-! ## Dispatch by weights -/

theorem mem_serversOf {weights : List (UInt8 × UInt32)} {server : ServerInfo} :
    server ∈ serversOf weights ↔
      ∃ entry ∈ weights, 0 < entry.2 ∧ server = ⟨idOf entry.1, entry.2⟩ := by
  simp only [serversOf, List.mem_map, List.mem_filter, decide_eq_true_eq, and_assoc]
  exact exists_congr fun entry => and_congr_right fun _ => and_congr_right fun _ => eq_comm

/-- **Dispatch by weights is defined if and only if some weight is positive**, and then
every packet goes to a path of positive weight. -/
theorem dispatch_ofWeights {ids : List UInt32} (some : ids ≠ [])
    (weights : SortedMap UInt8 UInt32) :
    (∃ entry ∈ weights.entries, 0 < entry.2) ∧
        (∃ calls, dispatch ids (ofWeights weights) = .some calls ∧ calls.map Prod.fst = ids ∧
          ∀ call ∈ calls, ∃ weight, weights.find? call.2 = .some weight ∧ 0 < weight) ∨
      (∀ entry ∈ weights.entries, entry.2 = 0) ∧ (ofWeights weights).servers = [] ∧
        dispatch ids (ofWeights weights) = .none := by
  have servers : (ofWeights weights).servers = serversOf weights.entries := by
    rw [ofWeights_eq]
  by_cases positive : ∃ entry ∈ weights.entries, 0 < entry.2
  · obtain ⟨entry, member, weight⟩ := positive
    have nonempty : serversOf weights.entries ≠ [] :=
      List.ne_nil_of_mem (mem_serversOf.mpr ⟨entry, member, weight, rfl⟩)
    obtain ⟨calls, dispatched, keys, served⟩ := dispatch_spec ids (valid_fresh nonempty)
    refine .inl ⟨⟨entry, member, weight⟩, calls, ofWeights_eq weights ▸ dispatched, keys, ?_⟩
    intro call isCall
    obtain ⟨server, isServer, pid⟩ := served call isCall
    obtain ⟨other, isEntry, heavy, rfl⟩ := mem_serversOf.mp isServer
    rw [toUInt8_idOf] at pid
    exact ⟨other.2, pid ▸ SortedMap.find?_eq_some_iff.mpr isEntry, heavy⟩
  · have zero : ∀ entry ∈ weights.entries, entry.2 = 0 := by
      intro entry member
      by_contra nonzero
      exact positive ⟨entry, member, UInt32.pos_iff_ne_zero.mpr nonzero⟩
    have empty : (ofWeights weights).servers = [] := by
      rw [servers, List.eq_nil_iff_forall_not_mem]
      intro server isServer
      obtain ⟨entry, member, heavy, -⟩ := mem_serversOf.mp isServer
      exact positive ⟨entry, member, heavy⟩
    exact .inr ⟨zero, empty, dispatch_noServers some empty⟩

end WeightRoundRobin

end MpVideo.Schedule
