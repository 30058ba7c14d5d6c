import Mathlib.Data.List.Rotate
import MpVideo.Schedule.WeightRoundRobin

/-!
# Weighted round robin is fair

`GetServer` walks through the servers level by level. On a full tour from the greatest weight
down to one, a server is chosen once at each level that its weight reaches, so as many times
as its weight says (`count_tour`).

Each call returns the head of what is left of the tour and leaves its tail; when nothing is
left, the tour starts again (`getServer_line`). The results therefore repeat the tour, and
as many of them in a row as the tour is long are the tour turned around, wherever they start
(`wrr_window_fair`).
-/

set_option autoImplicit false

namespace MpVideo.Schedule

namespace WeightRoundRobin

/-- The results of several calls of `GetServer`. -/
def getServers : Nat → WeightRoundRobin → Option (List Int32 × WeightRoundRobin)
  | 0, wrr => some ([], wrr)
  | calls + 1, wrr =>
      wrr.getServer.bind fun (id, wrr) =>
        (getServers calls wrr).map fun (ids, wrr) => (id :: ids, wrr)

/-! ## The tour -/

/-- The servers whose weight reaches a level. -/
def reaching (level : Nat) (servers : List ServerInfo) : List ServerInfo :=
  servers.filter fun server => level ≤ server.weight.toNat

/-- The servers that are chosen from a level down to one. -/
def tour (servers : List ServerInfo) : Nat → List ServerInfo
  | 0 => []
  | level + 1 => reaching (level + 1) servers ++ tour servers level

/-- What is left of the tour behind a server, at a level. -/
def ahead (servers : List ServerInfo) (i level : Nat) : List ServerInfo :=
  reaching level (servers.drop (i + 1)) ++ tour servers (level - 1)

/-- The greatest weight as a number. -/
def top (wrr : WeightRoundRobin) : Nat := wrr.getMaxWeight.toNat

/-- What is left of the tour, or all of it. -/
def line (wrr : WeightRoundRobin) (i level : Nat) : List ServerInfo :=
  if ahead wrr.servers i level = [] then tour wrr.servers wrr.top else ahead wrr.servers i level

theorem reaching_cons (level : Nat) (server : ServerInfo) (rest : List ServerInfo) :
    reaching level (server :: rest) =
      if level ≤ server.weight.toNat then server :: reaching level rest
      else reaching level rest := by
  rw [reaching, List.filter_cons]
  simp only [decide_eq_true_eq]
  rfl

/-- The tour from a level begins with the first server. -/
theorem tour_eq {servers : List ServerInfo} {first : ServerInfo} {level : Nat}
    (begins : servers[0]? = some first) (positive : 0 < level) :
    tour servers level =
      if level ≤ first.weight.toNat then first :: ahead servers 0 level
      else ahead servers 0 level := by
  obtain ⟨level, rfl⟩ := Nat.exists_eq_add_one_of_ne_zero (Nat.ne_of_gt positive)
  cases servers with
  | nil => cases begins
  | cons server rest =>
      obtain rfl := Option.some.inj begins
      rw [tour, reaching_cons]
      split_ifs <;> rfl

/-! ## Where the walk stands -/

/-- The walk stands at a server, at a level; before the first call it stands at the end of a
tour. -/
structure Stands (wrr : WeightRoundRobin) (i level : Nat) : Prop where
  index : i < wrr.servers.length
  positive : 0 < level
  bound : level ≤ wrr.top
  place : wrr.i = i ∧ wrr.cw.toInt = level ∨
    wrr.i = -1 ∧ wrr.cw = 0 ∧ i + 1 = wrr.servers.length ∧ level = 1

/-- The next place of the walk. -/
def nextPlace (wrr : WeightRoundRobin) (i level : Nat) : Nat × Nat :=
  if i + 1 < wrr.servers.length then (i + 1, level)
  else (0, if level = 1 then wrr.top else level - 1)

variable {wrr : WeightRoundRobin} {i level : Nat}

theorem toInt_sub_getGCD {cw : Int32} (nonneg : 0 ≤ cw.toInt) :
    (cw - getGCD).toInt = cw.toInt - 1 := by
  have bound := cw.toInt_lt
  have one : getGCD.toInt = 1 := rfl
  rw [Int32.toInt_sub, one]
  exact Int.bmod_eq_of_le (by omega) (by omega)

/-- A level falls by one, and below one it starts at the top. -/
theorem toInt_level (small : wrr.top < 2 ^ 31) (greatest : wrr.maxWeight = wrr.getMaxWeight)
    (positive : 0 < level) (place : wrr.cw.toInt = level ∨ wrr.cw = 0 ∧ level = 1) :
    (if wrr.cw - getGCD ≤ 0 then wrr.maxWeight.toInt32 else wrr.cw - getGCD).toInt =
      (if level = 1 then wrr.top else level - 1 : ℕ) := by
  have again : wrr.maxWeight.toInt32.toInt = wrr.top := by
    rw [greatest]
    exact UInt32.toInt_toInt32_of_lt small
  have zero : (0 : Int32).toInt = 0 := rfl
  rcases place with here | ⟨none, rfl⟩
  · have falls : (wrr.cw - getGCD).toInt = wrr.cw.toInt - 1 := toInt_sub_getGCD (by omega)
    by_cases last : level = 1
    · have low : wrr.cw - getGCD ≤ 0 := by
        rw [Int32.le_iff_toInt_le, falls, zero]
        omega
      rw [if_pos low, if_pos last, again]
    · have high : ¬ wrr.cw - getGCD ≤ 0 := by
        rw [Int32.le_iff_toInt_le, falls, zero]
        omega
      rw [if_neg high, if_neg last, falls, here]
      omega
  · rw [none, if_pos (by decide), if_pos rfl, again]

theorem top_advance (wrr : WeightRoundRobin) : wrr.advance.top = wrr.top := by
  rw [top, advance_getMaxWeight, top]

/-- **One turn of the loop moves to the next place.** -/
theorem Stands.advance (stands : wrr.Stands i level) (greatest : wrr.maxWeight = wrr.getMaxWeight)
    (small : wrr.top < 2 ^ 31) :
    wrr.advance.Stands (wrr.nextPlace i level).1 (wrr.nextPlace i level).2 ∧
      wrr.advance.i = (wrr.nextPlace i level).1 ∧
      wrr.advance.cw.toInt = (wrr.nextPlace i level).2 := by
  obtain ⟨index, positive, bound, place⟩ := stands
  have moved : wrr.advance.i = (wrr.nextPlace i level).1 ∧
      wrr.advance.cw.toInt = (wrr.nextPlace i level).2 := by
    simp only [nextPlace, WeightRoundRobin.advance]
    by_cases inner : i + 1 < wrr.servers.length
    · have here := place.resolve_right fun fresh => by omega
      have step : (wrr.i + 1) % wrr.servers.length = i + 1 := by
        rw [here.1]
        exact Int.emod_eq_of_lt (by omega) (by omega)
      rw [if_pos inner, if_neg (by omega)]
      exact ⟨step, here.2⟩
    · have step : (wrr.i + 1) % wrr.servers.length = 0 := by
        rcases place with here | fresh
        · have last : wrr.i + 1 = wrr.servers.length := by omega
          rw [last, Int.emod_self]
        · rw [fresh.1]
          rfl
      rw [if_neg inner, if_pos step]
      exact ⟨step, toInt_level small greatest positive
        (place.imp And.right fun fresh => ⟨fresh.2.1, fresh.2.2.2⟩)⟩
  refine ⟨⟨?_, ?_, ?_, .inl moved⟩, moved⟩
  · rw [advance_servers, nextPlace]
    split_ifs with inner
    · exact inner
    · exact Nat.zero_lt_of_lt index
    · exact Nat.zero_lt_of_lt index
  · rw [nextPlace]
    split_ifs
    · exact positive
    · exact Nat.lt_of_lt_of_le positive bound
    · exact Nat.sub_pos_of_lt (by omega)
  · rw [top_advance, nextPlace]
    split_ifs
    · exact bound
    · exact le_rfl
    · exact (Nat.sub_le _ _).trans bound

/-- When the next server comes next on the tour unless it is passed over, so it does in the
line. -/
theorem line_of_ahead {i' level' : Nat} {server : ServerInfo} {reaches : Prop}
    [Decidable reaches] (next : ahead wrr.servers i level =
      if reaches then server :: ahead wrr.servers i' level' else ahead wrr.servers i' level') :
    wrr.line i level =
      if reaches then server :: ahead wrr.servers i' level' else wrr.line i' level' := by
  rw [line, next]
  by_cases chosen : reaches
  · rw [if_pos chosen, if_pos chosen, if_neg (List.cons_ne_nil _ _)]
  · rw [if_neg chosen, if_neg chosen, line]

/-- **What the walk passes on the way to its next place.** A server is passed over if its
weight does not reach the level. -/
theorem Stands.line_eq (stands : wrr.Stands i level) {server : ServerInfo}
    (here : wrr.servers[(wrr.nextPlace i level).1]? = some server) :
    wrr.line i level =
      if (wrr.nextPlace i level).2 ≤ server.weight.toNat then
        server :: ahead wrr.servers (wrr.nextPlace i level).1 (wrr.nextPlace i level).2
      else wrr.line (wrr.nextPlace i level).1 (wrr.nextPlace i level).2 := by
  have positive := stands.positive
  rw [nextPlace] at here ⊢
  by_cases inner : i + 1 < wrr.servers.length
  · rw [if_pos inner] at here ⊢
    apply line_of_ahead
    have rest : wrr.servers.drop (i + 1) = server :: wrr.servers.drop (i + 1 + 1) := by
      rw [List.drop_eq_getElem_cons inner, (List.getElem?_eq_some_iff.mp here).2]
    rw [ahead, rest, reaching_cons]
    split_ifs <;> rfl
  · rw [if_neg inner] at here ⊢
    have round : ahead wrr.servers i level = tour wrr.servers (level - 1) := by
      rw [ahead, List.drop_eq_nil_of_le (not_lt.mp inner)]
      rfl
    by_cases last : level = 1
    · -- the tour is over and starts again
      have started : 0 < wrr.top := Nat.lt_of_lt_of_le positive stands.bound
      have top := tour_eq here started
      have again : wrr.line i level = tour wrr.servers wrr.top := by
        rw [line, round, last]
        exact if_pos rfl
      rw [if_pos last, again, top]
      by_cases chosen : wrr.top ≤ server.weight.toNat
      · rw [if_pos chosen, if_pos chosen]
      · rw [if_neg chosen, if_neg chosen, line, top, if_neg chosen, ite_self]
    · rw [if_neg last]
      exact line_of_ahead (round.trans (tour_eq here (Nat.sub_pos_of_lt (by omega))))

/-! ## The calls -/

theorem toNat_level {cw : Int32} (here : cw.toInt = level) : cw.toUInt32.toNat = level := by
  have nonneg : 0 ≤ cw := by
    rw [Int32.le_iff_toInt_le, here]
    exact Int.natCast_nonneg level
  rw [Int32.toNat_toUInt32_of_le nonneg, Int32.toNatClampNeg, here, Int.toNat_natCast]

/-- The line depends on the servers only. -/
theorem line_servers {other : WeightRoundRobin} (same : wrr.servers = other.servers)
    (i level : Nat) : wrr.line i level = other.line i level := by
  rw [line, line, top, top, getMaxWeight, getMaxWeight, same]

/-- **The loop ends at the head of the line and leaves its tail.** -/
theorem search_line {turns : Nat} {next : WeightRoundRobin} {id : Int32}
    (stands : wrr.Stands i level) (greatest : wrr.maxWeight = wrr.getMaxWeight)
    (small : wrr.top < 2 ^ 31) (searched : wrr.search turns = some (id, next)) :
    ∃ server i' level', id = server.id ∧ next.Stands i' level' ∧ next.servers = wrr.servers ∧
      wrr.line i level = server :: ahead wrr.servers i' level' := by
  induction turns generalizing wrr i level with
  | zero => cases searched
  | succ turns ih =>
      obtain ⟨still, index, cw⟩ := stands.advance greatest small
      have same := advance_servers wrr
      obtain ⟨server, found⟩ : ∃ server, wrr.servers[(wrr.nextPlace i level).1]? = some server :=
        ⟨_, List.getElem?_eq_getElem (same ▸ still.index)⟩
      have lookup : wrr.advance.servers[wrr.advance.i.toNat]? = some server := by
        rw [same, index, Int.toNat_natCast, found]
      have reaches : server.weight ≥ wrr.advance.cw.toUInt32 ↔
          (wrr.nextPlace i level).2 ≤ server.weight.toNat := by
        rw [ge_iff_le, UInt32.le_iff_toNat_le, toNat_level cw]
      have passed := stands.line_eq found
      simp only [search, lookup] at searched
      by_cases chosen : server.weight ≥ wrr.advance.cw.toUInt32
      · rw [if_pos chosen] at searched
        obtain ⟨rfl, rfl⟩ := Prod.mk.inj (Option.some.inj searched)
        rw [if_pos (reaches.mp chosen)] at passed
        exact ⟨server, _, _, rfl, still, same, passed⟩
      · rw [if_neg chosen] at searched
        rw [if_neg (fun level => chosen (reaches.mpr level))] at passed
        obtain ⟨other, i', level', rfl, final, servers, onwards⟩ :=
          ih still (advance_greatest greatest) (top_advance wrr ▸ small) searched
        refine ⟨other, i', level', rfl, final, servers.trans same, ?_⟩
        rw [passed, ← line_servers same, onwards, same]

theorem Stands.valid (stands : wrr.Stands i level) : wrr.Valid := by
  obtain ⟨index, positive, bound, place⟩ := stands
  refine ⟨?_, ?_, ?_, ?_⟩
  · rintro none
    rw [none] at index
    exact absurd index (Nat.not_lt_zero _)
  · rcases place with here | fresh <;> omega
  · rcases place with here | fresh <;> omega
  · rcases place with here | fresh
    · rw [UInt32.le_iff_toNat_le, toNat_level here.2]
      exact bound
    · rw [fresh.2.1]
      exact UInt32.zero_le

/-- **`GetServer` returns the head of the line and leaves its tail.** -/
theorem getServer_line (stands : wrr.Stands i level) (small : wrr.top < 2 ^ 31) :
    ∃ server next i' level', wrr.getServer = some (server.id, next) ∧ next.Stands i' level' ∧
      next.servers = wrr.servers ∧ wrr.line i level = server :: ahead wrr.servers i' level' := by
  have valid := stands.valid
  obtain ⟨first, next, called, -, -, -⟩ := getServer_spec valid
  have ready : ({ wrr with maxWeight := wrr.getMaxWeight } : WeightRoundRobin).Stands i level :=
    ⟨stands.index, stands.positive, stands.bound, stands.place⟩
  have searched := called
  rw [getServer, if_neg valid.servers] at searched
  obtain ⟨server, i', level', same, final, servers, head⟩ :=
    search_line ready rfl small searched
  exact ⟨server, next, i', level', same ▸ called, final, servers, head⟩

/-- **The results repeat the tour.** -/
theorem getServers_periodic (calls : Nat) {r : Nat} (stands : wrr.Stands i level)
    (small : wrr.top < 2 ^ 31)
    (rest : ahead wrr.servers i level = (tour wrr.servers wrr.top).drop r)
    (within : r ≤ (tour wrr.servers wrr.top).length) :
    ∃ out next, getServers calls wrr = some (out, next) ∧ out.length = calls ∧
      ∀ j < calls, out[j]? = ((tour wrr.servers wrr.top).map ServerInfo.id)[
        (r + j) % (tour wrr.servers wrr.top).length]? := by
  induction calls generalizing wrr i level r with
  | zero => exact ⟨[], wrr, rfl, rfl, fun j less => absurd less (Nat.not_lt_zero j)⟩
  | succ calls ih =>
      obtain ⟨server, next, i', level', called, final, servers, head⟩ := getServer_line stands small
      have top_eq : next.top = wrr.top := by rw [top, getMaxWeight, servers, top, getMaxWeight]
      generalize circle_eq : tour wrr.servers wrr.top = circle at rest within ⊢
      have line_eq : wrr.line i level = circle.drop (r % circle.length) := by
        rw [line, rest, circle_eq]
        rcases within.lt_or_eq with less | rfl
        · rw [Nat.mod_eq_of_lt less, if_neg (by simpa using less)]
        · rw [Nat.mod_self, if_pos List.drop_length, List.drop_zero]
      rw [line_eq] at head
      have inside : r % circle.length < circle.length := by
        by_contra outside
        rw [List.drop_eq_nil_of_le (not_lt.mp outside)] at head
        cases head
      have here : circle[r % circle.length]? = some server := by
        rw [← List.head?_drop, head, List.head?_cons]
      have tail : ahead next.servers i' level' = circle.drop (r % circle.length + 1) := by
        rw [servers, ← List.drop_drop, head, List.drop_one, List.tail_cons]
      have circle_eq' : tour next.servers next.top = circle := by rw [servers, top_eq, circle_eq]
      obtain ⟨out, last, ran, length, results⟩ :=
        ih final (top_eq ▸ small) (circle_eq'.symm ▸ tail) (circle_eq'.symm ▸ inside)
      refine ⟨server.id :: out, last, ?_, congrArg (· + 1) length, ?_⟩
      · rw [getServers, called, Option.bind_some]
        simp only [ran, Option.map_some]
      · intro j less
        cases j with
        | zero =>
            rw [Nat.add_zero, List.getElem?_map, here]
            rfl
        | succ j =>
            have again := results j (Nat.lt_of_succ_lt_succ less)
            rw [circle_eq', Nat.add_assoc, Nat.mod_add_mod, Nat.add_comm 1 j] at again
            exact again

/-! ## Counting -/

/-- As many results in a row as a circle is long are the circle turned around. -/
theorem window_perm {α : Type} {circle out : List α} {k : Nat}
    (length : out.length = k + circle.length)
    (periodic : ∀ j < k + circle.length, out[j]? = circle[j % circle.length]?) :
    (out.drop k).Perm circle := by
  have turned : out.drop k = circle.rotate k := by
    apply List.ext_getElem?
    intro j
    rw [List.getElem?_drop]
    by_cases inside : j < circle.length
    · rw [periodic (k + j) (by omega), List.getElem?_rotate inside, Nat.add_comm k j]
    · rw [List.getElem?_eq_none (by omega), List.getElem?_eq_none (by
        rw [List.length_rotate]
        omega)]
  rw [turned]
  exact List.rotate_perm circle k

variable {servers : List ServerInfo}

/-- A server is chosen once at each level that its weight reaches. -/
theorem count_tour (distinct : (servers.map ServerInfo.id).Nodup) {server : ServerInfo}
    (member : server ∈ servers) (level : Nat) :
    ((tour servers level).map ServerInfo.id).count server.id = min server.weight.toNat level := by
  induction level with
  | zero => simp [tour]
  | succ level ih =>
      have once : ((reaching (level + 1) servers).map ServerInfo.id).Nodup :=
        distinct.sublist (List.filter_sublist.map _)
      have chosen : server.id ∈ (reaching (level + 1) servers).map ServerInfo.id ↔
          level + 1 ≤ server.weight.toNat := by
        rw [List.mem_map]
        constructor
        · rintro ⟨other, reaches, same⟩
          obtain ⟨isServer, enough⟩ := List.mem_filter.mp reaches
          rw [List.inj_on_of_nodup_map distinct isServer member same] at enough
          exact of_decide_eq_true enough
        · intro enough
          exact ⟨server, List.mem_filter.mpr ⟨member, decide_eq_true enough⟩, rfl⟩
      rw [tour, List.map_append, List.count_append, ih, once.count]
      split_ifs with reaches
      · have := chosen.mp reaches
        omega
      · have below : ¬ level + 1 ≤ server.weight.toNat := fun enough =>
          reaches (chosen.mpr enough)
        omega

/-- One more level adds the servers that reach it. -/
theorem length_reaching (servers : List ServerInfo) (level : Nat) :
    (reaching (level + 1) servers).length +
        (servers.map fun server => min server.weight.toNat level).sum =
      (servers.map fun server => min server.weight.toNat (level + 1)).sum := by
  induction servers with
  | nil => rfl
  | cons server rest ih =>
      rw [reaching_cons, List.map_cons, List.sum_cons, List.map_cons, List.sum_cons, ← ih]
      split_ifs
      · rw [List.length_cons]
        omega
      · omega

/-- The length of the tour from a level. -/
theorem length_tour (servers : List ServerInfo) (level : Nat) :
    (tour servers level).length =
      (servers.map fun server => min server.weight.toNat level).sum := by
  induction level with
  | zero => simp [tour]
  | succ level ih => rw [tour, List.length_append, ih, length_reaching]

/-- No weight is above the greatest one. -/
theorem weight_le_top {server : ServerInfo} (member : server ∈ wrr.servers) :
    server.weight.toNat ≤ wrr.top := by
  have below : ∀ (list : List ServerInfo) (start : UInt32), ∀ server ∈ list,
      server.weight ≤ list.foldl (fun maxWeight server => max maxWeight server.weight) start := by
    intro list
    induction list with
    | nil => exact fun _ _ none => absurd none List.not_mem_nil
    | cons first rest ih =>
        intro start server isServer
        rcases List.mem_cons.mp isServer with rfl | later
        · exact (le_max_right start _).trans (foldl_max rest _).1
        · exact ih _ server later
  exact UInt32.le_iff_toNat_le.mp (below _ 0 server member)

/-- The whole tour is as long as the weights add up to. -/
theorem length_tour_top (wrr : WeightRoundRobin) :
    (tour wrr.servers wrr.top).length =
      (wrr.servers.map fun server => server.weight.toNat).sum := by
  rw [length_tour]
  exact congrArg List.sum (List.map_congr_left fun server member =>
    min_eq_left (weight_le_top member))

/-- Before the first call the walk stands at the end of a tour. -/
theorem stands_fresh (some : servers ≠ []) (positive : ∀ server ∈ servers, 0 < server.weight) :
    Stands { servers := servers } (servers.length - 1) 1 ∧
      ahead servers (servers.length - 1) 1 = [] := by
  have length := List.length_pos_iff.mpr some
  constructor
  · refine ⟨Nat.sub_lt length Nat.one_pos, Nat.one_pos, ?_, .inr ⟨rfl, rfl, ?_, rfl⟩⟩
    · obtain ⟨first, rest, rfl⟩ := List.exists_cons_of_ne_nil some
      have weight := positive first List.mem_cons_self
      rw [UInt32.lt_iff_toNat_lt] at weight
      have bound : first.weight.toNat ≤ top { servers := first :: rest } :=
        weight_le_top List.mem_cons_self
      exact Nat.le_trans weight bound
    · exact Nat.sub_add_cancel length
  · rw [ahead, Nat.sub_add_cancel length, List.drop_length]
    rfl

/-- **Weighted round robin is fair over every window.** Every call of `GetServer` returns, and
among as many results in a row as the weights add up to, each server comes as often as its
weight says. -/
theorem wrr_window_fair (servers : List ServerInfo) (some : servers ≠ [])
    (distinct : (servers.map ServerInfo.id).Nodup)
    (weights : ∀ server ∈ servers, 0 < server.weight ∧ server.weight.toNat < 2 ^ 31) (k : Nat) :
    ∃ out next, getServers (k + (servers.map fun server => server.weight.toNat).sum)
        (({} : WeightRoundRobin).addServers servers) = .some (out, next) ∧
      out.length = k + (servers.map fun server => server.weight.toNat).sum ∧
      ∀ server ∈ servers, (out.drop k).count server.id = server.weight.toNat := by
  have added : ({} : WeightRoundRobin).addServers servers = { servers := servers } := by
    rw [addServers_eq (List.pairwise_map.mp distinct) _ fun _ _ _ none =>
      absurd none List.not_mem_nil]
    have all : (servers.filter fun server => server.weight > 0) = servers :=
      List.filter_eq_self.mpr fun server member => decide_eq_true (weights server member).1
    rw [all]
    rfl
  obtain ⟨stands, nothing⟩ := stands_fresh some fun server member => (weights server member).1
  have small : top { servers := servers } < 2 ^ 31 := by
    rcases (foldl_max servers 0).2 with zero | ⟨server, member, weight⟩
    · rw [top, getMaxWeight, zero]
      decide
    · rw [top, getMaxWeight, ← weight]
      exact (weights server member).2
  have length := length_tour_top { servers := servers }
  obtain ⟨out, next, ran, count, results⟩ :=
    getServers_periodic (k + (servers.map fun server => server.weight.toNat).sum) stands small
      (nothing.trans (List.drop_length).symm) le_rfl
  refine ⟨out, next, added ▸ ran, count, fun server member => ?_⟩
  have window : (out.drop k).Perm
      ((tour servers (top { servers := servers })).map ServerInfo.id) := by
    apply window_perm
    · rw [count, List.length_map, length]
    · intro j inside
      rw [List.length_map] at inside ⊢
      rw [results j (by rwa [length] at inside), Nat.add_mod_left]
  rw [window.count_eq, count_tour distinct member]
  have bound : server.weight.toNat ≤ top { servers := servers } := weight_le_top member
  exact min_eq_left bound

/-- Three servers, one of them with a negative id. -/
def threeServers : List ServerInfo := [⟨-1, 1⟩, ⟨2, 4⟩, ⟨3, 2⟩]

theorem wrr_window_fair_three :
    ∃ out next, getServers (5 + 7) (({} : WeightRoundRobin).addServers threeServers) =
        some (out, next) ∧ out.length = 5 + 7 ∧
      ∀ server ∈ threeServers, (out.drop 5).count server.id = server.weight.toNat :=
  wrr_window_fair threeServers (by decide) (by decide) (by decide) 5

end WeightRoundRobin

end MpVideo.Schedule
