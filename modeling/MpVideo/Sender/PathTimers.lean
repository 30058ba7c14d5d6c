import MpVideo.Sender.Connection

/-!
# The events of a connection

A path sender holds the number of the last request that it scheduled and of the check of its
pings. The numbers stay apart (`Numbered`): the check that is scheduled is the one of
`pingTimer_`, so that there is at most one, and what `SendConnect` cancels is never a check.
-/

set_option autoImplicit false

namespace MpVideo.Sender.PathControl

open Wire

variable {path next : PathControl} {now : ℕ}

/-- The events are numbered, and the check of the pings is the one of `pingTimer_`. -/
structure Numbered (path : PathControl) : Prop where
  below : ∀ timer ∈ path.timers, timer.id < path.nextTimer
  nodup : (path.timers.map Timer.id).Nodup
  checks : ∀ timer ∈ path.timers, path.pingTimer = some timer.id ↔ timer.action = .checkPing
  pingTimer : ∀ id, path.pingTimer = some id → id < path.nextTimer ∧ path.rxTimer ≠ some id
  rxTimer : ∀ id, path.rxTimer = some id → id < path.nextTimer

namespace Numbered

/-- The members that the events are held in. -/
structure SameTimers (path next : PathControl) : Prop where
  timers : next.timers = path.timers
  nextTimer : next.nextTimer = path.nextTimer
  rxTimer : next.rxTimer = path.rxTimer
  pingTimer : next.pingTimer = path.pingTimer

theorem of_same (numbered : Numbered path) (same : SameTimers path next) : Numbered next where
  below := by
    rw [same.timers, same.nextTimer]
    exact numbered.below
  nodup := by
    rw [same.timers]
    exact numbered.nodup
  checks := by
    rw [same.timers, same.pingTimer]
    exact numbered.checks
  pingTimer := by
    rw [same.pingTimer, same.nextTimer, same.rxTimer]
    exact numbered.pingTimer
  rxTimer := by
    rw [same.rxTimer, same.nextTimer]
    exact numbered.rxTimer

theorem cancel (numbered : Numbered path) (id : Option ℕ) : Numbered (path.cancel id) where
  below timer member := numbered.below timer (List.mem_of_mem_filter member)
  nodup := numbered.nodup.sublist (List.filter_sublist.map _)
  checks timer member := numbered.checks timer (List.mem_of_mem_filter member)
  pingTimer := numbered.pingTimer
  rxTimer := numbered.rxTimer

/-- A number that was not given yet. -/
theorem nodup_concat (numbered : Numbered path) (due : ℕ) (action : TimerAction) :
    ((path.timers ++ [(⟨path.nextTimer, due, action⟩ : Timer)]).map Timer.id).Nodup := by
  rw [List.map_append, List.map_singleton, List.nodup_append]
  refine ⟨numbered.nodup, List.nodup_singleton _, fun id old other new => ?_⟩
  obtain ⟨timer, member, rfl⟩ := List.mem_map.mp old
  rw [List.mem_singleton.mp new]
  exact ne_of_lt (numbered.below timer member)

theorem scheduleRequest (numbered : Numbered path) (now : ℕ) :
    Numbered (path.scheduleRequest now) where
  below timer member := by
    change timer.id < path.nextTimer + 1
    rcases List.mem_append.mp member with old | new
    · exact Nat.lt_succ_of_lt (numbered.below timer old)
    · rw [List.mem_singleton.mp new]
      exact Nat.lt_succ_self _
  nodup := numbered.nodup_concat _ _
  checks timer member := by
    change path.pingTimer = some timer.id ↔ _
    rcases List.mem_append.mp member with old | new
    · exact numbered.checks timer old
    · rw [List.mem_singleton.mp new]
      refine iff_of_false (fun ping => ?_) (fun check => nomatch check)
      exact lt_irrefl _ (numbered.pingTimer _ ping).1
  pingTimer id ping := by
    obtain ⟨below, -⟩ := numbered.pingTimer id ping
    exact ⟨Nat.lt_succ_of_lt below, fun rx => ne_of_lt below (Option.some.inj rx).symm⟩
  rxTimer id rx := by
    rw [← Option.some.inj rx]
    exact Nat.lt_succ_self _

theorem schedulePing (numbered : Numbered path) (expired : path.isExpired path.pingTimer = true)
    (now : ℕ) : Numbered (path.schedulePing now) where
  below timer member := by
    change timer.id < path.nextTimer + 1
    rcases List.mem_append.mp member with old | new
    · exact Nat.lt_succ_of_lt (numbered.below timer old)
    · rw [List.mem_singleton.mp new]
      exact Nat.lt_succ_self _
  nodup := numbered.nodup_concat _ _
  checks timer member := by
    change some path.nextTimer = some timer.id ↔ _
    rcases List.mem_append.mp member with old | new
    · refine iff_of_false (fun same => ?_) (fun check => ?_)
      · exact ne_of_lt (numbered.below timer old) (Option.some.inj same).symm
      · have apart := of_decide_eq_true (List.all_eq_true.mp expired timer old)
        exact apart ((numbered.checks timer old).mpr check).symm
    · rw [List.mem_singleton.mp new]
      exact iff_of_true rfl rfl
  pingTimer id ping := by
    rw [← Option.some.inj ping]
    exact ⟨Nat.lt_succ_self _, fun rx => lt_irrefl _ (numbered.rxTimer _ rx)⟩
  rxTimer id rx := Nat.lt_succ_of_lt (numbered.rxTimer id rx)

theorem sendConnect (numbered : Numbered path) (now : ℕ) :
    Numbered (path.sendConnect now).1 := by
  have sent (body : SimBody) : Numbered (path.sendMsg body).1 :=
    numbered.of_same ⟨rfl, rfl, rfl, rfl⟩
  rcases sendConnect_cases now path with ⟨-, eq⟩ | ⟨-, eq⟩ | ⟨-, eq⟩ <;> rw [eq]
  · dsimp only
    exact (sent _).scheduleRequest now
  · exact numbered.cancel _
  · exact numbered

theorem checkPing (numbered : Numbered path) (now : ℕ) : Numbered (path.checkPing now).1 := by
  rw [checkPing_eq]
  split_ifs with expired
  · have pinged : Numbered (path.sendPingMsg (millis now)).1 :=
      numbered.of_same ⟨rfl, rfl, rfl, rfl⟩
    dsimp only
    exact pinged.schedulePing expired now
  · exact numbered

/-- There is no other check than the one of `pingTimer_`. -/
theorem filter_checks (numbered : Numbered path) {timer : Timer} (member : timer ∈ path.timers)
    (check : timer.action = .checkPing) :
    path.timers.filter (·.action = .checkPing) = [timer] := by
  have only : ∀ other ∈ path.timers.filter (·.action = .checkPing), other = timer := by
    intro other filtered
    obtain ⟨scheduled, other_check⟩ := List.mem_filter.mp filtered
    have first := (numbered.checks timer member).mpr check
    have second := (numbered.checks other scheduled).mpr (of_decide_eq_true other_check)
    exact List.inj_on_of_nodup_map numbered.nodup scheduled member
      (Option.some.inj (second.symm.trans first))
  have nodup : (path.timers.filter (·.action = .checkPing)).Nodup :=
    numbered.nodup.of_map.filter _
  have filtered : timer ∈ path.timers.filter (·.action = .checkPing) :=
    List.mem_filter.mpr ⟨member, decide_eq_true check⟩
  generalize path.timers.filter (·.action = .checkPing) = checks at only nodup filtered
  match checks with
  | [] => exact absurd filtered List.not_mem_nil
  | [other] => rw [only other List.mem_cons_self]
  | first :: second :: rest =>
      have same := (only first List.mem_cons_self).trans
        (only second (List.mem_cons_of_mem _ List.mem_cons_self)).symm
      exact absurd (same ▸ List.mem_cons_self) (List.nodup_cons.mp nodup).1

end Numbered

/-- A check of the pings that is due at a time. -/
def Checks (due : ℕ) (path : PathControl) : Prop :=
  ∃ timer ∈ path.timers, timer.action = .checkPing ∧ timer.due = due

/-- The check of a path whose check has run: it is due again after a round trip. -/
theorem checks_checkPing (expired : path.isExpired path.pingTimer = true) (now : ℕ) :
    (path.checkPing now).1.Checks (now + path.rtt.toNat * millisecond) := by
  have scheduled (path : PathControl) :
      (path.schedulePing now).Checks (now + path.rtt.toNat * millisecond) :=
    ⟨_, List.mem_append_right _ (List.mem_singleton_self _), rfl, rfl⟩
  rw [checkPing_eq, if_pos expired]
  dsimp only
  rw [← sendPingMsg_rtt (millis now)]
  exact scheduled _

/-- What `SendConnect` cancels is not a check. -/
theorem Checks.sendConnect {due : ℕ} (checks : path.Checks due) (numbered : Numbered path)
    (now : ℕ) : (path.sendConnect now).1.Checks due := by
  obtain ⟨timer, member, check, at_⟩ := checks
  have scheduled (path : PathControl) (member : timer ∈ path.timers) :
      (path.scheduleRequest now).Checks due :=
    ⟨timer, List.mem_append_left _ member, check, at_⟩
  rcases sendConnect_cases now path with ⟨-, eq⟩ | ⟨-, eq⟩ | ⟨-, eq⟩ <;> rw [eq]
  · dsimp only
    exact scheduled _ (by rwa [sendMsg_timers])
  · refine ⟨timer, List.mem_filter.mpr ⟨member, decide_eq_true ?_⟩, check, at_⟩
    have ping := (numbered.checks timer member).mpr check
    exact fun rx => (numbered.pingTimer _ ping).2 rx.symm
  · exact ⟨timer, member, check, at_⟩

/-- Running another event does not cancel the check. -/
theorem Checks.cancel {due : ℕ} (checks : path.Checks due) (numbered : Numbered path)
    {other : Timer} (member : other ∈ path.timers) (differ : other.action ≠ .checkPing) :
    (path.cancel (some other.id)).Checks due := by
  obtain ⟨timer, scheduled, check, at_⟩ := checks
  refine ⟨timer, List.mem_filter.mpr ⟨scheduled, decide_eq_true ?_⟩, check, at_⟩
  intro same
  have ping := (numbered.checks timer scheduled).mpr check
  rw [same] at ping
  exact differ ((numbered.checks other member).mp ping)

/-- The check has expired when it runs. -/
theorem isExpired_cancel (id : Option ℕ) (path : PathControl) :
    (path.cancel id).isExpired id = true :=
  List.all_eq_true.mpr fun _ member => (List.mem_filter.mp member).2

/-- A path whose check was never scheduled can schedule it. -/
theorem isExpired_none (path : PathControl) : path.isExpired none = true :=
  List.all_eq_true.mpr fun _ _ => decide_eq_true (fun same => nomatch same)

/-- No event is overdue. -/
def Later (now : ℕ) (path : PathControl) : Prop := ∀ timer ∈ path.timers, now ≤ timer.due

theorem Later.cancel (later : path.Later now) (id : Option ℕ) : (path.cancel id).Later now :=
  fun timer member => later timer (List.mem_of_mem_filter member)

theorem Later.schedule (later : path.Later now) {due : ℕ} (notBefore : now ≤ due)
    (action : TimerAction) : (path.schedule due action).Later now := by
  intro timer member
  rcases List.mem_append.mp member with old | new
  · exact later timer old
  · rw [List.mem_singleton.mp new]
    exact notBefore

theorem Later.sendConnect (later : path.Later now) : (path.sendConnect now).1.Later now := by
  have scheduled {path : PathControl} (later : path.Later now) :
      (path.scheduleRequest now).Later now :=
    later.schedule (Nat.le_add_right _ _) .sendConnect
  have sent (body : SimBody) : (path.sendMsg body).1.Later now := later
  rcases sendConnect_cases now path with ⟨-, eq⟩ | ⟨-, eq⟩ | ⟨-, eq⟩ <;> rw [eq]
  · dsimp only
    exact scheduled (sent _)
  · exact later.cancel _
  · exact later

theorem Later.checkPing (later : path.Later now) : (path.checkPing now).1.Later now := by
  have scheduled {path : PathControl} (later : path.Later now) :
      (path.schedulePing now).Later now :=
    later.schedule (Nat.le_add_right _ _) .checkPing
  have pinged : (path.sendPingMsg (millis now)).1.Later now := later
  rw [checkPing_eq]
  split_ifs
  · dsimp only
    exact scheduled pinged
  · exact later

end MpVideo.Sender.PathControl
