import Mathlib.Data.Rat.Defs
import MpVideo.Lib.SortedMap

/-!
# Queues of scheduled events

A simulator keeps the events that are scheduled and have not run. A program schedules an
action after a delay, gets the id of the event, and may ask later whether this event has
expired. The simulator takes an event out of the queue when it runs it.

A program that holds one event of an action at most has this action pending as one id, or
not at all (`PendingAs`). The rules say how this changes when events are scheduled and run.
-/

set_option autoImplicit false

universe u v w

/-- The operations on the events of a simulator. -/
structure EventQueue (Q : Type u) (ι : Type v) (α : Type w) where
  /-- Schedules an action after a delay in seconds. -/
  schedule : ℚ → α → Q → ι × Q
  /-- Takes an event out of the queue, to run it. -/
  start : ι → Q → Q
  /-- The action of an event that has not run yet. -/
  pending : Q → ι → Option α
  /-- Whether an event has run. -/
  isExpired : Q → ι → Bool

namespace EventQueue

variable {Q : Type u} {ι : Type v} {α : Type w} {queue : EventQueue Q ι α} {q : Q}
  {action other : α} {event : Option ι} {id : ι}

/-- What a simulator promises about its events: an id is not given twice, an event stays in
the queue until it runs, and expires then. -/
structure Lawful (queue : EventQueue Q ι α) : Prop where
  fresh : ∀ delay action q, queue.pending q (queue.schedule delay action q).1 = none
  scheduled : ∀ delay action q, queue.pending (queue.schedule delay action q).2
    (queue.schedule delay action q).1 = some action
  kept : ∀ delay action q id, id ≠ (queue.schedule delay action q).1 →
    queue.pending (queue.schedule delay action q).2 id = queue.pending q id
  started : ∀ q id, queue.pending (queue.start id q) id = none
  left : ∀ q id id', id' ≠ id → queue.pending (queue.start id q) id' = queue.pending q id'
  expired : ∀ q id, queue.isExpired q id = true ↔ queue.pending q id = none

/-- An action is pending as one event, or not at all. -/
def PendingAs (queue : EventQueue Q ι α) (q : Q) (action : α) (event : Option ι) : Prop :=
  ∀ id, queue.pending q id = some action ↔ event = some id

/-- Whether an action is pending as any event. -/
def Waits (queue : EventQueue Q ι α) (q : Q) (action : α) : Prop :=
  ∃ id, queue.pending q id = some action

theorem PendingAs.waits_iff (pending : queue.PendingAs q action event) :
    queue.Waits q action ↔ event.isSome = true := by
  rw [Option.isSome_iff_exists]
  exact exists_congr pending

/-- **At most one event is pending.** -/
theorem PendingAs.unique (pending : queue.PendingAs q action event) {id' : ι}
    (first : queue.pending q id = some action) (second : queue.pending q id' = some action) :
    id = id' :=
  Option.some.inj (((pending id).mp first).symm.trans ((pending id').mp second))

/-- An action that does not wait is pending as the event that is scheduled for it. -/
theorem PendingAs.schedule (pending : queue.PendingAs q action none) (lawful : queue.Lawful)
    (delay : ℚ) : queue.PendingAs (queue.schedule delay action q).2 action
      (some (queue.schedule delay action q).1) := by
  intro id
  by_cases new : id = (queue.schedule delay action q).1
  · subst new
    exact iff_of_true (lawful.scheduled delay action q) rfl
  · rw [lawful.kept delay action q id new, pending]
    exact iff_of_false (by simp) (fun same => new (Option.some.inj same).symm)

/-- The events of another action do not matter when one more is scheduled. -/
theorem PendingAs.schedule_other (pending : queue.PendingAs q action event)
    (lawful : queue.Lawful) (differ : other ≠ action) (delay : ℚ) :
    queue.PendingAs (queue.schedule delay other q).2 action event := by
  intro id
  by_cases new : id = (queue.schedule delay other q).1
  · subst new
    rw [lawful.scheduled delay other q, ← pending, lawful.fresh delay other q]
    exact iff_of_false (fun same => differ (Option.some.inj same)) (by simp)
  · rw [lawful.kept delay other q id new]
    exact pending id

/-- An action is not pending any more when its event runs. -/
theorem PendingAs.start (pending : queue.PendingAs q action (some id)) (lawful : queue.Lawful) :
    queue.PendingAs (queue.start id q) action none := by
  intro id'
  by_cases same : id' = id
  · subst same
    rw [lawful.started q id']
    exact iff_of_false (by simp) (by simp)
  · rw [lawful.left q id id' same, pending]
    exact iff_of_false (fun again => same (Option.some.inj again).symm) (by simp)

/-- The events of another action do not matter when one of them runs. -/
theorem PendingAs.start_other (pending : queue.PendingAs q action event)
    (lawful : queue.Lawful) (differ : other ≠ action)
    (found : queue.pending q id = some other) :
    queue.PendingAs (queue.start id q) action event := by
  intro id'
  by_cases same : id' = id
  · subst same
    rw [lawful.started q id', ← pending, found]
    exact iff_of_false (by simp) (fun again => differ (Option.some.inj again))
  · rw [lawful.left q id id' same]
    exact pending id'

end EventQueue

/-! ## An agenda -/

/-- The events of a simulator by their numbers, each with the time when it is due. -/
structure Agenda (α : Type w) where
  now : ℚ := 0
  next : ℕ := 0
  events : SortedMap ℕ (ℚ × α) := .empty
  numbered : ∀ id ∈ events.keys, id < next

namespace Agenda

variable {α : Type w}

/-- An agenda without events. -/
def empty : Agenda α where
  numbered := fun _ member => absurd member List.not_mem_nil

/-- An action is written down under the next number. -/
def schedule (delay : ℚ) (action : α) (agenda : Agenda α) : ℕ × Agenda α :=
  (agenda.next,
    { now := agenda.now
      next := agenda.next + 1
      events := agenda.events.set agenda.next (agenda.now + delay, action)
      numbered := by
        intro id member
        rcases SortedMap.mem_keys_set.mp member with rfl | old
        · exact Nat.lt_succ_self _
        · exact (agenda.numbered id old).trans (Nat.lt_succ_self _) })

/-- The time becomes that of the event, which is crossed out. -/
def start (id : ℕ) (agenda : Agenda α) : Agenda α where
  now := ((agenda.events.find? id).map Prod.fst).getD agenda.now
  next := agenda.next
  events := agenda.events.erase id
  numbered := fun _ member => agenda.numbered _ (SortedMap.mem_keys_erase.mp member).1

/-- The action of an event. -/
def pending (agenda : Agenda α) (id : ℕ) : Option α := (agenda.events.find? id).map Prod.snd

/-- Agendas as queues of events. -/
def queue : EventQueue (Agenda α) ℕ α where
  schedule := schedule
  start := start
  pending := pending
  isExpired agenda id := (agenda.events.find? id).isNone

/-- **An agenda is a lawful queue of events.** -/
theorem queue_lawful : (queue : EventQueue (Agenda α) ℕ α).Lawful where
  fresh delay action agenda := by
    change (agenda.events.find? agenda.next).map Prod.snd = none
    rw [Option.map_eq_none_iff, SortedMap.find?_eq_none_iff]
    intro value member
    exact lt_irrefl _ (agenda.numbered _ (List.mem_map_of_mem member))
  scheduled delay action agenda := by
    change ((agenda.events.set agenda.next (agenda.now + delay, action)).find?
      agenda.next).map Prod.snd = some action
    rw [SortedMap.find?_set, if_pos rfl]
    rfl
  kept delay action agenda id differ := by
    change ((agenda.events.set agenda.next (agenda.now + delay, action)).find? id).map Prod.snd =
      (agenda.events.find? id).map Prod.snd
    have old : id ≠ agenda.next := differ
    rw [SortedMap.find?_set_of_ne _ old]
  started agenda id := by
    change ((agenda.events.erase id).find? id).map Prod.snd = none
    rw [SortedMap.find?_erase, if_pos rfl]
    rfl
  left agenda id id' differ := by
    change ((agenda.events.erase id).find? id').map Prod.snd =
      (agenda.events.find? id').map Prod.snd
    rw [SortedMap.find?_erase, if_neg differ]
  expired agenda id := by
    change (agenda.events.find? id).isNone = true ↔ (agenda.events.find? id).map Prod.snd = none
    rw [Option.isNone_iff_eq_none, Option.map_eq_none_iff]

end Agenda
