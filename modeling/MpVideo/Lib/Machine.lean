import Mathlib.Data.List.Basic
import Mathlib.Data.Option.Basic

/-!
# Machines that read events and emit outputs

A machine has one step function: from a state, an event leads to a next state and
a list of outputs, or has no defined result. A run reads events in order and
collects the outputs.

An invariant of the steps is an invariant of the runs (`run_invariant`), also when
it speaks about the outputs so far (`run_log_invariant`).

Two runs on the same events are compared by what an observer sees of the outputs.
When related states step together under a condition and visibly apart without it,
the observations of all prefixes coincide exactly if the condition holds at every
step (`sameObservations_iff`).

What decides about each step decides about the run, if it is required of every step
(`Along`): whether all steps are defined (`prefixes_defined_iff`), whether all states that
are reached are good (`reached_good_iff`), and whether all outputs are
(`outputs_good_iff`).
-/

set_option autoImplicit false

universe u v w

/-- A partial step function with outputs. -/
structure Machine (σ : Type u) (ε : Type v) (ο : Type w) where
  step : σ → ε → Option (σ × List ο)

namespace Machine

variable {σ τ : Type u} {ε : Type v} {ο : Type w}

/-- The state after a list of events, and the outputs on the way. -/
def run (machine : Machine σ ε ο) : σ → List ε → Option (σ × List ο)
  | s, [] => some (s, [])
  | s, event :: rest =>
      (machine.step s event).bind fun (s, first) =>
        (run machine s rest).map fun (s, more) => (s, first ++ more)

variable {machine : Machine σ ε ο}

theorem run_cons {s : σ} {event : ε} {rest : List ε} {last : σ} {out : List ο} :
    machine.run s (event :: rest) = some (last, out) ↔
      ∃ next first more, machine.step s event = some (next, first) ∧
        machine.run next rest = some (last, more) ∧ first ++ more = out := by
  rw [run, Option.bind_eq_some_iff]
  constructor
  · rintro ⟨⟨next, first⟩, stepped, ran⟩
    obtain ⟨⟨final, more⟩, onwards, same⟩ := Option.map_eq_some_iff.mp ran
    obtain ⟨rfl, rfl⟩ := Prod.mk.inj same
    exact ⟨next, first, more, stepped, onwards, rfl⟩
  · rintro ⟨next, first, more, stepped, onwards, rfl⟩
    exact ⟨(next, first), stepped, Option.map_eq_some_iff.mpr ⟨(last, more), onwards, rfl⟩⟩

/-- **A property that relates the state to the outputs so far**, and that each step
keeps, holds after every run. -/
theorem run_log_invariant (inv : σ → List ο → Prop)
    (step : ∀ s past event next out, inv s past → machine.step s event = some (next, out) →
      inv next (past ++ out))
    {s last : σ} (past : List ο) {out : List ο} {events : List ε} (start : inv s past)
    (ran : machine.run s events = some (last, out)) : inv last (past ++ out) := by
  induction events generalizing s past out with
  | nil =>
      obtain ⟨rfl, rfl⟩ := Prod.mk.inj (Option.some.inj ran)
      rwa [List.append_nil]
  | cons event rest ih =>
      obtain ⟨next, first, more, stepped, onwards, rfl⟩ := run_cons.mp ran
      rw [← List.append_assoc]
      exact ih (past ++ first) (step _ _ _ _ _ start stepped) onwards

/-- A property that each step keeps holds after every run. -/
theorem run_invariant (inv : σ → Prop)
    (step : ∀ s event next out, inv s → machine.step s event = some (next, out) → inv next)
    {s last : σ} {out : List ο} {events : List ε} (start : inv s)
    (ran : machine.run s events = some (last, out)) : inv last :=
  run_log_invariant (fun s _ => inv s)
    (fun s _ event next out holds stepped => step s event next out holds stepped) [] start ran

/-- A property that relates the state to the outputs and to the number of events so far, and
that each step keeps as long as there are few events. -/
theorem run_counted_invariant (inv : ℕ → σ → List ο → Prop) {bound : ℕ}
    (step : ∀ n s past event next out, n < bound → inv n s past →
      machine.step s event = some (next, out) → inv (n + 1) next (past ++ out))
    {s last : σ} (n : ℕ) (past : List ο) {out : List ο} {events : List ε}
    (few : n + events.length ≤ bound) (start : inv n s past)
    (ran : machine.run s events = some (last, out)) :
    inv (n + events.length) last (past ++ out) := by
  induction events generalizing n s past out with
  | nil =>
      obtain ⟨rfl, rfl⟩ := Prod.mk.inj (Option.some.inj ran)
      rwa [List.append_nil]
  | cons event rest ih =>
      obtain ⟨next, first, more, stepped, onwards, rfl⟩ := run_cons.mp ran
      rw [List.length_cons] at few ⊢
      have one := step n s past event next first (by omega) start stepped
      rw [← List.append_assoc, ← Nat.add_assoc, Nat.add_right_comm]
      exact ih (n + 1) (past ++ first) (by omega) one onwards

/-- **When the invariant makes the next step defined and is kept by it, every run is
defined.** The invariant relates the state, the outputs so far and the events left. -/
theorem run_defined {inv : σ → List ο → List ε → Prop}
    (step : ∀ s past event rest, inv s past (event :: rest) →
      ∃ next out, machine.step s event = some (next, out) ∧ inv next (past ++ out) rest)
    {s : σ} {past : List ο} {events : List ε} (start : inv s past events) :
    ∃ last out, machine.run s events = some (last, out) ∧ inv last (past ++ out) [] := by
  induction events generalizing s past with
  | nil => exact ⟨s, [], rfl, by rwa [List.append_nil]⟩
  | cons event rest ih =>
      obtain ⟨next, first, stepped, holds⟩ := step s past event rest start
      obtain ⟨last, more, onwards, final⟩ := ih holds
      refine ⟨last, first ++ more, run_cons.mpr ⟨next, first, more, stepped, onwards, rfl⟩, ?_⟩
      rwa [← List.append_assoc]

/-- A run of two parts. -/
theorem run_append {s : σ} {events more : List ε} {last : σ} {out : List ο} :
    machine.run s (events ++ more) = some (last, out) ↔
      ∃ middle first second, machine.run s events = some (middle, first) ∧
        machine.run middle more = some (last, second) ∧ first ++ second = out := by
  induction events generalizing s out with
  | nil =>
      constructor
      · exact fun ran => ⟨s, [], out, rfl, ran, rfl⟩
      · rintro ⟨middle, first, second, start, onwards, rfl⟩
        obtain ⟨rfl, rfl⟩ := Prod.mk.inj (Option.some.inj start)
        exact onwards
  | cons event rest ih =>
      rw [List.cons_append, run_cons]
      constructor
      · rintro ⟨next, first, both, stepped, onwards, rfl⟩
        obtain ⟨middle, second, third, part, final, rfl⟩ := ih.mp onwards
        exact ⟨middle, first ++ second, third,
          run_cons.mpr ⟨next, first, second, stepped, part, rfl⟩, final, List.append_assoc ..⟩
      · rintro ⟨middle, both, third, ran, final, rfl⟩
        obtain ⟨next, first, second, stepped, part, rfl⟩ := run_cons.mp ran
        exact ⟨next, first, second ++ third, stepped, ih.mpr ⟨middle, second, third, part, final,
          rfl⟩, (List.append_assoc ..).symm⟩

theorem run_trans {s middle last : σ} {events more : List ε} {first second : List ο}
    (ran : machine.run s events = some (middle, first))
    (onwards : machine.run middle more = some (last, second)) :
    machine.run s (events ++ more) = some (last, first ++ second) :=
  run_append.mpr ⟨middle, first, second, ran, onwards, rfl⟩

/-- One step more. -/
theorem run_concat {s middle last : σ} {events : List ε} {event : ε} {first second : List ο}
    (ran : machine.run s events = some (middle, first))
    (stepped : machine.step middle event = some (last, second)) :
    machine.run s (events ++ [event]) = some (last, first ++ second) := by
  refine run_trans ran (run_cons.mpr ⟨last, second, [], stepped, rfl, List.append_nil _⟩)

/-! ## Two runs -/

/-- The part of the outputs that an observer sees. -/
def observed {ω : Type w} (see : ο → Option ω) (machine : Machine σ ε ο) (s : σ)
    (events : List ε) : Option (List ω) :=
  (machine.run s events).map fun result => result.2.filterMap see

/-- A condition on the state and the event that holds at every step of a run. -/
def Along (machine : Machine σ ε ο) (holds : σ → ε → Prop) : σ → List ε → Prop
  | _, [] => True
  | s, event :: rest =>
      holds s event ∧
        ∀ next out, machine.step s event = some (next, out) → Along machine holds next rest

theorem along_cons_some {holds : σ → ε → Prop} {s next : σ} {event : ε} {rest : List ε}
    {out : List ο} (stepped : machine.step s event = some (next, out)) :
    machine.Along holds s (event :: rest) ↔ holds s event ∧ machine.Along holds next rest := by
  constructor
  · exact fun along => ⟨along.1, along.2 next out stepped⟩
  · rintro ⟨first, later⟩
    refine ⟨first, fun other more again => ?_⟩
    obtain ⟨rfl, -⟩ := Prod.mk.inj (Option.some.inj (stepped.symm.trans again))
    exact later

/-- A condition that can be decided at every step can be decided along a run. -/
instance decidableAlong (machine : Machine σ ε ο) (holds : σ → ε → Prop)
    [decidable : ∀ s event, Decidable (holds s event)] :
    (s : σ) → (events : List ε) → Decidable (machine.Along holds s events)
  | _, [] => isTrue trivial
  | s, event :: rest =>
      match stepped : machine.step s event with
      | none => decidable_of_iff (holds s event)
          ⟨fun first => ⟨first, fun _ _ again => nomatch stepped.symm.trans again⟩, And.left⟩
      | some (next, _) =>
          have := decidableAlong machine holds next rest
          decidable_of_iff _ (along_cons_some stepped).symm

/-- **An invariant under which every step is defined, whenever a condition holds at it,
defines every run along which the condition holds.** -/
theorem run_defined_along {holds : σ → ε → Prop} {inv : σ → List ο → List ε → Prop}
    (step : ∀ s past event rest, inv s past (event :: rest) → holds s event →
      ∃ next out, machine.step s event = some (next, out) ∧ inv next (past ++ out) rest)
    {s : σ} {past : List ο} {events : List ε} (start : inv s past events)
    (along : machine.Along holds s events) :
    ∃ last out, machine.run s events = some (last, out) ∧ inv last (past ++ out) [] := by
  let both : σ → List ο → List ε → Prop := fun s past events =>
    inv s past events ∧ machine.Along holds s events
  have begun : both s past events := ⟨start, along⟩
  have steps : ∀ s past event rest, both s past (event :: rest) →
      ∃ next out, machine.step s event = some (next, out) ∧ both next (past ++ out) rest := by
    rintro s past event rest ⟨holding, now, later⟩
    obtain ⟨next, out, stepped, kept⟩ := step s past event rest holding now
    exact ⟨next, out, stepped, kept, later next out stepped⟩
  obtain ⟨last, out, ran, kept, -⟩ := machine.run_defined steps begun
  exact ⟨last, out, ran, kept⟩

theorem observed_cons {ω : Type w} (see : ο → Option ω) (s : σ) (event : ε) (rest : List ε) :
    machine.observed see s (event :: rest) = (machine.step s event).bind fun (next, first) =>
      (machine.observed see next rest).map (first.filterMap see ++ ·) := by
  rw [observed, run]
  cases machine.step s event with
  | none => rfl
  | some result =>
      simp only [Option.bind_some, observed, Option.map_map, Function.comp_def,
        List.filterMap_append]

/-- After a step with equal observations, the rest decides. -/
theorem observed_cons_eq_iff {ω : Type w} {see : ο → Option ω} {s t next next' : σ} {event : ε}
    {first second : List ο} (stepS : machine.step s event = some (next, first))
    (stepT : machine.step t event = some (next', second))
    (same : first.filterMap see = second.filterMap see) (rest : List ε) :
    machine.observed see s (event :: rest) = machine.observed see t (event :: rest) ↔
      machine.observed see next rest = machine.observed see next' rest := by
  rw [observed_cons, observed_cons, stepS, stepT, Option.bind_some, Option.bind_some]
  dsimp only
  rw [same]
  exact (Option.map_injective (List.append_right_injective _)).eq_iff

/-- **Observations of two runs coincide after every prefix if and only if the
condition holds along the first run**, when twin states step to twin states with
equal observations under the condition, and to different observations without it. -/
theorem sameObservations_iff {ω : Type w} {see : ο → Option ω} (twin : σ → σ → Prop)
    {holds : σ → ε → Prop}
    (together : ∀ s t event, twin s t → holds s event →
      Option.Rel (fun first second => twin first.1 second.1 ∧
        first.2.filterMap see = second.2.filterMap see)
        (machine.step s event) (machine.step t event))
    (apart : ∀ s t event, twin s t → ¬ holds s event →
      ∃ s' t' first second, machine.step s event = some (s', first) ∧
        machine.step t event = some (t', second) ∧
        first.filterMap see ≠ second.filterMap see)
    {s t : σ} (twins : twin s t) (events : List ε) :
    (∀ n, machine.observed see s (events.take n) = machine.observed see t (events.take n)) ↔
      machine.Along holds s events := by
  induction events generalizing s t with
  | nil => exact iff_of_true (fun n => by simp [observed, run]) trivial
  | cons event rest ih =>
      constructor
      · intro same
        have agreed : holds s event := by
          by_contra differs
          obtain ⟨s', t', first, second, stepS, stepT, visible⟩ := apart s t event twins differs
          have one := same 1
          rw [List.take_succ_cons, List.take_zero, observed_cons, observed_cons, stepS,
            stepT] at one
          exact visible (by simpa [observed, run] using one)
        refine ⟨agreed, ?_⟩
        intro next out stepS
        have related := together s t event twins agreed
        rw [stepS] at related
        cases stepT : machine.step t event with
        | none =>
            rw [stepT] at related
            cases related
        | some result =>
            rw [stepT] at related
            obtain ⟨both, equal⟩ := Option.rel_some_some.mp related
            exact (ih both).mp fun n =>
              (observed_cons_eq_iff stepS stepT equal (rest.take n)).mp (same (n + 1))
      · rintro ⟨agreed, onwards⟩ n
        cases n with
        | zero => simp [observed, run]
        | succ n =>
            rw [List.take_succ_cons]
            have related := together s t event twins agreed
            cases stepS : machine.step s event with
            | none =>
                cases stepT : machine.step t event with
                | none => rw [observed_cons, observed_cons, stepS, stepT]
                | some _ =>
                    rw [stepS, stepT] at related
                    cases related
            | some result =>
                cases stepT : machine.step t event with
                | none =>
                    rw [stepS, stepT] at related
                    cases related
                | some result' =>
                    rw [stepS, stepT] at related
                    obtain ⟨both, equal⟩ := Option.rel_some_some.mp related
                    exact (observed_cons_eq_iff stepS stepT equal (rest.take n)).mpr
                      ((ih both).mpr (onwards _ _ stepS) n)

/-! ## Logs -/

/-- An entry of a longer log is the last one, or one of the log before. -/
theorem concat_eq_split {list past rest : List ο} {last middle : ο} :
    list ++ [last] = past ++ middle :: rest ↔
      (list = past ∧ last = middle ∧ rest = []) ∨
        ∃ front, rest = front ++ [last] ∧ list = past ++ middle :: front := by
  constructor
  · intro split
    rcases List.eq_nil_or_concat rest with rfl | ⟨front, final, rfl⟩
    · obtain ⟨same, equal⟩ := List.append_inj' split rfl
      exact .inl ⟨same, (List.cons.inj equal).1, rfl⟩
    · rw [List.concat_eq_append, ← List.cons_append, ← List.append_assoc] at split
      obtain ⟨same, equal⟩ := List.append_inj' split rfl
      obtain rfl := (List.cons.inj equal).1
      exact .inr ⟨front, List.concat_eq_append, same⟩
  · rintro (⟨rfl, rfl, rfl⟩ | ⟨front, rfl, rfl⟩)
    · rfl
    · rw [List.append_assoc, List.cons_append]

/-- What an observer sees of a log that gets one more entry. -/
theorem filterMap_concat {ω : Type w} (see : ο → Option ω) (log : List ο) (entry : ο) :
    (log ++ [entry]).filterMap see = log.filterMap see ++ (see entry).toList := by
  rw [List.filterMap_append, List.filterMap_cons]
  cases see entry with
  | none => rfl
  | some seen => rfl

/-! ## Positions in a run -/

/-- The event at a position, and the state before it. -/
def Before (machine : Machine σ ε ο) (start : σ) (events : List ε) (n : Nat) (s : σ)
    (event : ε) : Prop :=
  (∃ out, machine.run start (events.take n) = some (s, out)) ∧ events[n]? = some event

theorem before_zero {start s : σ} {first event : ε} {rest : List ε} :
    machine.Before start (first :: rest) 0 s event ↔ start = s ∧ first = event := by
  simp [Before, run]

theorem before_succ {start s : σ} {first event : ε} {rest : List ε} {n : Nat} :
    machine.Before start (first :: rest) (n + 1) s event ↔
      ∃ next out, machine.step start first = some (next, out) ∧
        machine.Before next rest n s event := by
  simp only [Before, List.take_succ_cons, List.getElem?_cons_succ, run_cons]
  constructor
  · rintro ⟨⟨out, next, head, more, stepped, onwards, -⟩, found⟩
    exact ⟨next, head, stepped, ⟨more, onwards⟩, found⟩
  · rintro ⟨next, head, stepped, ⟨more, onwards⟩, found⟩
    exact ⟨⟨head ++ more, next, head, more, stepped, onwards, rfl⟩, found⟩

/-- An invariant holds before every event. -/
theorem before_invariant (inv : σ → Prop)
    (step : ∀ s event next out, inv s → machine.step s event = some (next, out) → inv next)
    {start s : σ} {events : List ε} {n : Nat} {event : ε} (holds : inv start)
    (before : machine.Before start events n s event) : inv s := by
  obtain ⟨⟨out, ran⟩, -⟩ := before
  exact run_invariant inv step holds ran

/-- **A flag is set before an event if and only if an earlier event raised it**, when it
starts unset and a step changes it by raising it only. -/
theorem flag_iff_raised (flag : σ → Prop) (raises : σ → ε → Prop)
    (step : ∀ s event next out, machine.step s event = some (next, out) →
      (flag next ↔ flag s ∨ raises s event))
    {start s : σ} {events : List ε} {n : Nat} {event : ε} (unset : ¬ flag start)
    (before : machine.Before start events n s event) :
    flag s ↔ ∃ m < n, ∃ earlier cause, machine.Before start events m earlier cause ∧
      raises earlier cause := by
  induction events generalizing start n with
  | nil => cases before.2
  | cons first rest ih =>
      cases n with
      | zero =>
          obtain ⟨rfl, rfl⟩ := before_zero.mp before
          refine iff_of_false unset ?_
          rintro ⟨m, less, -⟩
          exact Nat.not_lt_zero m less
      | succ n =>
          obtain ⟨next, out, stepped, onwards⟩ := before_succ.mp before
          have changed := step start first next out stepped
          by_cases raised : raises start first
          · refine iff_of_true ?_ ⟨0, Nat.zero_lt_succ n, start, first,
              before_zero.mpr ⟨rfl, rfl⟩, raised⟩
            refine before_invariant flag ?_ (changed.mpr (.inr raised)) onwards
            exact fun s event next out holds stepped =>
              (step s event next out stepped).mpr (.inl holds)
          · have still : ¬ flag next := fun set =>
              (changed.mp set).elim unset raised
            rw [ih still onwards]
            constructor
            · rintro ⟨m, less, earlier, cause, position, raises⟩
              exact ⟨m + 1, Nat.succ_lt_succ less, earlier, cause,
                before_succ.mpr ⟨next, out, stepped, position⟩, raises⟩
            · rintro ⟨m, less, earlier, cause, position, raises⟩
              cases m with
              | zero =>
                  obtain ⟨rfl, rfl⟩ := before_zero.mp position
                  exact absurd raises raised
              | succ m =>
                  obtain ⟨next', out', stepped', position⟩ := before_succ.mp position
                  obtain ⟨rfl, -⟩ := Prod.mk.inj (Option.some.inj (stepped.symm.trans stepped'))
                  exact ⟨m, Nat.lt_of_succ_lt_succ less, earlier, cause, position, raises⟩

/-- Along a run, conditions that the invariant makes the same are the same. -/
theorem along_congr {inv : σ → Prop} {holds other : σ → ε → Prop}
    (keeps : ∀ s event next out, inv s → machine.step s event = some (next, out) → inv next)
    (same : ∀ s event, inv s → (holds s event ↔ other s event)) {start : σ} {events : List ε}
    (initial : inv start) : machine.Along holds start events ↔ machine.Along other start events := by
  induction events generalizing start with
  | nil => exact Iff.rfl
  | cons event rest ih =>
      refine and_congr (same start event initial) (forall₃_congr fun next out stepped => ?_)
      exact ih (keeps start event next out initial stepped)

/-- **Every prefix of a run is defined and leads to a good state if and only if the
condition holds along the run**, when it decides which steps are defined and the
invariant makes a state good. -/
theorem prefixes_defined_iff {inv good : σ → Prop} {holds : σ → ε → Prop}
    (keeps : ∀ s event next out, inv s → machine.step s event = some (next, out) → inv next)
    (sound : ∀ s, inv s → good s)
    (defined : ∀ s event, inv s → ((∃ next out, machine.step s event = some (next, out)) ↔
      holds s event))
    {start : σ} {events : List ε} (initial : inv start) :
    (∀ n, ∃ last out, machine.run start (events.take n) = some (last, out) ∧ good last) ↔
      machine.Along holds start events := by
  induction events generalizing start with
  | nil => exact iff_of_true (fun n => ⟨start, [], by simp [run], sound start initial⟩) trivial
  | cons event rest ih =>
      constructor
      · intro ran
        obtain ⟨last, out, one, -⟩ := ran 1
        obtain ⟨next, first, -, stepped, -⟩ := run_cons.mp one
        refine ⟨(defined start event initial).mp ⟨next, first, stepped⟩, ?_⟩
        intro next out stepped
        apply (ih (keeps start event next out initial stepped)).mp
        intro n
        obtain ⟨last, all, ran, good⟩ := ran (n + 1)
        obtain ⟨next', first, more, stepped', onwards, -⟩ := run_cons.mp ran
        obtain ⟨rfl, -⟩ := Prod.mk.inj (Option.some.inj (stepped.symm.trans stepped'))
        exact ⟨last, more, onwards, good⟩
      · rintro ⟨now, later⟩ n
        cases n with
        | zero => exact ⟨start, [], rfl, sound start initial⟩
        | succ n =>
            obtain ⟨next, first, stepped⟩ := (defined start event initial).mpr now
            obtain ⟨last, more, onwards, good⟩ :=
              (ih (keeps start event next first initial stepped)).mpr
                (later next first stepped) n
            exact ⟨last, first ++ more,
              run_cons.mpr ⟨next, first, more, stepped, onwards, rfl⟩, good⟩

/-- **Every state that a run passes is good if and only if the condition holds at every
step that is defined**, when it decides whether a step leads from a good state to a good
one. The invariant and the decision are only needed as long as the states are good, and for
steps within a bound that the run keeps. -/
theorem reached_good_within_iff {inv good : σ → Prop} {within holds : σ → ε → Prop}
    (keeps : ∀ s event next out, inv s → within s event → good s →
      machine.step s event = some (next, out) → good next → inv next)
    (decides : ∀ s event next out, inv s → within s event → good s →
      machine.step s event = some (next, out) → (good next ↔ holds s event))
    {start : σ} {events : List ε} (initial : inv start) (begins : good start)
    (inside : machine.Along within start events) :
    (∀ n last out, machine.run start (events.take n) = some (last, out) → good last) ↔
      machine.Along (fun s event => (machine.step s event).isSome → holds s event)
        start events := by
  induction events generalizing start with
  | nil =>
      refine iff_of_true ?_ trivial
      intro n last out ran
      rw [List.take_nil] at ran
      obtain ⟨rfl, -⟩ := Prod.mk.inj (Option.some.inj ran)
      exact begins
  | cons event rest ih =>
      obtain ⟨bounded, inside⟩ := inside
      constructor
      · intro always
        have good : ∀ next out, machine.step start event = some (next, out) → good next :=
          fun next out stepped => always 1 next (out ++ [])
            (run_cons.mpr ⟨next, out, [], stepped, rfl, rfl⟩)
        constructor
        · intro defined
          obtain ⟨⟨next, out⟩, stepped⟩ := Option.isSome_iff_exists.mp defined
          exact (decides start event next out initial bounded begins stepped).mp
            (good next out stepped)
        · intro next out stepped
          have reached := good next out stepped
          have after := keeps start event next out initial bounded begins stepped reached
          apply (ih after reached (inside next out stepped)).mp
          intro n last more ran
          exact always (n + 1) last (out ++ more)
            (run_cons.mpr ⟨next, out, more, stepped, ran, rfl⟩)
      · rintro ⟨now, later⟩ n last out ran
        cases n with
        | zero =>
            obtain ⟨rfl, -⟩ := Prod.mk.inj (Option.some.inj ran)
            exact begins
        | succ n =>
            obtain ⟨next, first, more, stepped, onwards, -⟩ := run_cons.mp ran
            have good := (decides start event next first initial bounded begins stepped).mpr
              (now (Option.isSome_iff_exists.mpr ⟨_, stepped⟩))
            have after := keeps start event next first initial bounded begins stepped good
            exact (ih after good (inside next first stepped)).mpr
              (later next first stepped) n last more onwards

/-- What holds of all states and events holds along every run. -/
theorem along_of_forall {holds : σ → ε → Prop} (always : ∀ s event, holds s event) (start : σ)
    (events : List ε) : machine.Along holds start events := by
  induction events generalizing start with
  | nil => trivial
  | cons event rest ih => exact ⟨always start event, fun next _ _ => ih next⟩

/-- A condition on the events alone holds along a run of events that have it. -/
theorem along_of_events {good : ε → Prop} (start : σ) {events : List ε}
    (all : ∀ event ∈ events, good event) :
    machine.Along (fun _ event => good event) start events := by
  induction events generalizing start with
  | nil => trivial
  | cons event rest ih =>
      exact ⟨all event List.mem_cons_self,
        fun next _ _ => ih next fun other member => all other (List.mem_cons_of_mem _ member)⟩

/-- Two conditions that hold along a run hold together. -/
theorem Along.and {holds other : σ → ε → Prop} {s : σ} {events : List ε}
    (first : machine.Along holds s events) (second : machine.Along other s events) :
    machine.Along (fun s event => holds s event ∧ other s event) s events := by
  induction events generalizing s with
  | nil => trivial
  | cons event rest ih =>
      exact ⟨⟨first.1, second.1⟩, fun next out stepped =>
        ih (first.2 next out stepped) (second.2 next out stepped)⟩

/-- A property that each step keeps under a condition holds after every run along which the
condition holds. -/
theorem run_along_invariant {holds : σ → ε → Prop} (inv : σ → Prop)
    (step : ∀ s event next out, inv s → holds s event → machine.step s event = some (next, out) →
      inv next)
    {s last : σ} {out : List ο} {events : List ε} (along : machine.Along holds s events)
    (start : inv s) (ran : machine.run s events = some (last, out)) : inv last := by
  induction events generalizing s out with
  | nil =>
      obtain ⟨rfl, rfl⟩ := Prod.mk.inj (Option.some.inj ran)
      exact start
  | cons event rest ih =>
      obtain ⟨next, first, more, stepped, onwards, rfl⟩ := run_cons.mp ran
      exact ih (along.2 next first stepped) (step _ _ _ _ start along.1 stepped) onwards

/-- The same for a run without a bound. -/
theorem reached_good_while_iff {inv good : σ → Prop} {holds : σ → ε → Prop}
    (keeps : ∀ s event next out, inv s → good s → machine.step s event = some (next, out) →
      good next → inv next)
    (decides : ∀ s event next out, inv s → good s → machine.step s event = some (next, out) →
      (good next ↔ holds s event))
    {start : σ} {events : List ε} (initial : inv start) (begins : good start) :
    (∀ n last out, machine.run start (events.take n) = some (last, out) → good last) ↔
      machine.Along (fun s event => (machine.step s event).isSome → holds s event)
        start events :=
  reached_good_within_iff (fun s event next out holds _ => keeps s event next out holds)
    (fun s event next out holds _ => decides s event next out holds) initial begins
    (along_of_forall (fun _ _ => trivial) start events)

/-- The same for an invariant that every step keeps. -/
theorem reached_good_iff {inv good : σ → Prop} {holds : σ → ε → Prop}
    (keeps : ∀ s event next out, inv s → machine.step s event = some (next, out) → inv next)
    (decides : ∀ s event next out, inv s → good s → machine.step s event = some (next, out) →
      (good next ↔ holds s event))
    {start : σ} {events : List ε} (initial : inv start) (begins : good start) :
    (∀ n last out, machine.run start (events.take n) = some (last, out) → good last) ↔
      machine.Along (fun s event => (machine.step s event).isSome → holds s event)
        start events :=
  reached_good_while_iff
    (fun s event next out holds _ stepped _ => keeps s event next out holds stepped)
    decides initial begins

/-- **Every prefix of a run leads to a good state if and only if the condition holds
along the run**, when every step is defined. -/
theorem prefixes_good_iff {inv good : σ → Prop} {holds : σ → ε → Prop}
    (defined : ∀ s event, ∃ next out, machine.step s event = some (next, out))
    (keeps : ∀ s event next out, inv s → machine.step s event = some (next, out) → inv next)
    (decides : ∀ s event next out, inv s → good s → machine.step s event = some (next, out) →
      (good next ↔ holds s event))
    {start : σ} {events : List ε} (initial : inv start) (begins : good start) :
    (∀ n last out, machine.run start (events.take n) = some (last, out) → good last) ↔
      machine.Along holds start events := by
  rw [reached_good_iff keeps decides initial begins]
  have always : ∀ s event, (machine.step s event).isSome := by
    intro s event
    obtain ⟨next, out, stepped⟩ := defined s event
    exact Option.isSome_iff_exists.mpr ⟨_, stepped⟩
  simp only [always, forall_const]

/-- When every step is defined, every run is. -/
theorem run_total (defined : ∀ s event, ∃ next out, machine.step s event = some (next, out))
    (s : σ) (events : List ε) : ∃ last out, machine.run s events = some (last, out) := by
  induction events generalizing s with
  | nil => exact ⟨s, [], rfl⟩
  | cons event rest ih =>
      obtain ⟨next, first, stepped⟩ := defined s event
      obtain ⟨last, more, onwards⟩ := ih next
      exact ⟨last, first ++ more, run_cons.mpr ⟨next, first, more, stepped, onwards, rfl⟩⟩

/-- **Everything that a run puts out is good if and only if the condition holds along
it**, when every step is defined and the condition decides whether a step puts out
anything bad. -/
theorem outputs_good_iff {inv : σ → Prop} {good : ο → Prop} {holds : σ → ε → Prop}
    (defined : ∀ s event, ∃ next out, machine.step s event = some (next, out))
    (keeps : ∀ s event next out, inv s → machine.step s event = some (next, out) → inv next)
    (decides : ∀ s event next out, inv s → machine.step s event = some (next, out) →
      ((∀ o ∈ out, good o) ↔ holds s event))
    {start : σ} {events : List ε} (initial : inv start) :
    (∀ last out, machine.run start events = some (last, out) → ∀ o ∈ out, good o) ↔
      machine.Along holds start events := by
  induction events generalizing start with
  | nil =>
      refine iff_of_true ?_ trivial
      intro last out ran
      obtain ⟨-, rfl⟩ := Prod.mk.inj (Option.some.inj ran)
      exact fun _ member => absurd member List.not_mem_nil
  | cons event rest ih =>
      constructor
      · intro always
        obtain ⟨next, first, stepped⟩ := defined start event
        obtain ⟨last, more, onwards⟩ := run_total defined next rest
        have here : ∀ o ∈ first, good o := fun o member =>
          always last (first ++ more)
            (run_cons.mpr ⟨next, first, more, stepped, onwards, rfl⟩) o
            (List.mem_append_left _ member)
        refine ⟨(decides start event next first initial stepped).mp here, ?_⟩
        intro next' out stepped'
        apply (ih (keeps start event next' out initial stepped')).mp
        intro last more onwards o member
        exact always last (out ++ more)
          (run_cons.mpr ⟨next', out, more, stepped', onwards, rfl⟩) o
          (List.mem_append_right _ member)
      · rintro ⟨now, later⟩ last out ran o member
        obtain ⟨next, first, more, stepped, onwards, rfl⟩ := run_cons.mp ran
        rcases List.mem_append.mp member with here | after
        · exact (decides start event next first initial stepped).mpr now o here
        · exact (ih (keeps start event next first initial stepped)).mpr
            (later next first stepped) last more onwards o after

end Machine
