import Mathlib.Data.List.Basic

/-!
# Programs that read a tape

A tape is a state with a list of symbols not read yet and an operation that
moves past some of them. A program reads given symbols with a given result when,
from every state in which these symbols come first, it returns the result and
moves past exactly these symbols (`Reads`).

Reading composes: a sequence of programs reads the concatenation
(`Reads.bind`), and a repeated program reads the concatenation of the pieces
(`Reads.times`). A decoder is then checked against an encoder piece by piece.
-/

set_option autoImplicit false

universe u v

/-- A state with unread symbols. Moving on drops symbols from the front and
changes nothing else. -/
structure Tape (σ : Type u) (β : Type v) where
  /-- The symbols not read yet. -/
  unread : σ → List β
  /-- Move past some symbols. -/
  advance : Nat → σ → σ
  unread_advance : ∀ n s, unread (advance n s) = (unread s).drop n
  advance_zero : ∀ s, advance 0 s = s
  advance_add : ∀ m n s, advance n (advance m s) = advance (m + n) s

namespace Tape

variable {σ α γ : Type u} {β : Type v} (tape : Tape σ β)

/-- From every state that starts with `symbols`, the program returns `value`
and moves past `symbols`. -/
def Reads (program : StateM σ α) (symbols : List β) (value : α) : Prop :=
  ∀ s, symbols <+: tape.unread s → program.run s = (value, tape.advance symbols.length s)

variable {tape}

theorem Reads.run_eq {program : StateM σ α} {symbols rest : List β} {value : α}
    (reads : tape.Reads program symbols value) {s : σ} (starts : tape.unread s = symbols ++ rest) :
    program.run s = (value, tape.advance symbols.length s) :=
  reads s ⟨rest, starts.symm⟩

/-- What is left after reading a prefix of the tape. -/
theorem unread_after {s : σ} {symbols rest : List β} (starts : tape.unread s = symbols ++ rest) :
    tape.unread (tape.advance symbols.length s) = rest := by
  rw [tape.unread_advance, starts, List.drop_left]

theorem Reads.pure (value : α) : tape.Reads (Pure.pure value) [] value := by
  intro s _
  rw [List.length_nil, tape.advance_zero]
  rfl

/-- **A sequence of programs reads the concatenation.** -/
theorem Reads.bind {first : StateM σ α} {next : α → StateM σ γ} {symbols more : List β}
    {value : α} {result : γ} (one : tape.Reads first symbols value)
    (two : tape.Reads (next value) more result) :
    tape.Reads (first >>= next) (symbols ++ more) result := by
  rintro s ⟨rest, starts⟩
  have starts' : tape.unread s = symbols ++ (more ++ rest) := by
    rw [← starts, List.append_assoc]
  rw [StateT.run_bind, one.run_eq starts']
  apply (two.run_eq (unread_after starts')).trans
  rw [tape.advance_add, List.length_append]

/-- A program followed by a pure function of its result. -/
theorem Reads.map {first : StateM σ α} {symbols : List β} {value : α}
    (reads : tape.Reads first symbols value) (f : α → γ) :
    tape.Reads (f <$> first) symbols (f value) := by
  intro s starts
  rw [StateT.run_map, reads s starts]
  rfl

/-- A program followed by a last step that reads nothing. -/
theorem Reads.bind_pure {first : StateM σ α} {symbols : List β} {value : α}
    (reads : tape.Reads first symbols value) (f : α → γ) :
    tape.Reads (first >>= fun x => Pure.pure (f x)) symbols (f value) := by
  have both : tape.Reads (first >>= fun x => Pure.pure (f x)) (symbols ++ []) (f value) :=
    reads.bind (Reads.pure (f value))
  rwa [List.append_nil] at both

/-- A program run a given number of times, with the results in order. -/
def times (program : StateM σ α) : Nat → StateM σ (List α)
  | 0 => Pure.pure []
  | n + 1 => do
      let value ← program
      let rest ← times program n
      return value :: rest

/-- A repeated program reads the concatenation of what it reads for each result. -/
theorem Reads.times {program : StateM σ α} {encode : α → List β}
    (reads : ∀ value, tape.Reads program (encode value) value) (values : List α) :
    tape.Reads (Tape.times program values.length) (values.flatMap encode) values := by
  induction values with
  | nil => exact Reads.pure []
  | cons value rest ih => exact (reads value).bind (ih.map (value :: ·))

end Tape
