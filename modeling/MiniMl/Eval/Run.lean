import MiniMl.Eval.Event
import MiniMl.Failure
/-!
# Runs

A run ends in a result or a failure and leaves a log. Runs are composed in sequence: the logs are
joined, and the first failure ends the sequence.
-/

namespace MiniMl

/-- A finished computation of the evaluator. -/
structure Run (α : Type) where
  outcome : Except Failure α
  log : List Event

namespace Run

variable {α β γ : Type}

/-- A result and an empty log. -/
@[inline] protected def pure (a : α) : Run α :=
  ⟨.ok a, []⟩

/-- Goes on with the result of a run. -/
@[inline] protected def bind (x : Run α) (next : α → Run β) : Run β :=
  match x.outcome with
  | .ok a =>
    let y := next a
    ⟨y.outcome, x.log ++ y.log⟩
  | .error failure => ⟨.error failure, x.log⟩

instance : Monad Run where
  pure := Run.pure
  bind := Run.bind

/-- An outcome without messages. -/
@[inline] def ofOutcome (outcome : Except Failure α) : Run α :=
  ⟨outcome, []⟩

/-- A result or an evaluation error. -/
@[inline] def ofEval (result : Except EvalError α) : Run α :=
  ofOutcome (result.mapError .error)

/-- A result that may turn out malformed. -/
@[inline] def ofChecked (result : Except Malformed α) : Run α :=
  ofOutcome (result.mapError .malformed)

/-- A run that fails at once. -/
@[inline] def fail (failure : Failure) : Run α :=
  ofOutcome (.error failure)

@[inline] def emit (event : Event) : Run Unit :=
  ⟨.ok (), [event]⟩

/-- Adds a message after an evaluation error. -/
def reporting (event : EvalError → Event) (x : Run α) : Run α :=
  match x.outcome with
  | .error (.error e) => ⟨x.outcome, x.log ++ [event e]⟩
  | _ => x

/-! ### Runs as a monad -/

theorem pure_def (a : α) : (pure a : Run α) = ⟨.ok a, []⟩ := rfl

theorem bind_ok (a : α) (log : List Event) (next : α → Run β) :
    ((⟨.ok a, log⟩ : Run α) >>= next) = ⟨(next a).outcome, log ++ (next a).log⟩ := rfl

theorem bind_error (failure : Failure) (log : List Event) (next : α → Run β) :
    ((⟨.error failure, log⟩ : Run α) >>= next) = ⟨.error failure, log⟩ := rfl

private theorem map_eq_bind (f : α → β) (x : Run α) :
    f <$> x = x >>= fun a => pure (f a) := rfl

instance : LawfulMonad Run :=
  LawfulMonad.mk' Run
    (fun x => by
      obtain ⟨outcome, log⟩ := x
      cases outcome with
      | ok a => simp [map_eq_bind, bind_ok, pure_def]
      | error failure => rfl)
    (fun a next => by simp [pure_def, bind_ok])
    (fun x next last => by
      obtain ⟨outcome, log⟩ := x
      cases outcome with
      | error failure => rfl
      | ok a =>
        rw [bind_ok, bind_ok]
        generalize next a = y
        obtain ⟨outcome', log'⟩ := y
        cases outcome' with
        | error failure => rfl
        | ok b => simp [bind_ok])

end Run

end MiniMl
