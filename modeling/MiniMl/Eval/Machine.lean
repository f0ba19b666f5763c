import MiniMl.Eval.Run
import MiniMl.Value.Basic
/-!
# Machines

The evaluator is written once, for any `Machine` that it may run on: a machine on which everything
goes well but for the failures of the evaluator itself (`Run`), one that counts in a variable how
deep it is, or one that has so much room for calls and no more.

Between the evaluations of the parts of an expression the evaluator does things of its own, its
steps. What a step comes to is the same on all machines, a run, but a machine may charge for it.
-/

namespace MiniMl

/-- What the evaluator does between evaluations, with all it is given. -/
inductive Step where
  /-- A value is made of what is at hand. -/
  | make (value : Value)
  | constant (c : Constant)
  | find (env : Env) (name : String)
  | tuple (items : List Value)
  /-- A condition is refused. -/
  | condition (value : Value)
  | operator (symbol : String) (left right : Value)
  | select (env : Env) (value : Value) (rules : List Rule)
  | argument (env : Env) (param : Pattern) (value : Value)
  /-- A value is refused as a function. -/
  | notFunction (value : Value)
  /-- The names of a let are compared. -/
  | names (bindings : List Binding)
  | definitions (bindings : List Binding)
  | frame (env : Env) (definitions : List (String × Expr))
  | patterns (env : Env) (bindings : List Binding) (values : List Value)
  /-- An expression or a declaration is refused. -/
  | unknown (obj : HostObject)
  /-- A deeper evaluation is refused. -/
  | limit
  | log (event : Event)

/-- What a machine has to provide beside sequences. -/
class Machine (m : Type → Type) where
  /-- What a step comes to. -/
  lift {α : Type} : Run α → m α
  /-- Makes room for a step before what comes next. -/
  after {α : Type} : Step → m α → m α
  /-- Calls a function of the evaluator. -/
  call {α : Type} : m α → m α
  /-- Adds a message after an evaluation error. -/
  reporting {α : Type} : (EvalError → Event) → m α → m α

/-- A step on a machine. -/
@[inline] def Machine.step {m : Type → Type} [Machine m] {α : Type} (s : Step) (x : Run α) : m α :=
  Machine.after s (Machine.lift x)

namespace Run

variable {α : Type}

/-- Steps and calls cost nothing. -/
@[always_inline] instance : Machine Run where
  lift x := x
  after _ x := x
  call x := x
  reporting := Run.reporting

@[simp] theorem step_eq (s : Step) (x : Run α) : (Machine.step s x : Run α) = x := rfl

@[simp] theorem after_eq (s : Step) (x : Run α) : Machine.after s x = x := rfl

@[simp] theorem call_eq (x : Run α) : Machine.call x = x := rfl

end Run

end MiniMl
