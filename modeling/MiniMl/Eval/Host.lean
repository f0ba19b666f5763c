import MiniMl.Eval.Program
/-!
# Hosts

The evaluator runs on a host, and a host has limits of its own: so many calls may be nested and no
more, and an integer with too many digits is not written out. Where there is no room for a call, or
no text for an integer in a message, the evaluation ends at once, as it does in a failure.

The calls of the evaluator's own functions are counted one by one. What a step takes on top of them
depends on the host (the matching of a pattern goes as deep as the pattern does), and so it is left
to the host to say. The room is counted from where the evaluator has asked for more of it.
-/

namespace MiniMl

/-- Where the evaluator runs. -/
structure Host where
  /-- How many calls may be nested, if there is a limit. -/
  recursionLimit : Option Nat
  /-- How many of them are used up when an evaluation starts. -/
  used : Nat
  /-- How many calls a step nests at its deepest. -/
  frames : Step → Nat
  /-- How many digits an integer may have that is written out, if there is a limit. -/
  digits : Option Nat
  /-- Whether the text of a message is written out. -/
  formats : Event → Bool

namespace Host

variable (host : Host)

/-- A host that limits nothing. -/
def unlimited : Host where
  recursionLimit := none
  used := 0
  frames _ := 0
  digits := none
  formats _ := true

/-- The room for calls, after the evaluator has asked for as much as its settings take. A limit is
raised and never lowered. -/
def room (settings : Settings) : Option Nat :=
  host.recursionLimit.map fun limit => max limit settings.stackNeeded.toNat - host.used

/-- The integer can be written out. -/
def writes (n : Int) : Bool :=
  match host.digits with
  | some digits => n.natAbs < Nat.pow 10 digits
  | none => true

/-- The integers that are written out in a run. -/
def shown {α : Type} (x : Run α) : List Int :=
  (x.log.filter host.formats).flatMap Event.integers
    ++ match x.outcome with
      | .ok _ => []
      | .error failure => failure.integers

/-- The first integer of a run that cannot be written out. -/
def unwritable? {α : Type} (x : Run α) : Option Int :=
  (host.shown x).find? fun n => !host.writes n

end Host

/-- How a computation on a host can fail. -/
inductive HostFailure where
  | failure (failure : Failure)
  /-- There is no room for a call, or for a step. -/
  | noRoom (step : Option Step)
  | unwritable (n : Int)

/-- The evaluator or the host refuses to go deeper. -/
def HostFailure.isRecursionError : HostFailure → Bool
  | .failure (.tooDeep _) | .noRoom _ => true
  | .failure (.error _) | .failure (.malformed _) | .unwritable _ => false

/-- A finished computation on a host. -/
structure HostRun (α : Type) where
  outcome : Except HostFailure α
  log : List Event

/-- A run without any limit of a host. -/
def Run.hosted {α : Type} (x : Run α) : HostRun α :=
  ⟨x.outcome.mapError .failure, x.log⟩

/-- A computation on a host, given the room for calls that is left. -/
def Hosted (_ : Host) (α : Type) : Type :=
  Option Nat → HostRun α

namespace Hosted

variable {host : Host} {α β : Type}

@[inline] protected def pure (a : α) : Hosted host α := fun _ =>
  ⟨.ok a, []⟩

@[inline] protected def bind (x : Hosted host α) (next : α → Hosted host β) : Hosted host β :=
  fun room =>
    let first := x room
    match first.outcome with
    | .ok a =>
      let second := next a room
      ⟨second.outcome, first.log ++ second.log⟩
    | .error failure => ⟨.error failure, first.log⟩

instance : Monad (Hosted host) where
  pure := Hosted.pure
  bind := Hosted.bind

/-- What a step comes to, if there is a text for its message. -/
def lift (x : Run α) : Hosted host α := fun _ =>
  match host.unwritable? x with
  | some n => ⟨.error (.unwritable n), []⟩
  | none => x.hosted

/-- Goes on if there is room for a step. -/
def after (s : Step) (x : Hosted host α) : Hosted host α := fun room =>
  if room.all (host.frames s ≤ ·) then x room else ⟨.error (.noRoom (some s)), []⟩

/-- Goes on one call further down. -/
def call (x : Hosted host α) : Hosted host α
  | none => x none
  | some 0 => ⟨.error (.noRoom none), []⟩
  | some (room + 1) => x (some room)

/-- Goes on with an evaluation error, or in its place. -/
def onError (x : Hosted host α) (handle : EvalError → Hosted host α) : Hosted host α := fun room =>
  let first := x room
  match first.outcome with
  | .error (.failure (.error e)) =>
    let second := handle e room
    ⟨second.outcome, first.log ++ second.log⟩
  | _ => first

/-- Logs an evaluation error and fails with it. -/
def reporting (event : EvalError → Event) (x : Hosted host α) : Hosted host α :=
  x.onError fun e => do
    after (.log (event e)) (lift (Run.emit (event e)))
    fun _ => ⟨.error (.failure (.error e)), []⟩

instance : Machine (Hosted host) where
  lift := lift
  after := after
  call := call
  reporting := reporting

end Hosted

namespace Host

open Machine (call step)

variable (host : Host) (settings : Settings)

/-- Evaluates an expression within a budget: one call counts the levels and one is for the level
itself. -/
def descend : Nat → Expr → Env → Hosted host Value
  | 0, _, _ => call (step .limit (Run.fail (.tooDeep settings.maxDepth)))
  | budget + 1, e, env =>
    call (call (evalWith settings (fun part site => call (descend budget part site)) e env))

/-- Evaluates an expression as deep as the settings and the room for calls allow. -/
def evaluate (e : Expr) (env : Env) : HostRun Value :=
  host.descend settings settings.budget e env (host.room settings)

/-- An evaluation that another function calls. -/
def evaluation (e : Expr) (env : Env) : Hosted host Value :=
  call (host.descend settings settings.budget e env)

def run (e : Expr) (env : Env) : HostRun Value :=
  (runWith (host.evaluation settings) e env : Hosted host Value) (host.room settings)

def interpret (program : List Decl) (env : Env) : HostRun Env :=
  (interpretWith (host.evaluation settings) program env : Hosted host Env) (host.room settings)

end Host

end MiniMl
