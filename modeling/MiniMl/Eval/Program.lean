import MiniMl.Eval.Basic
/-!
# Programs

A program is a list of declarations. Each of them extends the environment for the ones after it.
-/

namespace MiniMl

section Program

open Machine (call reporting step)

variable {m : Type → Type} [Monad m] [Machine m] (evaluation : Expr → Env → m Value)

/-- Evaluates a declaration. An expression is evaluated and its value dropped. -/
@[inline] def declareWith (decl : Decl) (env : Env) : m Env :=
  match decl with
  | .letDecl recursive bindings => call (bindWith evaluation env recursive bindings)
  | .expr e => do
    let _ ← evaluation e env
    pure env
  | .host obj => step (.unknown obj) (Run.fail (.error (.unknownDecl obj.className)))

/-- Evaluates declarations in order. -/
@[specialize] def declareAllWith : List Decl → Env → m Env
  | [], env => pure env
  | decl :: rest, env => do
    let extended ← call (declareWith evaluation decl env)
    declareAllWith rest extended

/-- Evaluates an expression and logs an evaluation error. -/
@[inline] def runWith (e : Expr) (env : Env) : m Value :=
  reporting .runFailed (evaluation e env)

/-- Evaluates a program and logs how it starts and how it ends. -/
@[inline] def interpretWith (program : List Decl) (env : Env) : m Env := do
  let started := Event.programStarted program.length
  step (.log started) (Run.emit started)
  let final ← reporting .programFailed (declareAllWith evaluation program env)
  let done := Event.programDone final.names.length
  step (.log done) (Run.emit done)
  pure final

end Program

def declare (settings : Settings) : Decl → Env → Run Env :=
  declareWith (evaluate settings)

def declareAll (settings : Settings) : List Decl → Env → Run Env :=
  declareAllWith (evaluate settings)

def run (settings : Settings) : Expr → Env → Run Value :=
  runWith (evaluate settings)

def interpret (settings : Settings) : List Decl → Env → Run Env :=
  interpretWith (evaluate settings)

theorem declareAll_nil (settings : Settings) (env : Env) :
    declareAll settings [] env = pure env := rfl

theorem declareAll_cons (settings : Settings) (decl : Decl) (rest : List Decl) (env : Env) :
    declareAll settings (decl :: rest) env
      = declare settings decl env >>= declareAll settings rest := rfl

theorem run_eq (settings : Settings) (e : Expr) (env : Env) :
    run settings e env = (evaluate settings e env).reporting .runFailed := rfl

theorem interpret_eq_bind (settings : Settings) (program : List Decl) (env : Env) :
    interpret settings program env
      = Run.emit (.programStarted program.length) >>= fun _ =>
        (declareAll settings program env).reporting .programFailed >>= fun final =>
          Run.emit (.programDone final.names.length) >>= fun _ => pure final := rfl

/-- How an outcome is handed to the caller. -/
inductive Effect where
  /-- Results as they are, evaluation errors as failures. -/
  | raise
  /-- Results and evaluation errors wrapped up. -/
  | result
  deriving DecidableEq, Repr

/-- What the caller gets. -/
inductive Reply (α : Type) where
  | plain (a : α)
  | ok (a : α)
  | err (e : EvalError)
  | failed (failure : Failure)

/-- The reply to an outcome. A failure that is no evaluation error is never wrapped up. -/
def Effect.reply {α : Type} : Effect → Except Failure α → Reply α
  | .raise, .ok a => .plain a
  | .result, .ok a => .ok a
  | .result, .error (.error e) => .err e
  | _, .error failure => .failed failure

/-- What the caller sees of a run: the reply to its outcome, and the messages. -/
structure Answer (α : Type) where
  reply : Reply α
  log : List Event

def Effect.answer {α : Type} (effect : Effect) (x : Run α) : Answer α :=
  ⟨effect.reply x.outcome, x.log⟩

/-- The text of a reply, given the text of a result. -/
def Reply.display {α : Type} (text : α → String) : Reply α → String
  | .plain a => text a
  | .ok a => "Ok " ++ text a
  | .err e => "Error " ++ e.message
  | .failed failure => failure.message

end MiniMl
