import MiniMl.Eval.Program
/-!
# An evaluator with a counter

An evaluator can be kept and asked many times. It counts in a variable how deep it is: every
evaluation counts up when it begins and down when it ends, and fails if the count is above the
limit. Unlike the budget of `eval`, which each evaluation is given anew, the variable outlives
failures and requests.

This is another machine for the functions of `MiniMl.Eval.Basic` and `MiniMl.Eval.Program`, with the
variable in place of the budget. Nothing in its type says that the count comes back to where it was.
Where it would not, an evaluator could go on forever: `none` stands for that.
-/

namespace MiniMl

/-- What an evaluator changes while it works. -/
structure EvaluatorState where
  /-- How many evaluations are going on. -/
  depth : Int
  log : List Event

def EvaluatorState.enter (state : EvaluatorState) : EvaluatorState :=
  { state with depth := state.depth + 1 }

def EvaluatorState.leave (state : EvaluatorState) : EvaluatorState :=
  { state with depth := state.depth - 1 }

/-- A computation of an evaluator. A failure does not undo the changes before it. -/
abbrev Stateful := ExceptT Failure (StateT EvaluatorState Option)

namespace Stateful

variable {α : Type}

/-- A finished run as a computation that does not count. -/
def ofRun (x : Run α) : Stateful α := fun state =>
  some (x.outcome, { state with log := state.log ++ x.log })

/-- Logs an evaluation error that ends the computation. -/
def reporting (event : EvalError → Event) (x : Stateful α) : Stateful α :=
  tryCatch x fun failure => do
    match failure with
    | .error e => ofRun (Run.emit (event e))
    | .malformed _ | .tooDeep _ => pure ()
    throw failure

instance : Machine Stateful where
  lift := ofRun
  after _ x := x
  call x := x
  reporting := reporting

end Stateful

namespace Evaluator

/-! ### The evaluator -/

section Evaluation

variable (settings : Settings)

/-- Evaluates an expression one level further down. The count goes back however that ends. The
evaluations of the parts are to find a higher count than this one found: an evaluator that loses
count may never come to an end. -/
def descend (e : Expr) (env : Env) (state : EvaluatorState) :
    Option (Except Failure Value × EvaluatorState) :=
  if settings.maxDepth < state.enter.depth then
    some (.error (.tooDeep settings.maxDepth), state.enter.leave)
  else do
    let parts (part : Expr) (site : Env) : Stateful Value := fun now =>
      if state.depth < now.depth then descend part site now else none
    let (outcome, reached) ← evalWith settings parts e env state.enter
    some (outcome, reached.leave)
termination_by (settings.maxDepth - state.depth).toNat
decreasing_by
  rename_i hlimit hdeeper
  have hroom : ¬ settings.maxDepth < state.depth + 1 := hlimit
  omega

def evaluate (e : Expr) (env : Env) : Stateful Value :=
  descend settings e env

def dispatch : Env → Value → List Rule → Stateful Value :=
  dispatchWith settings (evaluate settings)

def applyValue : Value → Value → Env → Stateful Value :=
  applyWith settings (evaluate settings)

def bindLet : Env → Bool → List Binding → Stateful Env :=
  bindWith (evaluate settings)

def declare : Decl → Env → Stateful Env :=
  declareWith (evaluate settings)

def run : Expr → Env → Stateful Value :=
  runWith (evaluate settings)

def interpret : List Decl → Env → Stateful Env :=
  interpretWith (evaluate settings)

end Evaluation

/-! ### Sessions -/

/-- What an evaluator can be asked for. -/
inductive Request where
  | evaluate (e : Expr) (env : Env)
  | run (e : Expr) (env : Env)
  | interpret (program : List Decl) (env : Env)
  | declare (decl : Decl) (env : Env)
  | bindLet (env : Env) (recursive : Bool) (bindings : List Binding)
  | applyValue (func arg : Value) (env : Env)
  | dispatch (env : Env) (value : Value) (rules : List Rule)

/-- The computation that a request starts. -/
def Request.perform (settings : Settings) : Request → Stateful (Value ⊕ Env)
  | .evaluate e env => .inl <$> Evaluator.evaluate settings e env
  | .run e env => .inl <$> Evaluator.run settings e env
  | .interpret program env => .inr <$> Evaluator.interpret settings program env
  | .declare decl env => .inr <$> Evaluator.declare settings decl env
  | .bindLet env recursive bindings => .inr <$> Evaluator.bindLet settings env recursive bindings
  | .applyValue func arg env => .inl <$> Evaluator.applyValue settings func arg env
  | .dispatch env value rules => .inl <$> Evaluator.dispatch settings env value rules

/-- Runs and programs are answered through the effect of the evaluator, the rest is raised. -/
def Request.effect (effect : Effect) : Request → Effect
  | .run _ _ | .interpret _ _ => effect
  | _ => .raise

/-- The answer of an evaluator whose count is given, and the count it is left with. -/
def answer (settings : Settings) (effect : Effect) (request : Request) (depth : Int) :
    Option (Answer (Value ⊕ Env) × Int) := do
  let (outcome, state) ← request.perform settings ⟨depth, []⟩
  some ((request.effect effect).answer ⟨outcome, state.log⟩, state.depth)

/-- The answers of one evaluator to requests made one after the other, and the count it is left
with. -/
def session (settings : Settings) (effect : Effect) :
    List Request → Int → Option (List (Answer (Value ⊕ Env)) × Int)
  | [], depth => some ([], depth)
  | request :: rest, depth => do
    let (first, reached) ← answer settings effect request depth
    let (others, final) ← session settings effect rest reached
    some (first :: others, final)

end Evaluator

end MiniMl
