import MiniMl.Eval.Machine
import MiniMl.Matching
import MiniMl.Operator
import MiniMl.Settings.Basic
import MiniMl.Value.Env
/-!
# Evaluation

Expressions are evaluated by value and from left to right. One level of evaluation is written for
any machine and any evaluation of the parts, and `eval` ties the levels together: every nested
evaluation costs one unit of a budget, and an evaluation without budget fails.

`eval` leaves out what the machine may run short of: the room for calls, which the evaluator raises
to a ceiling before it starts and which a deep pattern needs too, and the digits of an integer that
a message shows. `MiniMl.Eval.Host` has both.
-/

namespace MiniMl

/-- An evaluation of expressions in environments. -/
abbrev Evaluation := Expr → Env → Run Value

/-- The value of a constant. Measures have none. -/
def Constant.value : Constant → Except EvalError Value
  | .int n => .ok (.int n)
  | .float x => .ok (.float x)
  | .bool b => .ok (.bool b)
  | .char c => .ok (.char c.toString)
  | .string s => .ok (.string s)
  | c => .error (.unsupportedConstant c)

/-- The operator and the left operand of a function part that is a built-in operator with one
operand. -/
def Expr.appliedOperator? : Expr → Option (String × Expr)
  | .apply (.ident symbol) left => if Operator.isSymbol symbol then some (symbol, left) else none
  | _ => none

section Trace

variable {m : Type → Type} [Monad m] [Machine m]

/-- Logs a message if tracing is on. -/
@[inline] def Settings.traceEvent (settings : Settings) (event : Event) : m Unit :=
  if settings.trace then Machine.step (.log event) (Run.emit event) else pure ()

end Trace

/-! ### Names of a let -/

/-- The first name that stands in the list a second time, or that was seen before it. -/
def firstRepeated (seen : List String) : List String → Option String
  | [] => none
  | name :: rest => if name ∈ seen then some name else firstRepeated (name :: seen) rest

/-- The name that a recursive let can bind: an identifier, possibly annotated. -/
def Pattern.recursiveName : Pattern → Except EvalError String
  | .ident name => .ok name
  | .typed inner _ => inner.recursiveName
  | p => .error (.recursivePattern p)

/-- The definition that a binding of a recursive let stands for. -/
def Clause.definition (binding : Binding) : Except EvalError (String × Expr) := do
  let name ← binding.pattern.recursiveName
  if binding.body.isFunctionLiteral then
    .ok (name, binding.body)
  else
    .error (.recursiveNotFunction binding.body)

/-- The definitions of a recursive let, up to the first binding that is none. -/
def definitionsOf : List Binding → Except EvalError (List (String × Expr))
  | [] => .ok []
  | binding :: rest => do
    let definition ← binding.definition
    let definitions ← definitionsOf rest
    .ok (definition :: definitions)

/-- Matches the patterns of a let against its values, one after the other. -/
def matchBindings (env : Env) : List Binding → List Value → Except EvalError Env
  | binding :: bindings, value :: values =>
    match binding.pattern.match? env value with
    | some matched => matchBindings matched bindings values
    | none => .error (.letMismatch value.kind binding.pattern)
  | _, _ => .ok env

/-! ### One level of evaluation -/

section Level

open Machine (after call step)

variable {m : Type → Type} [Monad m] [Machine m] (settings : Settings)
  (evaluation : Expr → Env → m Value)

/-- The values of several expressions, from left to right. -/
@[specialize] def evalAll (env : Env) : List Expr → m (List Value)
  | [] => pure []
  | e :: es => do
    let value ← evaluation e env
    let values ← evalAll env es
    pure (value :: values)

/-- Evaluates the body of the first rule that matches the value. -/
@[inline] def dispatchWith (env : Env) (value : Value) (rules : List Rule) : m Value := do
  let (rule, matched) ← step (.select env value rules) (Run.ofEval (selectRule env value rules))
  settings.traceEvent (.matched value.kind rule.pattern)
  evaluation rule.body matched

/-- Applies a function to an argument. The environment is the one of the application, which only
matters to a function that has none of its own. -/
@[inline] def applyWith (func arg : Value) (env : Env) : m Value :=
  match func with
  | .function rules captured => call (dispatchWith settings evaluation captured arg rules)
  | .openFunction rules => call (dispatchWith settings evaluation env arg rules)
  | .closure param body captured _ =>
    match param.match? captured arg with
    | some matched => after (.argument captured param arg) do
      settings.traceEvent (.applied param arg.kind)
      evaluation body matched
    | none =>
      step (.argument captured param arg) (Run.fail (.error (.argumentMismatch arg.kind param)))
  | other => step (.notFunction other) (Run.fail (.error (.notApplicable other.kind)))

/-- Extends an environment by the bindings of a let. A name may be bound once. The right-hand sides
of a let that is not recursive are evaluated outside of it; those of a recursive let are kept as
they are. -/
@[inline] def bindWith (env : Env) (recursive : Bool) (bindings : List Binding) : m Env :=
  match firstRepeated [] (Pattern.boundNamesAll (bindings.map Clause.pattern)) with
  | some name => step (.names bindings) (Run.fail (.error (.repeatedName name)))
  | none => after (.names bindings) <|
    if recursive then do
      let definitions ← step (.definitions bindings) (Run.ofEval (definitionsOf bindings))
      step (.frame env definitions) (Run.ofChecked (env.extendRecursive definitions))
    else do
      let values ← call (evalAll evaluation env (bindings.map Clause.body))
      step (.patterns env bindings values) (Run.ofEval (matchBindings env bindings values))

/-- A value made of what is at hand. -/
@[inline] def makeValue (value : Value) : m Value :=
  after (.make value) (pure value)

/-- Evaluates an expression, given an evaluation of its parts. -/
@[inline] def evalWith (e : Expr) (env : Env) : m Value :=
  match e with
  | .const c => step (.constant c) (Run.ofEval c.value)
  | .ident name => step (.find env name) (Run.ofOutcome (env.find name))
  | .typed inner _ => evaluation inner env
  | .list items => do
    let values ← call (evalAll evaluation env items)
    makeValue (.list values)
  | .tuple items => do
    let values ← call (evalAll evaluation env items)
    step (.tuple values) (Run.ofChecked (Value.checkedTuple values))
  | .lambda param body => makeValue (.closure param body env false)
  | .ifThen cond yes => do
    match ← evaluation cond env with
    | .bool true => evaluation yes env
    | .bool false => makeValue .unit
    | other => step (.condition other) (Run.fail (.error (.conditionNotBool other.kind)))
  | .ifThenElse cond yes no => do
    match ← evaluation cond env with
    | .bool true => evaluation yes env
    | .bool false => evaluation no env
    | other => step (.condition other) (Run.fail (.error (.conditionNotBool other.kind)))
  | .optNone => makeValue .optNone
  | .optSome inner => do
    let value ← evaluation inner env
    makeValue (.optSome value)
  | .matchWith scrutinee rules => do
    let value ← evaluation scrutinee env
    call (dispatchWith settings evaluation env value rules)
  | .function rules =>
    makeValue (if settings.captureFunctionEnv then .function rules env else .openFunction rules)
  | .apply func arg =>
    match func.appliedOperator? with
    | some (symbol, left) => do
      let leftValue ← evaluation left env
      let rightValue ← evaluation arg env
      step (.operator symbol leftValue rightValue)
        (Run.ofEval (applyOperator symbol leftValue rightValue))
    | none => do
      let funcValue ← evaluation func env
      let argValue ← evaluation arg env
      call (applyWith settings evaluation funcValue argValue env)
  | .letIn recursive bindings body => do
    let extended ← call (bindWith evaluation env recursive bindings)
    evaluation body extended
  | .host obj => step (.unknown obj) (Run.fail (.error (.unknownExpr obj.className)))

end Level

/-! ### The evaluator -/

/-- Evaluation within a budget of nested evaluations. -/
def eval (settings : Settings) : Nat → Expr → Env → Run Value
  | 0, _, _ => Run.fail (.tooDeep settings.maxDepth)
  | budget + 1, e, env => evalWith settings (eval settings budget) e env

theorem eval_zero (settings : Settings) (e : Expr) (env : Env) :
    eval settings 0 e env = Run.fail (.tooDeep settings.maxDepth) := rfl

theorem eval_succ (settings : Settings) (budget : Nat) (e : Expr) (env : Env) :
    eval settings (budget + 1) e env = evalWith settings (eval settings budget) e env := rfl

/-- Evaluates an expression as deep as the settings allow. -/
def evaluate (settings : Settings) : Evaluation :=
  eval settings settings.budget

/-- Selects a rule for a value and evaluates its body. -/
def dispatch (settings : Settings) : Env → Value → List Rule → Run Value :=
  dispatchWith settings (evaluate settings)

/-- Applies a function value to an argument. -/
def applyValue (settings : Settings) : Value → Value → Env → Run Value :=
  applyWith settings (evaluate settings)

/-- Extends an environment by the bindings of a let. -/
def bindLet (settings : Settings) : Env → Bool → List Binding → Run Env :=
  bindWith (evaluate settings)

end MiniMl
