import MiniMl.Proofs.Level
/-!
# The meaning of expressions, by rules

An evaluation that ends has an outcome, a value or an evaluation error, and `Evaluates` says by
rules which outcomes an expression has in an environment. No budget and no log occur in the rules.
Looking up a name, matching one pattern and applying an operator to two values are operations on
finished data and are taken as they are; everything that orders evaluations is said here: parts from
left to right with the first failure ending the whole, the first rule that matches, an operator with
both operands before any other application, the scopes of a let.

Evaluations that go on for ever, and those that would build malformed data, have no outcome.
-/

namespace MiniMl

/-- A function, in one of its three forms. -/
def Value.IsFunction : Value → Prop
  | .closure _ _ _ _ | .function _ _ | .openFunction _ => True
  | _ => False

/-- The patterns of a let are matched one after the other, each in the environment that the ones
before it left. -/
inductive LetMatches : Env → List Binding → List Value → Except EvalError Env → Prop
  | done {env : Env} : LetMatches env [] [] (.ok env)
  | next {env matched : Env} {binding : Binding} {bindings : List Binding} {value : Value}
      {values : List Value} {o : Except EvalError Env}
      (hmatch : binding.pattern.match? env value = some matched)
      (hrest : LetMatches matched bindings values o) :
      LetMatches env (binding :: bindings) (value :: values) o
  | mismatch {env : Env} {binding : Binding} {bindings : List Binding} {value : Value}
      {values : List Value} (hmatch : binding.pattern.match? env value = none) :
      LetMatches env (binding :: bindings) (value :: values)
        (.error (.letMismatch value.kind binding.pattern))

section Rules

variable (capture : Bool)

mutual

/-- The outcomes of an expression in an environment. Functions by rules keep their environment if
`capture` is on. -/
inductive Evaluates : Env → Expr → Except EvalError Value → Prop
  | const (env : Env) (c : Constant) : Evaluates env (.const c) c.value
  | ident {env : Env} {name : String} {value : Value} (hfind : env.find name = .ok value) :
      Evaluates env (.ident name) (.ok value)
  | unbound {env : Env} {name : String} (hname : name ∉ env.names) :
      Evaluates env (.ident name) (.error (.unbound name))
  | typed {env : Env} {inner : Expr} {ty : Ty} {o : Except EvalError Value}
      (hinner : Evaluates env inner o) : Evaluates env (.typed inner ty) o
  | list {env : Env} {items : List Expr} {values : List Value}
      (hitems : EvaluatesAll env items (.ok values)) :
      Evaluates env (.list items) (.ok (.list values))
  | listError {env : Env} {items : List Expr} {e : EvalError}
      (hitems : EvaluatesAll env items (.error e)) : Evaluates env (.list items) (.error e)
  | tuple {env : Env} {items : List Expr} {values : List Value} (hsize : 2 ≤ items.length)
      (hitems : EvaluatesAll env items (.ok values)) :
      Evaluates env (.tuple items) (.ok (.tuple values))
  | tupleError {env : Env} {items : List Expr} {e : EvalError}
      (hitems : EvaluatesAll env items (.error e)) : Evaluates env (.tuple items) (.error e)
  | lambda (env : Env) (param : Pattern) (body : Expr) :
      Evaluates env (.lambda param body) (.ok (.closure param body env false))
  | ifThenTrue {env : Env} {cond yes : Expr} {o : Except EvalError Value}
      (hcond : Evaluates env cond (.ok (.bool true))) (hyes : Evaluates env yes o) :
      Evaluates env (.ifThen cond yes) o
  | ifThenFalse {env : Env} {cond yes : Expr}
      (hcond : Evaluates env cond (.ok (.bool false))) :
      Evaluates env (.ifThen cond yes) (.ok .unit)
  | ifThenNotBool {env : Env} {cond yes : Expr} {value : Value}
      (hcond : Evaluates env cond (.ok value)) (hvalue : ∀ b, value ≠ .bool b) :
      Evaluates env (.ifThen cond yes) (.error (.conditionNotBool value.kind))
  | ifThenError {env : Env} {cond yes : Expr} {e : EvalError}
      (hcond : Evaluates env cond (.error e)) : Evaluates env (.ifThen cond yes) (.error e)
  | ifThenElseTrue {env : Env} {cond yes no : Expr} {o : Except EvalError Value}
      (hcond : Evaluates env cond (.ok (.bool true))) (hyes : Evaluates env yes o) :
      Evaluates env (.ifThenElse cond yes no) o
  | ifThenElseFalse {env : Env} {cond yes no : Expr} {o : Except EvalError Value}
      (hcond : Evaluates env cond (.ok (.bool false))) (hno : Evaluates env no o) :
      Evaluates env (.ifThenElse cond yes no) o
  | ifThenElseNotBool {env : Env} {cond yes no : Expr} {value : Value}
      (hcond : Evaluates env cond (.ok value)) (hvalue : ∀ b, value ≠ .bool b) :
      Evaluates env (.ifThenElse cond yes no) (.error (.conditionNotBool value.kind))
  | ifThenElseError {env : Env} {cond yes no : Expr} {e : EvalError}
      (hcond : Evaluates env cond (.error e)) : Evaluates env (.ifThenElse cond yes no) (.error e)
  | optNone (env : Env) : Evaluates env .optNone (.ok .optNone)
  | optSome {env : Env} {inner : Expr} {value : Value} (hinner : Evaluates env inner (.ok value)) :
      Evaluates env (.optSome inner) (.ok (.optSome value))
  | optSomeError {env : Env} {inner : Expr} {e : EvalError}
      (hinner : Evaluates env inner (.error e)) : Evaluates env (.optSome inner) (.error e)
  | matchWith {env : Env} {scrutinee : Expr} {rules : List Rule} {value : Value}
      {o : Except EvalError Value} (hscrutinee : Evaluates env scrutinee (.ok value))
      (hrules : Dispatches env value rules o) : Evaluates env (.matchWith scrutinee rules) o
  | matchError {env : Env} {scrutinee : Expr} {rules : List Rule} {e : EvalError}
      (hscrutinee : Evaluates env scrutinee (.error e)) :
      Evaluates env (.matchWith scrutinee rules) (.error e)
  | function (env : Env) (rules : List Rule) (hcapture : capture = true) :
      Evaluates env (.function rules) (.ok (.function rules env))
  | openFunction (env : Env) (rules : List Rule) (hcapture : capture = false) :
      Evaluates env (.function rules) (.ok (.openFunction rules))
  | operator {env : Env} {symbol : String} {left right : Expr} {leftValue rightValue : Value}
      (hsymbol : Operator.isSymbol symbol = true) (hleft : Evaluates env left (.ok leftValue))
      (hright : Evaluates env right (.ok rightValue)) :
      Evaluates env (.apply (.apply (.ident symbol) left) right)
        (applyOperator symbol leftValue rightValue)
  | operatorLeftError {env : Env} {symbol : String} {left right : Expr} {e : EvalError}
      (hsymbol : Operator.isSymbol symbol = true) (hleft : Evaluates env left (.error e)) :
      Evaluates env (.apply (.apply (.ident symbol) left) right) (.error e)
  | operatorRightError {env : Env} {symbol : String} {left right : Expr} {leftValue : Value}
      {e : EvalError} (hsymbol : Operator.isSymbol symbol = true)
      (hleft : Evaluates env left (.ok leftValue)) (hright : Evaluates env right (.error e)) :
      Evaluates env (.apply (.apply (.ident symbol) left) right) (.error e)
  | apply {env : Env} {func arg : Expr} {funcValue argValue : Value} {o : Except EvalError Value}
      (hgeneric : ∀ symbol left, func = .apply (.ident symbol) left →
        Operator.isSymbol symbol = false)
      (hfunc : Evaluates env func (.ok funcValue)) (harg : Evaluates env arg (.ok argValue))
      (happly : Applies funcValue argValue env o) : Evaluates env (.apply func arg) o
  | applyFuncError {env : Env} {func arg : Expr} {e : EvalError}
      (hgeneric : ∀ symbol left, func = .apply (.ident symbol) left →
        Operator.isSymbol symbol = false)
      (hfunc : Evaluates env func (.error e)) : Evaluates env (.apply func arg) (.error e)
  | applyArgError {env : Env} {func arg : Expr} {funcValue : Value} {e : EvalError}
      (hgeneric : ∀ symbol left, func = .apply (.ident symbol) left →
        Operator.isSymbol symbol = false)
      (hfunc : Evaluates env func (.ok funcValue)) (harg : Evaluates env arg (.error e)) :
      Evaluates env (.apply func arg) (.error e)
  | letIn {env extended : Env} {recursive : Bool} {bindings : List Binding} {body : Expr}
      {o : Except EvalError Value} (hbind : Binds env recursive bindings (.ok extended))
      (hbody : Evaluates extended body o) : Evaluates env (.letIn recursive bindings body) o
  | letError {env : Env} {recursive : Bool} {bindings : List Binding} {body : Expr} {e : EvalError}
      (hbind : Binds env recursive bindings (.error e)) :
      Evaluates env (.letIn recursive bindings body) (.error e)
  | host (env : Env) (obj : HostObject) :
      Evaluates env (.host obj) (.error (.unknownExpr obj.className))

/-- The outcomes of several expressions from left to right: all their values or the first error. -/
inductive EvaluatesAll : Env → List Expr → Except EvalError (List Value) → Prop
  | nil (env : Env) : EvaluatesAll env [] (.ok [])
  | cons {env : Env} {e : Expr} {es : List Expr} {value : Value} {values : List Value}
      (hfirst : Evaluates env e (.ok value)) (hrest : EvaluatesAll env es (.ok values)) :
      EvaluatesAll env (e :: es) (.ok (value :: values))
  | firstError {env : Env} {e : Expr} {es : List Expr} {err : EvalError}
      (hfirst : Evaluates env e (.error err)) : EvaluatesAll env (e :: es) (.error err)
  | restError {env : Env} {e : Expr} {es : List Expr} {value : Value} {err : EvalError}
      (hfirst : Evaluates env e (.ok value)) (hrest : EvaluatesAll env es (.error err)) :
      EvaluatesAll env (e :: es) (.error err)

/-- The outcomes of rules on a value: those of the first rule that matches. -/
inductive Dispatches : Env → Value → List Rule → Except EvalError Value → Prop
  | selected {env matched : Env} {value : Value} {rules : List Rule} {rule : Rule}
      {o : Except EvalError Value} (hfirst : FirstMatch env value rules rule matched)
      (hbody : Evaluates matched rule.body o) : Dispatches env value rules o
  | exhausted {env : Env} {value : Value} {rules : List Rule}
      (hnone : ∀ rule ∈ rules, rule.pattern.match? env value = none) :
      Dispatches env value rules (.error (.noRuleMatches value.kind))

/-- The outcomes of a value applied to another. The environment is the one of the application, which
a function looks at only if it has none of its own. -/
inductive Applies : Value → Value → Env → Except EvalError Value → Prop
  | function {rules : List Rule} {captured env : Env} {arg : Value} {o : Except EvalError Value}
      (hrules : Dispatches captured arg rules o) : Applies (.function rules captured) arg env o
  | openFunction {rules : List Rule} {env : Env} {arg : Value} {o : Except EvalError Value}
      (hrules : Dispatches env arg rules o) : Applies (.openFunction rules) arg env o
  | closure {param : Pattern} {body : Expr} {captured matched env : Env} {recursive : Bool}
      {arg : Value} {o : Except EvalError Value} (hparam : param.match? captured arg = some matched)
      (hbody : Evaluates matched body o) :
      Applies (.closure param body captured recursive) arg env o
  | closureMismatch {param : Pattern} {body : Expr} {captured env : Env} {recursive : Bool}
      {arg : Value} (hparam : param.match? captured arg = none) :
      Applies (.closure param body captured recursive) arg env
        (.error (.argumentMismatch arg.kind param))
  | notFunction {func arg : Value} {env : Env} (hfunc : ¬ func.IsFunction) :
      Applies func arg env (.error (.notApplicable func.kind))

/-- The environments that the bindings of a let lead to. -/
inductive Binds : Env → Bool → List Binding → Except EvalError Env → Prop
  | repeated {env : Env} {recursive : Bool} {bindings : List Binding} {before after : List String}
      {name : String} (hnames : letNames bindings = before ++ name :: after)
      (hbefore : before.Nodup) (hname : name ∈ before) :
      Binds env recursive bindings (.error (.repeatedName name))
  | recursive {env : Env} {bindings : List Binding} {definitions : List (String × Expr)}
      (hdistinct : (letNames bindings).Nodup)
      (hdefinitions : bindings.map Clause.definition = definitions.map .ok) :
      Binds env true bindings (.ok (.recursive env definitions))
  | recursiveError {env : Env} {bindings before after : List Binding} {binding : Binding}
      {e : EvalError} (hdistinct : (letNames bindings).Nodup)
      (hbindings : bindings = before ++ binding :: after)
      (hbefore : ∀ earlier ∈ before, ∃ definition, earlier.definition = .ok definition)
      (hbinding : binding.definition = .error e) : Binds env true bindings (.error e)
  | matched {env : Env} {bindings : List Binding} {values : List Value} {o : Except EvalError Env}
      (hdistinct : (letNames bindings).Nodup)
      (hvalues : EvaluatesAll env (bindings.map Clause.body) (.ok values))
      (hmatch : LetMatches env bindings values o) : Binds env false bindings o
  | valuesError {env : Env} {bindings : List Binding} {e : EvalError}
      (hdistinct : (letNames bindings).Nodup)
      (hvalues : EvaluatesAll env (bindings.map Clause.body) (.error e)) :
      Binds env false bindings (.error e)

end

end Rules

end MiniMl
