import MiniMl.Term.Expr
/-!
# Evaluation errors

An error names its cause. Its kind, its detail and its message are read off the cause.
-/

namespace MiniMl

/-- The kinds of evaluation errors. -/
inductive ErrorKind where
  | error
  | unboundIdentifier
  | typeMismatch
  | divisionByZero
  | unsupportedOperation
  | matchFailure
  | notImplemented
  deriving DecidableEq, Repr

def ErrorKind.label : ErrorKind → String
  | .error => "error"
  | .unboundIdentifier => "unbound_identifier"
  | .typeMismatch => "type_mismatch"
  | .divisionByZero => "division_by_zero"
  | .unsupportedOperation => "unsupported_operation"
  | .matchFailure => "match_failure"
  | .notImplemented => "not_implemented"

/-- Why an evaluation fails. Values are named by their kind only. -/
inductive EvalError where
  | unbound (name : String)
  | unsupportedConstant (c : Constant)
  | conditionNotBool (kind : String)
  | notApplicable (kind : String)
  | intDivisionByZero
  | floatDivisionByZero
  | undefinedOperator (symbol left right : String)
  | noRuleMatches (kind : String)
  | argumentMismatch (kind : String) (param : Pattern)
  | letMismatch (kind : String) (pattern : Pattern)
  | repeatedName (name : String)
  | recursivePattern (pattern : Pattern)
  | recursiveNotFunction (e : Expr)
  | unknownExpr (className : String)
  | unknownDecl (className : String)
  /-- An error that a host program makes up, with or without a detail of its own. -/
  | reported (kind : ErrorKind) (detail : Option String)

namespace EvalError

def kind : EvalError → ErrorKind
  | .unbound _ => .unboundIdentifier
  | .unsupportedConstant _ | .conditionNotBool _ | .notApplicable _ => .typeMismatch
  | .intDivisionByZero | .floatDivisionByZero => .divisionByZero
  | .undefinedOperator _ _ _ => .unsupportedOperation
  | .noRuleMatches _ | .argumentMismatch _ _ | .letMismatch _ _ => .matchFailure
  | .repeatedName _ | .recursivePattern _ | .recursiveNotFunction _ | .unknownExpr _
  | .unknownDecl _ => .notImplemented
  | .reported kind _ => kind

/-- What is known about an error beyond its kind. -/
def detail : EvalError → Option String
  | .unbound name => some ("Unbound identifier: " ++ name)
  | .unsupportedConstant c => some ("unsupported constant: " ++ c.display)
  | .conditionNotBool kind => some ("condition evaluated to " ++ kind ++ ", expected bool")
  | .notApplicable kind => some ("cannot apply non-function: " ++ kind)
  | .intDivisionByZero => some "integer division by zero"
  | .floatDivisionByZero => some "float division by zero"
  | .undefinedOperator symbol left right =>
    some (symbol ++ " is not defined for " ++ left ++ " and " ++ right)
  | .noRuleMatches kind => some ("no rule matches " ++ kind ++ " value")
  | .argumentMismatch kind param =>
    some (kind ++ " argument does not match parameter " ++ param.display)
  | .letMismatch kind pattern => some (kind ++ " does not match let pattern " ++ pattern.display)
  | .repeatedName name => some (name ++ " is bound several times in this let")
  | .recursivePattern pattern => some ("let rec cannot bind pattern " ++ pattern.display)
  | .recursiveNotFunction e => some ("let rec right-hand side must be a function: " ++ e.display)
  | .unknownExpr className => some ("unknown expression: " ++ className)
  | .unknownDecl className => some ("unknown declaration: " ++ className)
  | .reported _ detail => detail

/-- The detail, or the kind in words where the detail says nothing. -/
def message (e : EvalError) : String :=
  match e.detail with
  | none | some "" => e.kind.label.map fun c => if c = '_' then ' ' else c
  | some text => text

/-- The integers that the message shows. -/
def integers : EvalError → List Int
  | .unsupportedConstant c => c.integers
  | .argumentMismatch _ pattern | .letMismatch _ pattern | .recursivePattern pattern =>
    pattern.integers
  | .recursiveNotFunction e => e.integers
  | .unbound _ | .conditionNotBool _ | .notApplicable _ | .intDivisionByZero
  | .floatDivisionByZero | .undefinedOperator _ _ _ | .noRuleMatches _ | .repeatedName _
  | .unknownExpr _ | .unknownDecl _ | .reported _ _ => []

/-- The name that was not bound. -/
def name? : EvalError → Option String
  | .unbound name => some name
  | _ => none

end EvalError

end MiniMl
