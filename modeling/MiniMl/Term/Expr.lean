import MiniMl.Term.Pattern
/-!
# Expressions and declarations
-/

namespace MiniMl

/-- A pattern with an expression: a rule `p -> e` of a match or a binding `p = e` of a let. -/
structure Clause (ε : Type) where
  pattern : Pattern
  body : ε

inductive Expr where
  | const (c : Constant)
  | ident (name : String)
  | typed (inner : Expr) (ty : Ty)
  | list (items : List Expr)
  | tuple (items : List Expr)
  | lambda (param : Pattern) (body : Expr)
  | ifThen (cond yes : Expr)
  | ifThenElse (cond yes no : Expr)
  | optNone
  | optSome (inner : Expr)
  | matchWith (scrutinee : Expr) (rules : List (Clause Expr))
  | function (rules : List (Clause Expr))
  | apply (func arg : Expr)
  | letIn (recursive : Bool) (bindings : List (Clause Expr)) (body : Expr)
  | host (obj : HostObject)

/-- A rule of a match. -/
abbrev Rule := Clause Expr

/-- A binding of a let. -/
abbrev Binding := Clause Expr

/-- A declaration at the top level of a program. -/
inductive Decl where
  | letDecl (recursive : Bool) (bindings : List Binding)
  | expr (e : Expr)
  | host (obj : HostObject)

namespace Expr

/-- The words that open a let. -/
def letWord (recursive : Bool) : String :=
  if recursive then "let rec " else "let "

mutual

def display : Expr → String
  | .const c => c.display
  | .ident name => name
  | .typed inner ty => "(" ++ inner.display ++ " : " ++ ty.display ++ ")"
  | .list items => "[" ++ "; ".intercalate (displayAll items) ++ "]"
  | .tuple items => "(" ++ ", ".intercalate (displayAll items) ++ ")"
  | .lambda param body => "(fun " ++ param.display ++ " -> " ++ body.display ++ ")"
  | .ifThen cond yes => "if " ++ cond.display ++ " then " ++ yes.display
  | .ifThenElse cond yes no =>
    "if " ++ cond.display ++ " then " ++ yes.display ++ " else " ++ no.display
  | .optNone => "None"
  | .optSome inner => "Some " ++ inner.display
  | .matchWith scrutinee rules =>
    "(match " ++ scrutinee.display ++ " with " ++ " | ".intercalate (displayAllWith " -> " rules)
      ++ ")"
  | .function rules => "(function " ++ " | ".intercalate (displayAllWith " -> " rules) ++ ")"
  | .apply func arg => "(" ++ func.display ++ " " ++ arg.display ++ ")"
  | .letIn recursive bindings body =>
    letWord recursive ++ " and ".intercalate (displayAllWith " = " bindings) ++ " in "
      ++ body.display
  | .host obj => obj.display

def displayAll : List Expr → List String
  | [] => []
  | e :: es => e.display :: displayAll es

/-- The texts of several clauses with a sign between pattern and expression. -/
def displayAllWith (sign : String) : List (Clause Expr) → List String
  | [] => []
  | ⟨pattern, body⟩ :: rest => (pattern.display ++ sign ++ body.display) :: displayAllWith sign rest

end

mutual

/-- The integers that the text shows. -/
def integers : Expr → List Int
  | .const c => c.integers
  | .typed inner _ => inner.integers
  | .list items => integersAll items
  | .tuple items => integersAll items
  | .lambda param body => param.integers ++ body.integers
  | .ifThen cond yes => cond.integers ++ yes.integers
  | .ifThenElse cond yes no => cond.integers ++ yes.integers ++ no.integers
  | .optSome inner => inner.integers
  | .matchWith scrutinee rules => scrutinee.integers ++ clauseIntegers rules
  | .function rules => clauseIntegers rules
  | .apply func arg => func.integers ++ arg.integers
  | .letIn _ bindings body => clauseIntegers bindings ++ body.integers
  | .ident _ | .optNone | .host _ => []

def integersAll : List Expr → List Int
  | [] => []
  | e :: es => e.integers ++ integersAll es

def clauseIntegers : List (Clause Expr) → List Int
  | [] => []
  | ⟨pattern, body⟩ :: rest => pattern.integers ++ body.integers ++ clauseIntegers rest

end

/-- The expression under its outer annotations. -/
def stripped : Expr → Expr
  | .typed inner _ => inner.stripped
  | e => e

/-- A lambda or a function by rules, possibly annotated. -/
def isFunctionLiteral (e : Expr) : Bool :=
  match e.stripped with
  | .lambda _ _ | .function _ => true
  | _ => false

end Expr

namespace Clause

def displayRule (rule : Rule) : String :=
  rule.pattern.display ++ " -> " ++ rule.body.display

def displayBinding (binding : Binding) : String :=
  binding.pattern.display ++ " = " ++ binding.body.display

end Clause

def Decl.display : Decl → String
  | .letDecl recursive bindings =>
    Expr.letWord recursive ++ " and ".intercalate (bindings.map Clause.displayBinding)
  | .expr e => e.display
  | .host obj => obj.display

end MiniMl
