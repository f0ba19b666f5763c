import MiniMl.Term.Expr
/-!
# Malformed data

Some terms, values and frames cannot be built from every content. These are the reasons, and the
constructors that check them.
-/

namespace MiniMl

/-- Why a term, a value or a frame is refused. -/
inductive Malformed where
  | charLength
  | shortTuplePattern
  | shortTupleExpr
  | shortTupleValue
  | matchWithoutRules
  | functionWithoutRules
  | letWithoutBindings
  /-- A recursive frame is to define the name by something else than a function literal. -/
  | definitionNotFunction (name : String)
  /-- A recursive frame holds something else than a function literal. -/
  | notFunctionLiteral (e : Expr)

def Malformed.message : Malformed → String
  | .charLength => "character constant must hold exactly one character"
  | .shortTuplePattern => "tuple pattern needs at least two elements"
  | .shortTupleExpr => "tuple needs at least two elements"
  | .shortTupleValue => "tuple value needs at least two elements"
  | .matchWithoutRules => "match needs at least one rule"
  | .functionWithoutRules => "function needs at least one rule"
  | .letWithoutBindings => "let needs at least one binding"
  | .definitionNotFunction name =>
    "recursive definition of " ++ name ++ " is not a function literal"
  | .notFunctionLiteral e => "not a function literal: " ++ e.display

/-- The integers that the message shows. -/
def Malformed.integers : Malformed → List Int
  | .notFunctionLiteral e => e.integers
  | .charLength | .shortTuplePattern | .shortTupleExpr | .shortTupleValue | .matchWithoutRules
  | .functionWithoutRules | .letWithoutBindings | .definitionNotFunction _ => []

/-- A character constant from a text of one character. -/
def Constant.checkedChar (text : String) : Except Malformed Constant :=
  match text.toList with
  | [c] => .ok (.char c)
  | _ => .error .charLength

/-- A tuple pattern of two items or more. -/
def Pattern.checkedTuple (items : List Pattern) : Except Malformed Pattern :=
  if 2 ≤ items.length then .ok (.tuple items) else .error .shortTuplePattern

namespace Expr

/-- A tuple of two items or more. -/
def checkedTuple (items : List Expr) : Except Malformed Expr :=
  if 2 ≤ items.length then .ok (.tuple items) else .error .shortTupleExpr

/-- A match with a rule or more. -/
def checkedMatch (scrutinee : Expr) (rules : List Rule) : Except Malformed Expr :=
  if rules.isEmpty then .error .matchWithoutRules else .ok (.matchWith scrutinee rules)

/-- A function with a rule or more. -/
def checkedFunction (rules : List Rule) : Except Malformed Expr :=
  if rules.isEmpty then .error .functionWithoutRules else .ok (.function rules)

/-- A let with a binding or more. -/
def checkedLet (recursive : Bool) (bindings : List Binding) (body : Expr) : Except Malformed Expr :=
  if bindings.isEmpty then .error .letWithoutBindings else .ok (.letIn recursive bindings body)

end Expr

/-- A declaration with a binding or more. -/
def Decl.checkedLet (recursive : Bool) (bindings : List Binding) : Except Malformed Decl :=
  if bindings.isEmpty then .error .letWithoutBindings else .ok (.letDecl recursive bindings)

end MiniMl
