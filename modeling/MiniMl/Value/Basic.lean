import MiniMl.Malformed
/-!
# Values and environments

A closure carries the environment in which it was made, and an environment is a chain of frames that
hold values: the two types are defined together.
-/

namespace MiniMl

mutual

inductive Value where
  | int (n : Int)
  | float (x : Float)
  | bool (b : Bool)
  /-- A character, which a host program may have made of any text. -/
  | char (text : String)
  | string (s : String)
  | unit
  | list (items : List Value)
  | tuple (items : List Value)
  | optNone
  | optSome (inner : Value)
  /-- A lambda with the environment in which it was made. -/
  | closure (param : Pattern) (body : Expr) (env : Env) (recursive : Bool)
  /-- A function by rules with the environment in which it was made. -/
  | function (rules : List Rule) (env : Env)
  /-- A function by rules that finds its identifiers where it is applied. -/
  | openFunction (rules : List Rule)
  | host (obj : HostObject)

/-- An environment: a chain of frames, the newest first. -/
inductive Env where
  | empty
  /-- A frame with one value. -/
  | extend (parent : Env) (name : String) (value : Value)
  /-- A frame of definitions that see each other. -/
  | recursive (parent : Env) (definitions : List (String × Expr))

end

namespace Value

/-- The kind of a value, which is all that errors tell about it. -/
def kind : Value → String
  | .int _ => "int"
  | .float _ => "float"
  | .bool _ => "bool"
  | .char _ => "char"
  | .string _ => "string"
  | .unit => "unit"
  | .list _ => "list"
  | .tuple _ => "tuple"
  | .optNone | .optSome _ => "option"
  | .closure _ _ _ _ | .function _ _ | .openFunction _ => "function"
  | .host obj => obj.className

/-- A tuple of two items or more. -/
def checkedTuple (items : List Value) : Except Malformed Value :=
  if 2 ≤ items.length then .ok (.tuple items) else .error .shortTupleValue

mutual

/-- The text of a value. Functions do not show their code. -/
def display : Value → String
  | .int n => toString n
  | .float x => Decimal.text x
  | .bool b => displayBool b
  | .char text => "'" ++ text ++ "'"
  | .string s => "\"" ++ s ++ "\""
  | .unit => "()"
  | .list items => "[" ++ "; ".intercalate (displayAll items) ++ "]"
  | .tuple items => "(" ++ ", ".intercalate (displayAll items) ++ ")"
  | .optNone => "None"
  | .optSome inner => "Some " ++ inner.display
  | .closure _ _ _ _ => "<fun>"
  | .function _ _ | .openFunction _ => "<function>"
  | .host obj => obj.display

def displayAll : List Value → List String
  | [] => []
  | v :: vs => v.display :: displayAll vs

end

end Value

end MiniMl
