/-!
# Type annotations

Annotations are carried along and shown; evaluation never looks at them. This module also holds the
objects of a host program that may stand in place of any node or value.
-/

namespace MiniMl

/-- An object of the host program of which only the name of its class is known. Two of them are
equal when they are one object, which the serial number tells. -/
structure HostObject where
  className : String
  serial : Nat
  deriving DecidableEq, Repr

/-- A host object is shown by its class. -/
def HostObject.display (obj : HostObject) : String :=
  "<" ++ obj.className ++ ">"

inductive Ty where
  | named (name : String) (args : List Ty)
  | arrow (arg result : Ty)
  | tuple (items : List Ty)
  | measure (base : Ty) (unit : String)
  | host (obj : HostObject)

namespace Ty

/-- A type name after the texts of its arguments. -/
def displayNamed (name : String) : List String → String
  | [] => name
  | [arg] => arg ++ " " ++ name
  | args => "(" ++ ", ".intercalate args ++ ") " ++ name

/-- An arrow on the left of an arrow is put in parentheses. -/
def displayArgument (arg : Ty) (text : String) : String :=
  match arg with
  | .arrow _ _ => "(" ++ text ++ ")"
  | _ => text

mutual

def display : Ty → String
  | .named name args => displayNamed name (displayAll args)
  | .arrow arg result => displayArgument arg arg.display ++ " -> " ++ result.display
  | .tuple items => " * ".intercalate (displayAll items)
  | .measure base unit => base.display ++ "<" ++ unit ++ ">"
  | .host obj => obj.display

def displayAll : List Ty → List String
  | [] => []
  | t :: ts => t.display :: displayAll ts

end

end Ty

end MiniMl
