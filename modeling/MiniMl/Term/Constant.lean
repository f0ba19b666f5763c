import MiniMl.Decimal.Layout
import MiniMl.Term.Ty
/-!
# Constants

Beside the text of a constant stand the integers that it shows. A host that limits how many digits
it writes has no text for a constant with a longer integer, and none for what such a constant is
part of.
-/

namespace MiniMl

/-- The number in front of a unit of measure. -/
inductive Number where
  | int (n : Int)
  | float (x : Float)

def Number.display : Number → String
  | .int n => toString n
  | .float x => Decimal.text x

def Number.integers : Number → List Int
  | .int n => [n]
  | .float _ => []

inductive Constant where
  | int (n : Int)
  | float (x : Float)
  | bool (b : Bool)
  | char (c : Char)
  | string (s : String)
  | measure (number : Number) (unit : String)
  | host (obj : HostObject)

def displayBool (b : Bool) : String :=
  if b then "true" else "false"

/-- Characters and strings stand between quotes and nothing in them is escaped. -/
def Constant.display : Constant → String
  | .int n => toString n
  | .float x => Decimal.text x
  | .bool b => displayBool b
  | .char c => "'" ++ c.toString ++ "'"
  | .string s => "\"" ++ s ++ "\""
  | .measure number unit => number.display ++ "<" ++ unit ++ ">"
  | .host obj => obj.display

/-- The integers that the text shows. -/
def Constant.integers : Constant → List Int
  | .int n => [n]
  | .measure number _ => number.integers
  | .float _ | .bool _ | .char _ | .string _ | .host _ => []

end MiniMl
