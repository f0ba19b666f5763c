import MiniMl.Term.Constant
/-!
# Patterns
-/

namespace MiniMl

inductive Pattern where
  | wild
  | const (c : Constant)
  | ident (name : String)
  | typed (inner : Pattern) (ty : Ty)
  | optNone
  | optSome (inner : Pattern)
  | or (left right : Pattern)
  | list (items : List Pattern)
  | tuple (items : List Pattern)
  | host (obj : HostObject)

namespace Pattern

mutual

def display : Pattern → String
  | .wild => "_"
  | .const c => c.display
  | .ident name => name
  | .typed inner ty => "(" ++ inner.display ++ " : " ++ ty.display ++ ")"
  | .optNone => "None"
  | .optSome inner => "Some " ++ inner.display
  | .or left right => "(" ++ left.display ++ " | " ++ right.display ++ ")"
  | .list items => "[" ++ "; ".intercalate (displayAll items) ++ "]"
  | .tuple items => "(" ++ ", ".intercalate (displayAll items) ++ ")"
  | .host obj => obj.display

def displayAll : List Pattern → List String
  | [] => []
  | p :: ps => p.display :: displayAll ps

end

mutual

/-- The integers that the text shows. -/
def integers : Pattern → List Int
  | .const c => c.integers
  | .typed inner _ => inner.integers
  | .optSome inner => inner.integers
  | .or left right => left.integers ++ right.integers
  | .list items => integersAll items
  | .tuple items => integersAll items
  | .wild | .ident _ | .optNone | .host _ => []

def integersAll : List Pattern → List Int
  | [] => []
  | p :: ps => p.integers ++ integersAll ps

end

mutual

/-- The names a pattern binds, from left to right and with repetitions. Both sides of an alternative
are meant to bind the same names, so the left side speaks for it. -/
def boundNames : Pattern → List String
  | .ident name => [name]
  | .typed inner _ => inner.boundNames
  | .optSome inner => inner.boundNames
  | .or left _ => left.boundNames
  | .list items => boundNamesAll items
  | .tuple items => boundNamesAll items
  | .wild | .const _ | .optNone | .host _ => []

def boundNamesAll : List Pattern → List String
  | [] => []
  | p :: ps => p.boundNames ++ boundNamesAll ps

end

end Pattern

end MiniMl
