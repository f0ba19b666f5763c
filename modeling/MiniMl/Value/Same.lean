import MiniMl.Term.Same
import MiniMl.Value.Basic
/-!
# Structural equality of values and environments

Closures are compared with their code and their environments, and environments frame by frame. A
frame of definitions is compared as a table: the order of its names does not matter.
-/

namespace MiniMl

/-- Two look-ups find nothing, or expressions that are the same. -/
def sameFound (c : Identity) : Option Expr → Option Expr → Bool
  | some e, some e' => e.same c e'
  | none, none => true
  | _, _ => false

/-- Two frames of definitions find the same under every name that one of them has. -/
def sameDefinitions (c : Identity) (definitions definitions' : List (String × Expr)) : Bool :=
  (definitions ++ definitions').all fun entry =>
    sameFound (c.after (.under entry.1)) (definitions.lookup entry.1) (definitions'.lookup entry.1)

mutual

def Value.same (c : Identity) : Value → Value → Bool
  | .int m, .int n => m == n
  | .float x, .float y => Number.sameFloat (c.first.shared []) x y
  | .bool b, .bool b' => b == b'
  | .char text, .char text' => text == text'
  | .string s, .string s' => s == s'
  | .unit, .unit => true
  | .list items, .list items' => Value.sameAll c items items'
  | .tuple items, .tuple items' => Value.sameAll c items items'
  | .optNone, .optNone => true
  | .optSome inner, .optSome inner' => inner.same c.first inner'
  | .closure param body env recursive, .closure param' body' env' recursive' =>
    param.same c.first param'
      && (body.same c.second body' && (env.same c.third env' && recursive == recursive'))
  | .function rules env, .function rules' env' =>
    Expr.sameClauses c.first rules rules' && env.same c.second env'
  | .openFunction rules, .openFunction rules' => Expr.sameClauses c rules rules'
  | .host obj, .host obj' => c.hosts obj obj'
  | _, _ => false

def Value.sameAll (c : Identity) : List Value → List Value → Bool
  | [], [] => true
  | v :: vs, v' :: vs' => v.same c.first v' && Value.sameAll c.rest vs vs'
  | _, _ => false

def Env.same (c : Identity) : Env → Env → Bool
  | .empty, .empty => true
  | .extend parent name value, .extend parent' name' value' =>
    name == name' && (value.same c.second value' && parent.same c.third parent')
  | .recursive parent definitions, .recursive parent' definitions' =>
    sameDefinitions c.first definitions definitions' && parent.same c.second parent'
  | _, _ => false

end

end MiniMl
