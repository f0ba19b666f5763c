import MiniMl.Term.Expr
/-!
# Structural equality of terms

Two terms are the same when they have the same shape and the same contents. Floats are compared as
numbers: both zeros are the same, and a NaN differs from every float. But nothing is told apart from
itself: a NaN is the same as another one if the two are one object. The number of a measure is
compared by its exact value, whether it is an integer or a float.

Which NaNs of the two sides are one object is told by their places, and how objects of the host
program are compared is up to the host.
-/

namespace MiniMl

/-- A turn on the way to a part: into the first of the fields, past it to the others, or to what a
frame has under a name. -/
inductive Turn where
  | first
  | rest
  | under (name : String)
  deriving DecidableEq, Repr

/-- A place in a node, as the way to it. -/
abbrev Place := List Turn

/-- What equality depends on beside the two sides. -/
structure Identity where
  /-- Equality of host objects. -/
  hosts : HostObject → HostObject → Bool
  /-- At this place both sides have one object. -/
  shared : Place → Bool

namespace Identity

/-- The same after a turn. -/
def after (identity : Identity) (turn : Turn) : Identity :=
  { identity with shared := fun place => identity.shared (turn :: place) }

abbrev first (identity : Identity) : Identity :=
  identity.after .first

abbrev rest (identity : Identity) : Identity :=
  identity.after .rest

abbrev second (identity : Identity) : Identity :=
  identity.rest.first

abbrev third (identity : Identity) : Identity :=
  identity.rest.second

end Identity

namespace Number

/-- Two floats are equal as numbers, or they are one NaN. -/
def sameFloat (shared : Bool) (x y : Float) : Bool :=
  x == y || (shared && x.isNaN && y.isNaN)

/-- The exact value of a finite float, as a multiple of the least positive one, `2 ^ -1074`. -/
def units? (x : Float) : Option Int :=
  match x.toModel.unpack with
  | .zero _ => some 0
  | .finite sign mantissa exponent _ =>
    some (sign.apply (mantissa * Decimal.power 2 (exponent + 1074)))
  | .infinity _ | .notANumber => none

/-- A float has the value of an integer. -/
def floatIsInt (x : Float) (n : Int) : Bool :=
  units? x == some (n * Decimal.power 2 1074)

/-- Two numbers have the same value, or they are one NaN. -/
def same (shared : Bool) : Number → Number → Bool
  | .int m, .int n => m == n
  | .float x, .float y => sameFloat shared x y
  | .int n, .float x => floatIsInt x n
  | .float x, .int n => floatIsInt x n

end Number

namespace Ty

mutual

def same (c : Identity) : Ty → Ty → Bool
  | .named name args, .named name' args' => name == name' && sameAll c.second args args'
  | .arrow arg result, .arrow arg' result' => arg.same c.first arg' && result.same c.second result'
  | .tuple items, .tuple items' => sameAll c items items'
  | .measure base unit, .measure base' unit' => base.same c.first base' && unit == unit'
  | .host obj, .host obj' => c.hosts obj obj'
  | _, _ => false

def sameAll (c : Identity) : List Ty → List Ty → Bool
  | [], [] => true
  | t :: ts, t' :: ts' => t.same c.first t' && sameAll c.rest ts ts'
  | _, _ => false

end

end Ty

def Constant.same (c : Identity) : Constant → Constant → Bool
  | .int m, .int n => m == n
  | .float x, .float y => Number.sameFloat (c.first.shared []) x y
  | .bool b, .bool b' => b == b'
  | .char text, .char text' => text == text'
  | .string s, .string s' => s == s'
  | .measure number unit, .measure number' unit' =>
    number.same (c.first.shared []) number' && unit == unit'
  | .host obj, .host obj' => c.hosts obj obj'
  | _, _ => false

namespace Pattern

mutual

def same (c : Identity) : Pattern → Pattern → Bool
  | .wild, .wild => true
  | .const constant, .const constant' => constant.same c.first constant'
  | .ident name, .ident name' => name == name'
  | .typed inner ty, .typed inner' ty' => inner.same c.first inner' && ty.same c.second ty'
  | .optNone, .optNone => true
  | .optSome inner, .optSome inner' => inner.same c.first inner'
  | .or left right, .or left' right' => left.same c.first left' && right.same c.second right'
  | .list items, .list items' => sameAll c items items'
  | .tuple items, .tuple items' => sameAll c items items'
  | .host obj, .host obj' => c.hosts obj obj'
  | _, _ => false

def sameAll (c : Identity) : List Pattern → List Pattern → Bool
  | [], [] => true
  | p :: ps, p' :: ps' => p.same c.first p' && sameAll c.rest ps ps'
  | _, _ => false

end

end Pattern

namespace Expr

mutual

def same (c : Identity) : Expr → Expr → Bool
  | .const constant, .const constant' => constant.same c.first constant'
  | .ident name, .ident name' => name == name'
  | .typed inner ty, .typed inner' ty' => inner.same c.first inner' && ty.same c.second ty'
  | .list items, .list items' => sameAll c items items'
  | .tuple items, .tuple items' => sameAll c items items'
  | .lambda param body, .lambda param' body' =>
    param.same c.first param' && body.same c.second body'
  | .ifThen cond yes, .ifThen cond' yes' => cond.same c.first cond' && yes.same c.second yes'
  | .ifThenElse cond yes no, .ifThenElse cond' yes' no' =>
    cond.same c.first cond' && (yes.same c.second yes' && no.same c.third no')
  | .optNone, .optNone => true
  | .optSome inner, .optSome inner' => inner.same c.first inner'
  | .matchWith scrutinee rules, .matchWith scrutinee' rules' =>
    scrutinee.same c.first scrutinee' && sameClauses c.second rules rules'
  | .function rules, .function rules' => sameClauses c rules rules'
  | .apply func arg, .apply func' arg' => func.same c.first func' && arg.same c.second arg'
  | .letIn recursive bindings body, .letIn recursive' bindings' body' =>
    recursive == recursive'
      && (sameClauses c.second bindings bindings' && body.same c.third body')
  | .host obj, .host obj' => c.hosts obj obj'
  | _, _ => false

def sameAll (c : Identity) : List Expr → List Expr → Bool
  | [], [] => true
  | e :: es, e' :: es' => e.same c.first e' && sameAll c.rest es es'
  | _, _ => false

def sameClauses (c : Identity) : List (Clause Expr) → List (Clause Expr) → Bool
  | [], [] => true
  | ⟨pattern, body⟩ :: rest, ⟨pattern', body'⟩ :: rest' =>
    (pattern.same c.first.first pattern' && body.same c.first.second body')
      && sameClauses c.rest rest rest'
  | _, _ => false

end

end Expr

def Clause.same (c : Identity) (clause clause' : Clause Expr) : Bool :=
  clause.pattern.same c.first clause'.pattern && clause.body.same c.second clause'.body

def Decl.same (c : Identity) : Decl → Decl → Bool
  | .letDecl recursive bindings, .letDecl recursive' bindings' =>
    recursive == recursive' && Expr.sameClauses c.second bindings bindings'
  | .expr e, .expr e' => e.same c.first e'
  | .host obj, .host obj' => c.hosts obj obj'
  | _, _ => false

end MiniMl
