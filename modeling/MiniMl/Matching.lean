import MiniMl.Error
import MiniMl.Value.Basic
/-!
# Matching values against patterns

A match extends an environment by the names of the pattern, from left to right; a value that does
not match is no error. Alternatives are tried from the left.
-/

namespace MiniMl

/-- A constant matches a value of its own kind and equal contents. Floats are compared as numbers,
so a NaN matches nothing. -/
def Constant.matchesValue : Constant → Value → Bool
  | .int n, .int m => n == m
  | .float x, .float y => x == y
  | .bool b, .bool b' => b == b'
  | .char c, .char text => text == c.toString
  | .string s, .string s' => s == s'
  | _, _ => false

namespace Pattern

mutual

/-- The environment extended by what the pattern binds in the value, or nothing. -/
def match? (env : Env) : Pattern → Value → Option Env
  | .wild, _ => some env
  | .const c, value => if c.matchesValue value then some env else none
  | .ident name, value => some (env.extend name value)
  | .typed inner _, value => inner.match? env value
  | .optNone, .optNone => some env
  | .optSome inner, .optSome value => inner.match? env value
  | .or left right, value =>
    match left.match? env value with
    | some matched => some matched
    | none => right.match? env value
  | .list patterns, .list values => matchAll? env patterns values
  | .tuple patterns, .tuple values => matchAll? env patterns values
  | _, _ => none

/-- Matches item by item, each in the environment that the one before it left. There have to be as
many values as patterns. -/
def matchAll? (env : Env) : List Pattern → List Value → Option Env
  | [], [] => some env
  | p :: ps, v :: vs =>
    match p.match? env v with
    | some matched => matchAll? matched ps vs
    | none => none
  | _, _ => none

end

end Pattern

/-- The place of the first rule that matches. -/
def ruleIndex? (env : Env) (value : Value) (rules : List Rule) : Option Nat :=
  rules.findIdx? fun rule => (rule.pattern.match? env value).isSome

/-- The first rule that matches, with the environment its pattern leaves. -/
def selectRule (env : Env) (value : Value) : List Rule → Except EvalError (Rule × Env)
  | [] => .error (.noRuleMatches value.kind)
  | rule :: rest =>
    match rule.pattern.match? env value with
    | some matched => .ok (rule, matched)
    | none => selectRule env value rest

end MiniMl
