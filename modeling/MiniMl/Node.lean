import MiniMl.Value.Env
import MiniMl.Value.Same
/-!
# Nodes of any category

What can be shown and compared: terms, values, environments, and host objects in place of them.
-/

namespace MiniMl

/-- A term, a value or an environment. -/
inductive Node where
  | ty (t : Ty)
  | constant (c : Constant)
  | pattern (p : Pattern)
  | expr (e : Expr)
  | rule (r : Rule)
  | binding (b : Binding)
  | decl (d : Decl)
  | value (v : Value)
  | env (scope : Env)
  | host (obj : HostObject)

namespace Node

def display : Node → String
  | .ty t => t.display
  | .constant c => c.display
  | .pattern p => p.display
  | .expr e => e.display
  | .rule r => r.displayRule
  | .binding b => b.displayBinding
  | .decl d => d.display
  | .value v => v.display
  | .env scope => scope.display
  | .host obj => obj.display

/-- Two nodes are of one category and the same. -/
def same (c : Identity) : Node → Node → Bool
  | .ty t, .ty t' => t.same c.first t'
  | .constant literal, .constant literal' => literal.same c.first literal'
  | .pattern p, .pattern p' => p.same c.first p'
  | .expr e, .expr e' => e.same c.first e'
  | .rule r, .rule r' => r.same c.first r'
  | .binding b, .binding b' => b.same c.first b'
  | .decl d, .decl d' => d.same c.first d'
  | .value v, .value v' => v.same c.first v'
  | .env scope, .env scope' => scope.same c.first scope'
  | .host obj, .host obj' => c.hosts obj obj'
  | _, _ => false

end Node

/-- A node in memory. The floats in it are objects, and two of them are one object if they have the
same number. -/
structure Object where
  node : Node
  float : Place → Nat

/-- Equality of nodes in memory, given the equality of host objects. -/
def Object.same (hosts : HostObject → HostObject → Bool) (left right : Object) : Bool :=
  left.node.same ⟨hosts, fun place => left.float place == right.float place⟩ right.node

end MiniMl
