import MiniMl.Proofs.Equality.Tree
/-!
# Structural equality is a partial equivalence

Equality of nodes without host objects is symmetric and transitive in every category, and a node is
the same as a separately built copy of itself exactly when no NaN occurs in it. All of this follows
from what equality decides: that the trees of the two nodes are identical, and that where they have
NaNs the two have one object.

The `leaves` of a node are the numbers and the host objects that occur in it, and they are the
leaves of its tree.
-/

namespace MiniMl

/-! ### Leaves of terms -/

namespace Ty

mutual

def leaves : Ty → List Leaf
  | .named _ args => leavesAll args
  | .arrow arg result => arg.leaves ++ result.leaves
  | .tuple items => leavesAll items
  | .measure base _ => base.leaves
  | .host obj => [.host obj]

def leavesAll : List Ty → List Leaf
  | [] => []
  | t :: ts => t.leaves ++ leavesAll ts

end

mutual

theorem mem_leaves_iff {l : Leaf} (t : Ty) : l ∈ t.leaves ↔ t.tree.Has l := by
  cases t <;> rw [leaves, tree]
  case named name args => simp [mem_leavesAll_iff args]
  case arrow arg result => simp [mem_leaves_iff arg, mem_leaves_iff result]
  case tuple items => simp [mem_leavesAll_iff items]
  case measure base unit => simp [mem_leaves_iff base]
  case host obj => simp

theorem mem_leavesAll_iff {l : Leaf} : ∀ ts : List Ty,
    l ∈ leavesAll ts ↔ Tree.AnyHas (treeAll ts) l
  | [] => by simp [leavesAll, treeAll]
  | t :: ts => by simp [leavesAll, treeAll, mem_leaves_iff t, mem_leavesAll_iff ts]

end

end Ty

def Constant.leaves : Constant → List Leaf
  | .int n => [.number (Number.int n).value]
  | .float x => [.number (Number.float x).value]
  | .measure number _ => [.number number.value]
  | .host obj => [.host obj]
  | .bool _ | .char _ | .string _ => []

theorem Constant.mem_leaves_iff {l : Leaf} (c : Constant) : l ∈ c.leaves ↔ c.tree.Has l := by
  cases c <;> simp [Constant.leaves, Constant.tree]

namespace Pattern

mutual

def leaves : Pattern → List Leaf
  | .const c => c.leaves
  | .typed inner ty => inner.leaves ++ ty.leaves
  | .optSome inner => inner.leaves
  | .or left right => left.leaves ++ right.leaves
  | .list items => leavesAll items
  | .tuple items => leavesAll items
  | .host obj => [.host obj]
  | .wild | .ident _ | .optNone => []

def leavesAll : List Pattern → List Leaf
  | [] => []
  | p :: ps => p.leaves ++ leavesAll ps

end

mutual

theorem mem_leaves_iff {l : Leaf} (p : Pattern) : l ∈ p.leaves ↔ p.tree.Has l := by
  cases p <;> rw [leaves, tree]
  case wild => simp
  case const c => simp [c.mem_leaves_iff]
  case ident name => simp
  case typed inner ty => simp [mem_leaves_iff inner, ty.mem_leaves_iff]
  case optNone => simp
  case optSome inner => simp [mem_leaves_iff inner]
  case or left right => simp [mem_leaves_iff left, mem_leaves_iff right]
  case list items => simp [mem_leavesAll_iff items]
  case tuple items => simp [mem_leavesAll_iff items]
  case host obj => simp

theorem mem_leavesAll_iff {l : Leaf} : ∀ ps : List Pattern,
    l ∈ leavesAll ps ↔ Tree.AnyHas (treeAll ps) l
  | [] => by simp [leavesAll, treeAll]
  | p :: ps => by simp [leavesAll, treeAll, mem_leaves_iff p, mem_leavesAll_iff ps]

end

end Pattern

namespace Expr

mutual

def leaves : Expr → List Leaf
  | .const c => c.leaves
  | .typed inner ty => inner.leaves ++ ty.leaves
  | .list items => leavesAll items
  | .tuple items => leavesAll items
  | .lambda param body => param.leaves ++ body.leaves
  | .ifThen cond yes => cond.leaves ++ yes.leaves
  | .ifThenElse cond yes no => cond.leaves ++ yes.leaves ++ no.leaves
  | .optSome inner => inner.leaves
  | .matchWith scrutinee rules => scrutinee.leaves ++ clauseLeaves rules
  | .function rules => clauseLeaves rules
  | .apply func arg => func.leaves ++ arg.leaves
  | .letIn _ bindings body => clauseLeaves bindings ++ body.leaves
  | .host obj => [.host obj]
  | .ident _ | .optNone => []

def leavesAll : List Expr → List Leaf
  | [] => []
  | e :: es => e.leaves ++ leavesAll es

def clauseLeaves : List (Clause Expr) → List Leaf
  | [] => []
  | ⟨pattern, body⟩ :: rest => pattern.leaves ++ body.leaves ++ clauseLeaves rest

end

mutual

theorem mem_leaves_iff {l : Leaf} (e : Expr) : l ∈ e.leaves ↔ e.tree.Has l := by
  cases e <;> rw [leaves, tree]
  case const c => simp [c.mem_leaves_iff]
  case ident name => simp
  case typed inner ty => simp [mem_leaves_iff inner, ty.mem_leaves_iff]
  case list items => simp [mem_leavesAll_iff items]
  case tuple items => simp [mem_leavesAll_iff items]
  case lambda param body => simp [param.mem_leaves_iff, mem_leaves_iff body]
  case ifThen cond yes => simp [mem_leaves_iff cond, mem_leaves_iff yes]
  case ifThenElse cond yes no =>
    simp [mem_leaves_iff cond, mem_leaves_iff yes, mem_leaves_iff no]
  case optNone => simp
  case optSome inner => simp [mem_leaves_iff inner]
  case matchWith scrutinee rules => simp [mem_leaves_iff scrutinee, mem_clauseLeaves_iff rules]
  case function rules => simp [mem_clauseLeaves_iff rules]
  case apply func arg => simp [mem_leaves_iff func, mem_leaves_iff arg]
  case letIn recursive bindings body => simp [mem_clauseLeaves_iff bindings, mem_leaves_iff body]
  case host obj => simp

theorem mem_leavesAll_iff {l : Leaf} : ∀ es : List Expr,
    l ∈ leavesAll es ↔ Tree.AnyHas (treeAll es) l
  | [] => by simp [leavesAll, treeAll]
  | e :: es => by simp [leavesAll, treeAll, mem_leaves_iff e, mem_leavesAll_iff es]

private theorem mem_clauseLeaves_iff {l : Leaf} : ∀ clauses : List (Clause Expr),
    l ∈ clauseLeaves clauses ↔ Tree.AnyHas (clauseTrees clauses) l
  | [] => by simp [clauseLeaves, clauseTrees]
  | ⟨pattern, body⟩ :: rest => by
    simp [clauseLeaves, clauseTrees, pattern.mem_leaves_iff, mem_leaves_iff body,
      mem_clauseLeaves_iff rest, or_assoc]

end

end Expr

def Clause.leaves (clause : Clause Expr) : List Leaf :=
  clause.pattern.leaves ++ clause.body.leaves

theorem Clause.mem_leaves_iff {l : Leaf} (clause : Clause Expr) :
    l ∈ Clause.leaves clause ↔ (Clause.tree clause).Has l := by
  simp [Clause.leaves, Clause.tree, Pattern.mem_leaves_iff, Expr.mem_leaves_iff]

def Decl.leaves : Decl → List Leaf
  | .letDecl _ bindings => Expr.clauseLeaves bindings
  | .expr e => e.leaves
  | .host obj => [.host obj]

theorem Decl.mem_leaves_iff {l : Leaf} (d : Decl) : l ∈ d.leaves ↔ d.tree.Has l := by
  cases d <;> simp [Decl.leaves, Decl.tree, Expr.mem_clauseLeaves_iff, Expr.mem_leaves_iff]

/-! ### Leaves of values and environments -/

/-- The leaves of what a frame of definitions has under its names. -/
def definitionLeaves (definitions : List (String × Expr)) : List Leaf :=
  -- Not of `entry.2`: of two definitions of a name only the first is found.
  definitions.flatMap fun entry => (definitions.lookup entry.1).elim [] Expr.leaves

private theorem mem_definitionLeaves_iff {l : Leaf} (definitions : List (String × Expr)) :
    l ∈ definitionLeaves definitions ↔ (definitionsTree definitions).Has l := by
  rw [definitionLeaves, definitionsTree, Tree.has_table_iff, List.mem_flatMap]
  constructor
  · rintro ⟨entry, -, hleaf⟩
    obtain hfound | ⟨e, hfound⟩ := Option.eq_none_or_eq_some (definitions.lookup entry.1)
    · rw [hfound] at hleaf
      cases hleaf
    · rw [hfound] at hleaf
      exact ⟨entry.1, e.tree, by rw [hfound]; rfl, e.mem_leaves_iff.mp hleaf⟩
  · rintro ⟨name, t, hfound, hleaf⟩
    obtain ⟨e, he, rfl⟩ := Option.map_eq_some_iff.mp hfound
    refine ⟨(name, e), mem_of_lookup_eq_some he, ?_⟩
    rw [he]
    exact e.mem_leaves_iff.mpr hleaf

mutual

def Value.leaves : Value → List Leaf
  | .int n => [.number (Number.int n).value]
  | .float x => [.number (Number.float x).value]
  | .list items => Value.leavesAll items
  | .tuple items => Value.leavesAll items
  | .optSome inner => inner.leaves
  | .closure param body env _ => param.leaves ++ body.leaves ++ env.leaves
  | .function rules env => Expr.clauseLeaves rules ++ env.leaves
  | .openFunction rules => Expr.clauseLeaves rules
  | .host obj => [.host obj]
  | .bool _ | .char _ | .string _ | .unit | .optNone => []

def Value.leavesAll : List Value → List Leaf
  | [] => []
  | v :: vs => v.leaves ++ Value.leavesAll vs

def Env.leaves : Env → List Leaf
  | .empty => []
  | .extend parent _ value => value.leaves ++ parent.leaves
  | .recursive parent definitions => definitionLeaves definitions ++ parent.leaves

end

mutual

theorem Value.mem_leaves_iff {l : Leaf} (v : Value) : l ∈ v.leaves ↔ v.tree.Has l := by
  cases v <;> rw [Value.leaves, Value.tree]
  case int n => simp
  case float x => simp
  case bool b => simp
  case char text => simp
  case string s => simp
  case unit => simp
  case list items => simp [Value.mem_leavesAll_iff items]
  case tuple items => simp [Value.mem_leavesAll_iff items]
  case optNone => simp
  case optSome inner => simp [Value.mem_leaves_iff inner]
  case closure param body env recursive =>
    simp [param.mem_leaves_iff, body.mem_leaves_iff, Env.mem_leaves_iff env]
  case function rules env => simp [Expr.mem_clauseLeaves_iff, Env.mem_leaves_iff env]
  case openFunction rules => simp [Expr.mem_clauseLeaves_iff]
  case host obj => simp

theorem Value.mem_leavesAll_iff {l : Leaf} : ∀ vs : List Value,
    l ∈ Value.leavesAll vs ↔ Tree.AnyHas (Value.treeAll vs) l
  | [] => by simp [Value.leavesAll, Value.treeAll]
  | v :: vs => by
    simp [Value.leavesAll, Value.treeAll, Value.mem_leaves_iff v, Value.mem_leavesAll_iff vs]

theorem Env.mem_leaves_iff {l : Leaf} (scope : Env) : l ∈ scope.leaves ↔ scope.tree.Has l := by
  cases scope <;> rw [Env.leaves, Env.tree]
  case empty => simp
  case extend parent name value => simp [Value.mem_leaves_iff value, Env.mem_leaves_iff parent]
  case recursive parent definitions =>
    simp [mem_definitionLeaves_iff, Env.mem_leaves_iff parent]

end

/-! ### Nodes -/

namespace Node

/-- The numbers and the host objects that occur in a node. -/
def leaves : Node → List Leaf
  | .ty t => t.leaves
  | .constant c => c.leaves
  | .pattern p => p.leaves
  | .expr e => e.leaves
  | .rule r => Clause.leaves r
  | .binding b => Clause.leaves b
  | .decl d => d.leaves
  | .value v => v.leaves
  | .env scope => scope.leaves
  | .host obj => [.host obj]

theorem mem_leaves_iff {l : Leaf} (n : Node) : l ∈ n.leaves ↔ n.tree.Has l := by
  cases n <;> rw [leaves, tree]
  case ty t => simp [t.mem_leaves_iff]
  case constant c => simp [c.mem_leaves_iff]
  case pattern p => simp [p.mem_leaves_iff]
  case expr e => simp [e.mem_leaves_iff]
  case rule r => simp [Clause.mem_leaves_iff]
  case binding b => simp [Clause.mem_leaves_iff]
  case decl d => simp [d.mem_leaves_iff]
  case value v => simp [v.mem_leaves_iff]
  case env scope => simp [scope.mem_leaves_iff]
  case host obj => simp

/-- A NaN occurs somewhere in the node. -/
def hasNaN (n : Node) : Bool :=
  n.leaves.any Leaf.isNaN

/-- No host object occurs in the node. -/
def hostFree (n : Node) : Bool :=
  !n.leaves.any Leaf.isHost

theorem hasNaN_iff (n : Node) : n.hasNaN = true ↔ n.tree.Has .nan := by
  rw [hasNaN, List.any_eq_true, ← mem_leaves_iff]
  constructor
  · rintro ⟨l, hl, hnan⟩
    exact Leaf.isNaN_iff.mp hnan ▸ hl
  · exact fun hl => ⟨.nan, hl, rfl⟩

theorem hostFree_iff (n : Node) : n.hostFree = true ↔ n.tree.HostFree := by
  rw [hostFree, Bool.not_eq_true', List.any_eq_false]
  constructor
  · exact fun h obj hobj => h (.host obj) (n.mem_leaves_iff.mpr hobj) rfl
  · intro h l hl hhost
    obtain ⟨obj, rfl⟩ := Leaf.isHost_iff.mp hhost
    exact h obj (n.mem_leaves_iff.mp hl)

end Node

namespace Object

variable {hosts : HostObject → HostObject → Bool} {a b c : Object}

theorem same_iff (ha : a.node.hostFree = true) (hb : b.node.hostFree = true) :
    a.same hosts b = true ↔ a.node.tree = b.node.tree
      ∧ ∀ place, a.node.tree.At .nan place → a.float place = b.float place := by
  rw [Object.same, Node.same_decides a.node b.node (a.node.hostFree_iff.mp ha)
    (b.node.hostFree_iff.mp hb)]
  simp only [beq_iff_eq]

private theorem same_symm (ha : a.node.hostFree = true) (hb : b.node.hostFree = true)
    (h : a.same hosts b = true) : b.same hosts a = true := by
  obtain ⟨htree, hnan⟩ := (same_iff ha hb).mp h
  refine (same_iff hb ha).mpr ⟨htree.symm, fun place hplace => ?_⟩
  exact (hnan place (htree ▸ hplace)).symm

private theorem same_trans (ha : a.node.hostFree = true) (hb : b.node.hostFree = true)
    (hc : c.node.hostFree = true) (hab : a.same hosts b = true) (hbc : b.same hosts c = true) :
    a.same hosts c = true := by
  obtain ⟨htree, hnan⟩ := (same_iff ha hb).mp hab
  obtain ⟨htree', hnan'⟩ := (same_iff hb hc).mp hbc
  refine (same_iff ha hc).mpr ⟨htree.trans htree', fun place hplace => ?_⟩
  exact (hnan place hplace).trans (hnan' place (htree ▸ hplace))

/-- The two have no float in common. -/
def Apart (a b : Object) : Prop :=
  ∀ place place', a.float place ≠ b.float place'

private theorem same_copy_iff {n : Node} {float float' : Place → Nat} (hn : n.hostFree = true)
    (hapart : Apart ⟨n, float⟩ ⟨n, float'⟩) :
    same hosts ⟨n, float⟩ ⟨n, float'⟩ = true ↔ n.hasNaN = false := by
  rw [same_iff hn hn, and_iff_right rfl, ← Bool.not_eq_true, n.hasNaN_iff]
  constructor
  · rintro h ⟨place, hplace⟩
    exact hapart place place (h place hplace)
  · exact fun h place hplace => absurd ⟨place, hplace⟩ h

/-- Equality is a partial equivalence on nodes without host objects, by which two nodes are the same
when they have one tree and where it has NaNs they have one object. A node that is not the same as a
separately built copy has a NaN in it. -/
theorem same_partial_equivalence (hosts : HostObject → HostObject → Bool) :
    (∀ a b : Object, a.node.hostFree = true → b.node.hostFree = true →
      (a.same hosts b = true ↔ a.node.tree = b.node.tree
        ∧ ∀ place, a.node.tree.At .nan place → a.float place = b.float place))
    ∧ (∀ a b : Object, a.node.hostFree = true → b.node.hostFree = true →
      a.same hosts b = true → b.same hosts a = true)
    ∧ (∀ a b c : Object, a.node.hostFree = true → b.node.hostFree = true →
      c.node.hostFree = true → a.same hosts b = true → b.same hosts c = true →
      a.same hosts c = true)
    ∧ ∀ a b : Object, a.node = b.node → a.node.hostFree = true → a.Apart b →
      (a.same hosts b = true ↔ a.node.hasNaN = false) := by
  refine ⟨fun a b => same_iff, fun a b => same_symm, fun a b c => same_trans, ?_⟩
  rintro ⟨n, float⟩ ⟨_, float'⟩ rfl hfree hapart
  exact same_copy_iff hfree hapart

/-- A frame whose definitions are in another order, with a measure whose number is a float, and a
list of a NaN. -/
theorem same_partial_equivalence_reordered :
    let f (number : Number) : String × Expr := ("f", .lambda .wild (.const (.measure number "m")))
    let g : String × Expr := ("g", .lambda .wild (.ident "f"))
    let left : Object := ⟨.env (.recursive .empty [f (.int 3), g]), fun _ => 0⟩
    let right : Object := ⟨.env (.recursive .empty [g, f (.float 3.0)]), fun _ => 1⟩
    let nan (float : Nat) : Object := ⟨.value (.list [.float (0.0 / 0.0)]), fun _ => float⟩
    left.same (· == ·) right = true ∧ right.same (· == ·) left = true
      ∧ left.same (· == ·) left = true
      ∧ (nan 0).same (· == ·) (nan 0) = true ∧ ¬ (nan 0).same (· == ·) (nan 1) = true := by
  intro f g left right nan
  obtain ⟨hiff, hsymm, htrans, hcopy⟩ := same_partial_equivalence (· == ·)
  have hfree : left.node.hostFree = true := by decide +kernel
  have hfree' : right.node.hostFree = true := by decide +kernel
  have hfreeNan : (nan 0).node.hostFree = true := by decide +kernel
  have hleft : left.same (· == ·) right = true := by decide +kernel
  have hright := hsymm left right hfree hfree' hleft
  refine ⟨hleft, hright, htrans left right left hfree hfree' hfree hleft hright, ?_,
    fun hsame => ?_⟩
  · exact (hiff _ _ hfreeNan hfreeNan).mpr ⟨rfl, fun _ _ => rfl⟩
  · have hnan := (hcopy (nan 0) (nan 1) rfl hfreeNan (fun _ _ => Nat.zero_ne_one)).mp hsame
    exact absurd hnan (by decide +kernel)

end Object

end MiniMl
