import MiniMl.Node
import MiniMl.Proofs.Equality.Number
import MiniMl.Proofs.Lookup
/-!
# Nodes as trees

A node of any category is turned into a tree that keeps what equality looks at and no more: numbers
become their values, and a frame of definitions becomes a map from names. Trees are compared by
their identity, so nothing has to be proved about equality of trees.

What is proved is that each comparison decides whether the trees are identical (`Decides`): it says
so, unless there is a place where the two nodes have NaNs that are not one object. This is about
nodes without host objects, as the equality of host objects may be anything. There is one statement
of this kind for each category, and its proof goes through the constructors: the fields of a
constructor are compared one after the other (`DecidesAll`), and different constructors have
different numbers.
-/

namespace MiniMl

/-- What a tree has at its ends apart from texts and the like. -/
inductive Leaf where
  | number (value : ExactValue)
  | host (obj : HostObject)

namespace Leaf

def nan : Leaf :=
  .number .notANumber

def isNaN : Leaf → Bool
  | .number .notANumber => true
  | _ => false

def isHost : Leaf → Bool
  | .host _ => true
  | .number _ => false

theorem isNaN_iff {l : Leaf} : l.isNaN = true ↔ l = nan := by
  obtain value | obj := l
  · cases value <;> simp [isNaN, nan]
  · simp [isNaN, nan]

theorem isHost_iff {l : Leaf} : l.isHost = true ↔ ∃ obj, l = .host obj := by
  cases l <;> simp [isHost]

end Leaf

inductive Tree where
  | leaf (l : Leaf)
  | text (s : String)
  | char (c : Char)
  | flag (b : Bool)
  /-- A constructor, by its number in its category, with its fields. -/
  | form (index : Nat) (fields : List Tree)
  | table (entries : String → Option Tree)

namespace Tree

mutual

/-- The tree has the leaf at the place. -/
inductive At (l : Leaf) : Tree → Place → Prop
  | here : At l (.leaf l) []
  | form {index : Nat} {fields : List Tree} {place : Place} (h : AnyAt l fields place) :
      At l (.form index fields) place
  | table {entries : String → Option Tree} {name : String} {t : Tree} {place : Place}
      (hentry : entries name = some t) (h : At l t place) :
      At l (.table entries) (.under name :: place)

/-- The row of trees has the leaf at the place. -/
inductive AnyAt (l : Leaf) : List Tree → Place → Prop
  | first {t : Tree} {ts : List Tree} {place : Place} (h : At l t place) :
      AnyAt l (t :: ts) (.first :: place)
  | rest {t : Tree} {ts : List Tree} {place : Place} (h : AnyAt l ts place) :
      AnyAt l (t :: ts) (.rest :: place)

end

variable {l : Leaf} {P : Place → Prop}

private theorem forall_at_leaf_iff {l' : Leaf} :
    (∀ place, (leaf l').At l place → P place) ↔ (l' = l → P []) := by
  constructor
  · rintro h rfl
    exact h [] .here
  · rintro h place ⟨⟩
    exact h rfl

private theorem forall_at_form_iff {index : Nat} {fields : List Tree} :
    (∀ place, (form index fields).At l place → P place)
      ↔ ∀ place, AnyAt l fields place → P place := by
  constructor
  · intro h place hplace
    exact h place (.form hplace)
  · rintro h place (_ | hplace)
    exact h place hplace

private theorem forall_at_table_iff {entries : String → Option Tree} :
    (∀ place, (table entries).At l place → P place)
      ↔ ∀ name t, entries name = some t → ∀ place, t.At l place → P (.under name :: place) := by
  constructor
  · intro h name t hentry place hplace
    exact h _ (.table hentry hplace)
  · rintro h place (_ | _ | ⟨hentry, hplace⟩)
    exact h _ _ hentry _ hplace

private theorem forall_anyAt_cons_iff {t : Tree} {ts : List Tree} :
    (∀ place, AnyAt l (t :: ts) place → P place)
      ↔ (∀ place, t.At l place → P (.first :: place))
        ∧ ∀ place, AnyAt l ts place → P (.rest :: place) := by
  constructor
  · intro h
    exact ⟨fun place hplace => h _ (.first hplace), fun place hplace => h _ (.rest hplace)⟩
  · rintro ⟨hfirst, hrest⟩ place (hplace | hplace)
    · exact hfirst _ hplace
    · exact hrest _ hplace

/-- The tree has the leaf somewhere. -/
def Has (t : Tree) (l : Leaf) : Prop :=
  ∃ place, t.At l place

def AnyHas (ts : List Tree) (l : Leaf) : Prop :=
  ∃ place, AnyAt l ts place

@[simp]
theorem has_leaf_iff {l' : Leaf} : (leaf l').Has l ↔ l = l' := by
  constructor
  · rintro ⟨place, ⟨⟩⟩
    rfl
  · rintro rfl
    exact ⟨[], .here⟩

@[simp]
theorem has_form_iff {index : Nat} {fields : List Tree} :
    (form index fields).Has l ↔ AnyHas fields l := by
  constructor
  · rintro ⟨place, _ | hplace⟩
    exact ⟨place, hplace⟩
  · rintro ⟨place, hplace⟩
    exact ⟨place, .form hplace⟩

theorem has_table_iff {entries : String → Option Tree} :
    (table entries).Has l ↔ ∃ name t, entries name = some t ∧ t.Has l := by
  constructor
  · rintro ⟨place, _ | _ | ⟨hentry, hplace⟩⟩
    exact ⟨_, _, hentry, _, hplace⟩
  · rintro ⟨name, t, hentry, place, hplace⟩
    exact ⟨_, .table hentry hplace⟩

@[simp]
theorem not_has_text {s : String} : ¬ (text s).Has l := by
  rintro ⟨_, ⟨⟩⟩

@[simp]
theorem not_has_char {a : Char} : ¬ (char a).Has l := by
  rintro ⟨_, ⟨⟩⟩

@[simp]
theorem not_has_flag {b : Bool} : ¬ (flag b).Has l := by
  rintro ⟨_, ⟨⟩⟩

@[simp]
theorem not_anyHas_nil : ¬ AnyHas [] l := by
  rintro ⟨_, ⟨⟩⟩

@[simp]
theorem anyHas_cons_iff {t : Tree} {ts : List Tree} :
    AnyHas (t :: ts) l ↔ t.Has l ∨ AnyHas ts l := by
  constructor
  · rintro ⟨_, hplace | hplace⟩
    · exact .inl ⟨_, hplace⟩
    · exact .inr ⟨_, hplace⟩
  · rintro (⟨place, hplace⟩ | ⟨place, hplace⟩)
    · exact ⟨_, .first hplace⟩
    · exact ⟨_, .rest hplace⟩

/-- No host object stands in the tree. -/
def HostFree (t : Tree) : Prop :=
  ∀ obj, ¬ t.Has (.host obj)

def AllHostFree (ts : List Tree) : Prop :=
  ∀ obj, ¬ AnyHas ts (.host obj)

theorem hostFree_form_iff {index : Nat} {fields : List Tree} :
    (form index fields).HostFree ↔ AllHostFree fields := by
  simp only [HostFree, AllHostFree, has_form_iff]

theorem allHostFree_cons_iff {t : Tree} {ts : List Tree} :
    AllHostFree (t :: ts) ↔ t.HostFree ∧ AllHostFree ts := by
  simp only [HostFree, AllHostFree, anyHas_cons_iff, not_or, forall_and]

theorem HostFree.entry {entries : String → Option Tree} (h : (table entries).HostFree)
    {name : String} {t : Tree} (hentry : entries name = some t) : t.HostFree :=
  fun obj hobj => h obj (has_table_iff.mpr ⟨name, t, hentry, hobj⟩)

end Tree

/-! ### Comparisons -/

open MiniMl.Tree (AllHostFree AnyAt forall_anyAt_cons_iff forall_at_form_iff forall_at_leaf_iff
  forall_at_table_iff)

/-- The answer of a comparison says whether two trees without host objects are identical, and that
no NaN in them stands in the way. -/
def Decides (c : Identity) (same : Bool) (t t' : Tree) : Prop :=
  t.HostFree → t'.HostFree →
    (same = true ↔ t = t' ∧ ∀ place, t.At .nan place → c.shared place = true)

/-- The answer of a comparison says as much about rows of trees. -/
def DecidesAll (c : Identity) (same : Bool) (ts ts' : List Tree) : Prop :=
  AllHostFree ts → AllHostFree ts' →
    (same = true ↔ ts = ts' ∧ ∀ place, AnyAt .nan ts place → c.shared place = true)

variable {c : Identity} {same same' : Bool} {t t' : Tree} {ts ts' : List Tree}

namespace DecidesAll

theorem nil : DecidesAll c true [] [] :=
  fun _ _ => iff_of_true rfl ⟨rfl, fun _ hplace => by cases hplace⟩

theorem differ (h : ts ≠ ts') : DecidesAll c false ts ts' :=
  fun _ _ => iff_of_false Bool.false_ne_true fun hand => h hand.1

theorem cons (h : Decides c.first same t t') (hs : DecidesAll c.rest same' ts ts') :
    DecidesAll c (same && same') (t :: ts) (t' :: ts') := by
  intro hfree hfree'
  obtain ⟨hfirst, hrest⟩ := Tree.allHostFree_cons_iff.mp hfree
  obtain ⟨hfirst', hrest'⟩ := Tree.allHostFree_cons_iff.mp hfree'
  rw [Bool.and_eq_true, h hfirst hfirst', hs hrest hrest', List.cons.injEq, forall_anyAt_cons_iff]
  exact and_and_and_comm

theorem single (h : Decides c.first same t t') : DecidesAll c same [t] [t'] := by
  have hcons := cons h nil
  rwa [Bool.and_true] at hcons

end DecidesAll

namespace Decides

theorem form {index : Nat} (h : DecidesAll c same ts ts') :
    Decides c same (.form index ts) (.form index ts') := by
  intro hfree hfree'
  rw [h (Tree.hostFree_form_iff.mp hfree) (Tree.hostFree_form_iff.mp hfree'), Tree.form.injEq,
    and_iff_right rfl, forall_at_form_iff]

theorem differ {index index' : Nat} (h : index ≠ index') :
    Decides c false (.form index ts) (.form index' ts') :=
  fun _ _ => iff_of_false Bool.false_ne_true fun hand => h (Tree.form.inj hand.1).1

theorem number (m n : Number) :
    Decides c (m.same (c.shared []) n) (.leaf (.number m.value)) (.leaf (.number n.value)) := by
  intro _ _
  rw [Number.same_iff, Tree.leaf.injEq, Leaf.number.injEq, forall_at_leaf_iff]
  refine and_congr_right fun hvalue => ?_
  rw [← Number.isNaN_eq_of_value_eq hvalue, and_self, Leaf.nan, Leaf.number.injEq,
    ← Number.isNaN_eq_true_iff, ← Bool.not_eq_true, or_comm, imp_iff_not_or]

/-- What is compared as it is, and is no leaf. -/
theorem content {α : Type} [BEq α] [LawfulBEq α] {tree : α → Tree}
    (hinj : ∀ {x y}, tree x = tree y → x = y) (hleaf : ∀ x l place, ¬ (tree x).At l place)
    (x y : α) : Decides c (x == y) (tree x) (tree y) := by
  intro _ _
  rw [beq_iff_eq]
  constructor
  · rintro rfl
    exact ⟨rfl, fun place hplace => absurd hplace (hleaf x _ place)⟩
  · exact fun hand => hinj hand.1

theorem text (s s' : String) : Decides c (s == s') (.text s) (.text s') :=
  content Tree.text.inj (fun _ _ _ => by rintro ⟨⟩) s s'

theorem char (a a' : Char) : Decides c (a == a') (.char a) (.char a') :=
  content Tree.char.inj (fun _ _ _ => by rintro ⟨⟩) a a'

theorem flag (b b' : Bool) : Decides c (b == b') (.flag b) (.flag b') :=
  content Tree.flag.inj (fun _ _ _ => by rintro ⟨⟩) b b'

/-- Nothing is said about host objects. -/
theorem host (same : Bool) (obj obj' : HostObject) :
    Decides c same (.leaf (.host obj)) (.leaf (.host obj')) :=
  fun hfree _ => absurd (Tree.has_leaf_iff.mpr rfl) (hfree obj)

end Decides

/-! ### Types -/

namespace Ty

mutual

def tree : Ty → Tree
  | .named name args => .form 0 [.text name, .form 0 (treeAll args)]
  | .arrow arg result => .form 1 [arg.tree, result.tree]
  | .tuple items => .form 2 (treeAll items)
  | .measure base unit => .form 3 [base.tree, .text unit]
  | .host obj => .form 4 [.leaf (.host obj)]

def treeAll : List Ty → List Tree
  | [] => []
  | t :: ts => t.tree :: treeAll ts

end

mutual

theorem same_decides {c : Identity} (a b : Ty) : Decides c (a.same c b) a.tree b.tree := by
  cases a <;> cases b <;> try exact .differ (by decide)
  case named.named name args name' args' =>
    exact .form (.cons (.text name name') (.single (.form (sameAll_decides args args'))))
  case arrow.arrow arg result arg' result' =>
    exact .form (.cons (same_decides arg arg') (.single (same_decides result result')))
  case tuple.tuple items items' => exact .form (sameAll_decides items items')
  case measure.measure base unit base' unit' =>
    exact .form (.cons (same_decides base base') (.single (.text unit unit')))
  case host.host obj obj' => exact .form (.single (.host _ obj obj'))

theorem sameAll_decides {c : Identity} : ∀ as bs : List Ty,
    DecidesAll c (sameAll c as bs) (treeAll as) (treeAll bs)
  | [], [] => .nil
  | [], _ :: _ => .differ (by simp [treeAll])
  | _ :: _, [] => .differ (by simp [treeAll])
  | a :: as, b :: bs => .cons (same_decides a b) (sameAll_decides as bs)

end

end Ty

/-! ### Constants and patterns -/

def Constant.tree : Constant → Tree
  | .int n => .form 0 [.leaf (.number (Number.int n).value)]
  | .float x => .form 1 [.leaf (.number (Number.float x).value)]
  | .bool b => .form 2 [.flag b]
  | .char c => .form 3 [.char c]
  | .string s => .form 4 [.text s]
  | .measure number unit => .form 5 [.leaf (.number number.value), .text unit]
  | .host obj => .form 6 [.leaf (.host obj)]

theorem Constant.same_decides {c : Identity} (a b : Constant) :
    Decides c (a.same c b) a.tree b.tree := by
  cases a <;> cases b <;> try exact .differ (by decide)
  case int.int n n' => exact .form (.single (.number (.int n) (.int n')))
  case float.float x x' => exact .form (.single (.number (.float x) (.float x')))
  case bool.bool b b' => exact .form (.single (.flag b b'))
  case char.char a a' => exact .form (.single (.char a a'))
  case string.string s s' => exact .form (.single (.text s s'))
  case measure.measure number unit number' unit' =>
    exact .form (.cons (.number number number') (.single (.text unit unit')))
  case host.host obj obj' => exact .form (.single (.host _ obj obj'))

namespace Pattern

mutual

def tree : Pattern → Tree
  | .wild => .form 0 []
  | .const c => .form 1 [c.tree]
  | .ident name => .form 2 [.text name]
  | .typed inner ty => .form 3 [inner.tree, ty.tree]
  | .optNone => .form 4 []
  | .optSome inner => .form 5 [inner.tree]
  | .or left right => .form 6 [left.tree, right.tree]
  | .list items => .form 7 (treeAll items)
  | .tuple items => .form 8 (treeAll items)
  | .host obj => .form 9 [.leaf (.host obj)]

def treeAll : List Pattern → List Tree
  | [] => []
  | p :: ps => p.tree :: treeAll ps

end

mutual

theorem same_decides {c : Identity} (a b : Pattern) : Decides c (a.same c b) a.tree b.tree := by
  cases a <;> cases b <;> try exact .differ (by decide)
  case wild.wild => exact .form .nil
  case const.const constant constant' =>
    exact .form (.single (constant.same_decides constant'))
  case ident.ident name name' => exact .form (.single (.text name name'))
  case typed.typed inner ty inner' ty' =>
    exact .form (.cons (same_decides inner inner') (.single (ty.same_decides ty')))
  case optNone.optNone => exact .form .nil
  case optSome.optSome inner inner' => exact .form (.single (same_decides inner inner'))
  case or.or left right left' right' =>
    exact .form (.cons (same_decides left left') (.single (same_decides right right')))
  case list.list items items' => exact .form (sameAll_decides items items')
  case tuple.tuple items items' => exact .form (sameAll_decides items items')
  case host.host obj obj' => exact .form (.single (.host _ obj obj'))

theorem sameAll_decides {c : Identity} : ∀ as bs : List Pattern,
    DecidesAll c (sameAll c as bs) (treeAll as) (treeAll bs)
  | [], [] => .nil
  | [], _ :: _ => .differ (by simp [treeAll])
  | _ :: _, [] => .differ (by simp [treeAll])
  | a :: as, b :: bs => .cons (same_decides a b) (sameAll_decides as bs)

end

end Pattern

/-! ### Expressions and declarations -/

namespace Expr

mutual

def tree : Expr → Tree
  | .const c => .form 0 [c.tree]
  | .ident name => .form 1 [.text name]
  | .typed inner ty => .form 2 [inner.tree, ty.tree]
  | .list items => .form 3 (treeAll items)
  | .tuple items => .form 4 (treeAll items)
  | .lambda param body => .form 5 [param.tree, body.tree]
  | .ifThen cond yes => .form 6 [cond.tree, yes.tree]
  | .ifThenElse cond yes no => .form 7 [cond.tree, yes.tree, no.tree]
  | .optNone => .form 8 []
  | .optSome inner => .form 9 [inner.tree]
  | .matchWith scrutinee rules => .form 10 [scrutinee.tree, .form 0 (clauseTrees rules)]
  | .function rules => .form 11 (clauseTrees rules)
  | .apply func arg => .form 12 [func.tree, arg.tree]
  | .letIn recursive bindings body =>
    .form 13 [.flag recursive, .form 0 (clauseTrees bindings), body.tree]
  | .host obj => .form 14 [.leaf (.host obj)]

def treeAll : List Expr → List Tree
  | [] => []
  | e :: es => e.tree :: treeAll es

def clauseTrees : List (Clause Expr) → List Tree
  | [] => []
  | ⟨pattern, body⟩ :: rest => .form 0 [pattern.tree, body.tree] :: clauseTrees rest

end

mutual

theorem same_decides {c : Identity} (a b : Expr) : Decides c (a.same c b) a.tree b.tree := by
  cases a <;> cases b <;> try exact .differ (by decide)
  case const.const constant constant' =>
    exact .form (.single (constant.same_decides constant'))
  case ident.ident name name' => exact .form (.single (.text name name'))
  case typed.typed inner ty inner' ty' =>
    exact .form (.cons (same_decides inner inner') (.single (ty.same_decides ty')))
  case list.list items items' => exact .form (sameAll_decides items items')
  case tuple.tuple items items' => exact .form (sameAll_decides items items')
  case lambda.lambda param body param' body' =>
    exact .form (.cons (param.same_decides param') (.single (same_decides body body')))
  case ifThen.ifThen cond yes cond' yes' =>
    exact .form (.cons (same_decides cond cond') (.single (same_decides yes yes')))
  case ifThenElse.ifThenElse cond yes no cond' yes' no' =>
    exact .form (.cons (same_decides cond cond') (.cons (same_decides yes yes')
      (.single (same_decides no no'))))
  case optNone.optNone => exact .form .nil
  case optSome.optSome inner inner' => exact .form (.single (same_decides inner inner'))
  case matchWith.matchWith scrutinee rules scrutinee' rules' =>
    exact .form (.cons (same_decides scrutinee scrutinee')
      (.single (.form (sameClauses_decides rules rules'))))
  case function.function rules rules' => exact .form (sameClauses_decides rules rules')
  case apply.apply func arg func' arg' =>
    exact .form (.cons (same_decides func func') (.single (same_decides arg arg')))
  case letIn.letIn recursive bindings body recursive' bindings' body' =>
    exact .form (.cons (.flag recursive recursive')
      (.cons (.form (sameClauses_decides bindings bindings')) (.single (same_decides body body'))))
  case host.host obj obj' => exact .form (.single (.host _ obj obj'))

theorem sameAll_decides {c : Identity} : ∀ as bs : List Expr,
    DecidesAll c (sameAll c as bs) (treeAll as) (treeAll bs)
  | [], [] => .nil
  | [], _ :: _ => .differ (by simp [treeAll])
  | _ :: _, [] => .differ (by simp [treeAll])
  | a :: as, b :: bs => .cons (same_decides a b) (sameAll_decides as bs)

private theorem sameClauses_decides {c : Identity} : ∀ as bs : List (Clause Expr),
    DecidesAll c (sameClauses c as bs) (clauseTrees as) (clauseTrees bs)
  | [], [] => .nil
  | [], _ :: _ => .differ (by simp [clauseTrees])
  | _ :: _, [] => .differ (by simp [clauseTrees])
  | ⟨pattern, body⟩ :: as, ⟨pattern', body'⟩ :: bs =>
    .cons (.form (.cons (pattern.same_decides pattern') (.single (same_decides body body'))))
      (sameClauses_decides as bs)

end

end Expr

def Clause.tree (clause : Clause Expr) : Tree :=
  .form 0 [clause.pattern.tree, clause.body.tree]

theorem Clause.same_decides {c : Identity} (a b : Clause Expr) :
    Decides c (a.same c b) a.tree b.tree :=
  .form (.cons (a.pattern.same_decides b.pattern) (.single (a.body.same_decides b.body)))

def Decl.tree : Decl → Tree
  | .letDecl recursive bindings => .form 0 [.flag recursive, .form 0 (Expr.clauseTrees bindings)]
  | .expr e => .form 1 [e.tree]
  | .host obj => .form 2 [.leaf (.host obj)]

theorem Decl.same_decides {c : Identity} (a b : Decl) : Decides c (a.same c b) a.tree b.tree := by
  cases a <;> cases b <;> try exact .differ (by decide)
  case letDecl.letDecl recursive bindings recursive' bindings' =>
    exact .form (.cons (.flag recursive recursive')
      (.single (.form (Expr.sameClauses_decides bindings bindings'))))
  case expr.expr e e' => exact .form (.single (e.same_decides e'))
  case host.host obj obj' => exact .form (.single (.host _ obj obj'))

/-! ### Frames of definitions -/

/-- A frame is a map from its names to expressions. -/
def definitionsTree (definitions : List (String × Expr)) : Tree :=
  .table fun name => (definitions.lookup name).map Expr.tree

private theorem sameDefinitions_iff {definitions definitions' : List (String × Expr)} :
    sameDefinitions c definitions definitions' = true
      ↔ ∀ name, sameFound (c.after (.under name)) (definitions.lookup name)
          (definitions'.lookup name) = true := by
  rw [sameDefinitions, List.all_eq_true]
  constructor
  · intro h name
    by_cases hname : name ∈ (definitions ++ definitions').map Prod.fst
    · obtain ⟨entry, hentry, rfl⟩ := List.mem_map.mp hname
      exact h entry hentry
    · rw [List.map_append, List.mem_append, not_or, ← lookup_eq_none_iff_not_mem,
        ← lookup_eq_none_iff_not_mem] at hname
      rw [hname.1, hname.2]
      rfl
  · intro h entry _
    exact h entry.1

private theorem sameFound_iff {found found' : Option Expr}
    (hfree : ∀ t, found.map Expr.tree = some t → t.HostFree)
    (hfree' : ∀ t, found'.map Expr.tree = some t → t.HostFree) :
    sameFound c found found' = true ↔ found.map Expr.tree = found'.map Expr.tree
      ∧ ∀ t, found.map Expr.tree = some t → ∀ place, t.At .nan place → c.shared place = true := by
  cases found with
  | some e =>
      cases found' with
      | some e' =>
          rw [sameFound, e.same_decides e' (hfree _ rfl) (hfree' _ rfl)]
          simp
      | none => simp [sameFound]
  | none => cases found' <;> simp [sameFound]

private theorem sameDefinitions_decides (definitions definitions' : List (String × Expr)) :
    Decides c (sameDefinitions c definitions definitions')
      (definitionsTree definitions) (definitionsTree definitions') := by
  intro hfree hfree'
  rw [sameDefinitions_iff, definitionsTree, definitionsTree, Tree.table.injEq,
    forall_at_table_iff, funext_iff, ← forall_and]
  exact forall_congr' fun name =>
    sameFound_iff (fun _ => hfree.entry) (fun _ => hfree'.entry)

/-! ### Values and environments -/

mutual

def Value.tree : Value → Tree
  | .int n => .form 0 [.leaf (.number (Number.int n).value)]
  | .float x => .form 1 [.leaf (.number (Number.float x).value)]
  | .bool b => .form 2 [.flag b]
  | .char text => .form 3 [.text text]
  | .string s => .form 4 [.text s]
  | .unit => .form 5 []
  | .list items => .form 6 (Value.treeAll items)
  | .tuple items => .form 7 (Value.treeAll items)
  | .optNone => .form 8 []
  | .optSome inner => .form 9 [inner.tree]
  | .closure param body env recursive =>
    .form 10 [param.tree, body.tree, env.tree, .flag recursive]
  | .function rules env => .form 11 [.form 0 (Expr.clauseTrees rules), env.tree]
  | .openFunction rules => .form 12 (Expr.clauseTrees rules)
  | .host obj => .form 13 [.leaf (.host obj)]

def Value.treeAll : List Value → List Tree
  | [] => []
  | v :: vs => v.tree :: Value.treeAll vs

def Env.tree : Env → Tree
  | .empty => .form 0 []
  | .extend parent name value => .form 1 [.text name, value.tree, parent.tree]
  | .recursive parent definitions => .form 2 [definitionsTree definitions, parent.tree]

end

mutual

theorem Value.same_decides {c : Identity} (a b : Value) : Decides c (a.same c b) a.tree b.tree := by
  cases a <;> cases b <;> try exact .differ (by decide)
  case int.int n n' => exact .form (.single (.number (.int n) (.int n')))
  case float.float x x' => exact .form (.single (.number (.float x) (.float x')))
  case bool.bool b b' => exact .form (.single (.flag b b'))
  case char.char text text' => exact .form (.single (.text text text'))
  case string.string s s' => exact .form (.single (.text s s'))
  case unit.unit => exact .form .nil
  case list.list items items' => exact .form (Value.sameAll_decides items items')
  case tuple.tuple items items' => exact .form (Value.sameAll_decides items items')
  case optNone.optNone => exact .form .nil
  case optSome.optSome inner inner' => exact .form (.single (Value.same_decides inner inner'))
  case closure.closure param body env recursive param' body' env' recursive' =>
    exact .form (.cons (param.same_decides param') (.cons (body.same_decides body')
      (.cons (Env.same_decides env env') (.single (.flag recursive recursive')))))
  case function.function rules env rules' env' =>
    exact .form (.cons (.form (Expr.sameClauses_decides rules rules'))
      (.single (Env.same_decides env env')))
  case openFunction.openFunction rules rules' => exact .form (Expr.sameClauses_decides rules rules')
  case host.host obj obj' => exact .form (.single (.host _ obj obj'))

theorem Value.sameAll_decides {c : Identity} : ∀ as bs : List Value,
    DecidesAll c (Value.sameAll c as bs) (Value.treeAll as) (Value.treeAll bs)
  | [], [] => .nil
  | [], _ :: _ => .differ (by simp [Value.treeAll])
  | _ :: _, [] => .differ (by simp [Value.treeAll])
  | a :: as, b :: bs => .cons (Value.same_decides a b) (Value.sameAll_decides as bs)

theorem Env.same_decides {c : Identity} (a b : Env) : Decides c (a.same c b) a.tree b.tree := by
  cases a <;> cases b <;> try exact .differ (by decide)
  case empty.empty => exact .form .nil
  case extend.extend parent name value parent' name' value' =>
    exact .form (.cons (.text name name') (.cons (Value.same_decides value value')
      (.single (Env.same_decides parent parent'))))
  case recursive.recursive parent definitions parent' definitions' =>
    exact .form (.cons (sameDefinitions_decides definitions definitions')
      (.single (Env.same_decides parent parent')))

end

/-! ### Nodes -/

namespace Node

def tree : Node → Tree
  | .ty t => .form 0 [t.tree]
  | .constant c => .form 1 [c.tree]
  | .pattern p => .form 2 [p.tree]
  | .expr e => .form 3 [e.tree]
  | .rule r => .form 4 [Clause.tree r]
  | .binding b => .form 5 [Clause.tree b]
  | .decl d => .form 6 [d.tree]
  | .value v => .form 7 [v.tree]
  | .env scope => .form 8 [scope.tree]
  | .host obj => .form 9 [.leaf (.host obj)]

theorem same_decides {c : Identity} (a b : Node) : Decides c (a.same c b) a.tree b.tree := by
  cases a <;> cases b <;> try exact .differ (by decide)
  case ty.ty t t' => exact .form (.single (t.same_decides t'))
  case constant.constant literal literal' =>
    exact .form (.single (literal.same_decides literal'))
  case pattern.pattern p p' => exact .form (.single (p.same_decides p'))
  case expr.expr e e' => exact .form (.single (e.same_decides e'))
  case rule.rule r r' => exact .form (.single (Clause.same_decides r r'))
  case binding.binding c c' => exact .form (.single (Clause.same_decides c c'))
  case decl.decl d d' => exact .form (.single (d.same_decides d'))
  case value.value v v' => exact .form (.single (v.same_decides v'))
  case env.env scope scope' => exact .form (.single (scope.same_decides scope'))
  case host.host obj obj' => exact .form (.single (.host _ obj obj'))

end Node

end MiniMl
