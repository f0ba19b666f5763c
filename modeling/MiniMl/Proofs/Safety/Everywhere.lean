import MiniMl.Proofs.Safety.Discipline
/-!
# Properties of all code

A demand on the form of expressions is made of every expression in the code at hand: `Everywhere`
goes down through the children, under binders and into right-hand sides alike. Evaluation makes no
code of its own, so such a demand is a lawful discipline: it holds of all code that an evaluation
comes by, if it holds of all code that can be reached at the start. All it has to provide for is
that the rules of a match are taken for a function by rules once the scrutinee is evaluated.
-/

namespace MiniMl

namespace Expr

/-- The expressions directly under an expression. -/
def children : Expr → List Expr
  | .typed inner _ => [inner]
  | .list items => items
  | .tuple items => items
  | .lambda _ body => [body]
  | .ifThen cond yes => [cond, yes]
  | .ifThenElse cond yes no => [cond, yes, no]
  | .optSome inner => [inner]
  | .matchWith scrutinee rules => scrutinee :: rules.map Clause.body
  | .function rules => rules.map Clause.body
  | .apply func arg => [func, arg]
  | .letIn _ bindings body => body :: bindings.map Clause.body
  | .const _ | .ident _ | .optNone | .host _ => []

private theorem sizeOf_lt_of_mem_children {e child : Expr} (h : child ∈ e.children) :
    sizeOf child < sizeOf e := by
  have hclauses : ∀ {clauses : List (Clause Expr)}, child ∈ clauses.map Clause.body →
      sizeOf child < sizeOf clauses := by
    intro clauses hmem
    obtain ⟨⟨pattern, body⟩, hclause, rfl⟩ := List.mem_map.mp hmem
    have hlt := List.sizeOf_lt_of_mem hclause
    rw [Clause.mk.sizeOf_spec] at hlt
    show sizeOf body < sizeOf clauses
    omega
  cases e with
  | list items =>
      have hlt : sizeOf child < sizeOf items := List.sizeOf_lt_of_mem h
      rw [list.sizeOf_spec]
      omega
  | tuple items =>
      have hlt : sizeOf child < sizeOf items := List.sizeOf_lt_of_mem h
      rw [tuple.sizeOf_spec]
      omega
  | function rules =>
      have hlt := hclauses h
      rw [function.sizeOf_spec]
      omega
  | matchWith scrutinee rules =>
      rw [matchWith.sizeOf_spec]
      rcases List.mem_cons.mp h with rfl | h
      · omega
      · have hlt := hclauses h
        omega
  | letIn recursive bindings body =>
      rw [letIn.sizeOf_spec]
      rcases List.mem_cons.mp h with rfl | h
      · omega
      · have hlt := hclauses h
        omega
  | const | ident | optNone | host => cases h
  | _ =>
      simp only [children, List.mem_cons, List.not_mem_nil, or_false] at h
      rcases h with rfl | rfl | rfl <;> simp <;> omega

/-- What an expression has from its children, all expressions have. -/
theorem induction_children {P : Expr → Prop}
    (h : ∀ e, (∀ child ∈ e.children, P child) → P e) (e : Expr) : P e :=
  h e fun child _ => induction_children h child
termination_by sizeOf e
decreasing_by exact sizeOf_lt_of_mem_children ‹_›

/-- The property holds of the expression and of all expressions in it. -/
inductive Everywhere (P : Expr → Prop) : Expr → Prop
  | intro {e : Expr} (hself : P e) (hchildren : ∀ child ∈ e.children, Everywhere P child) :
      Everywhere P e

namespace Everywhere

variable {P : Expr → Prop}

theorem of_children_eq_nil {e : Expr} (hself : P e) (h : e.children = []) : e.Everywhere P :=
  .intro hself (by simp [h])

theorem self {e : Expr} (h : e.Everywhere P) : P e := by
  cases h with
  | intro hself _ => exact hself

theorem child {e child : Expr} (h : e.Everywhere P) (hchild : child ∈ e.children) :
    child.Everywhere P := by
  cases h with
  | intro _ hchildren => exact hchildren child hchild

theorem clause {clauses : List (Clause Expr)} {e : Expr} (h : e.Everywhere P)
    (hchildren : ∀ body ∈ clauses.map Clause.body, body ∈ e.children) {clause : Clause Expr}
    (hclause : clause ∈ clauses) : clause.body.Everywhere P :=
  h.child (hchildren clause.body (List.mem_map_of_mem hclause))

/-- The parts are children, but for the left operand of an operator, which is a child of a child. -/
theorem part {e part : Expr} (h : e.Everywhere P) (hpart : part ∈ e.parts) :
    part.Everywhere P := by
  cases e with
  | apply func arg =>
      have hfunc : func.Everywhere P := h.child (by simp [children])
      rcases mem_parts_apply hpart with rfl | rfl | ⟨symbol, rfl⟩
      · exact h.child (by simp [children])
      · exact hfunc
      · exact hfunc.child (by simp [children])
  | matchWith scrutinee rules =>
      rw [List.mem_singleton.mp hpart]
      exact h.child List.mem_cons_self
  | letIn recursive bindings body =>
      cases recursive with
      | true => cases hpart
      | false => exact h.child (List.mem_cons_of_mem body hpart)
  | const | ident | lambda | optNone | function | host => cases hpart
  | _ => exact h.child hpart

end Everywhere

end Expr

/-- The property holds of all code. -/
def everywhere (P : Expr → Prop) : Discipline where
  code _ e := e.Everywhere P
  openRules rules := (Expr.function rules).Everywhere P
  definition _ := True
  tupleSize _ := True

theorem everywhere_lawful (settings : Settings) {P : Expr → Prop}
    (hrules : ∀ scrutinee rules, P (.matchWith scrutinee rules) → P (.function rules)) :
    (everywhere P).Lawful settings fun _ => True where
  part h hpart := h.part hpart
  rules h := .intro (hrules _ _ h.self) fun _ hbody => h.child (List.mem_cons_of_mem _ hbody)
  rule h hrule _ := h.clause (fun _ => id) hrule
  body h _ := h.child List.mem_cons_self
  letBody h _ := h.child List.mem_cons_self
  letRec := by
    intro env bindings body definitions h hdefinitions
    refine ⟨h.child List.mem_cons_self, fun entry hentry => ⟨trivial, ?_⟩⟩
    obtain ⟨binding, hbinding, -, hbody, -⟩ :=
      exists_binding_of_mem_definitionsOf hdefinitions hentry
    rw [hbody]
    exact h.clause (fun _ => List.mem_cons_of_mem body) hbinding
  openRules _ h := h
  closeRules h := h
  tuple _ := trivial
  shortTuple _ _ := trivial
  lookup _ _ _ := trivial
  noRule _ _ := trivial
  argument _ _ := trivial
  letValue _ _ _ := trivial
  tooDeep := trivial
  other _ _ _ _ := trivial

end MiniMl
