import MiniMl.Proofs.Safety.Integers
/-!
# Well-formed data stays well-formed

Terms, values and frames are checked where they are made: tuples have two items or more, matches
and functions a rule, lets a binding, and recursive frames hold function literals. Being well-formed
is a lawful discipline, so evaluation never meets data that would be refused: the checks it makes
itself, on tuples, on new frames and on what a frame holds, always pass.
-/

namespace MiniMl

/-! ### Terms -/

mutual

/-- The pattern passes the checks of its constructors. -/
def Pattern.WellFormed : Pattern → Prop
  | .typed inner _ => inner.WellFormed
  | .optSome inner => inner.WellFormed
  | .or left right => left.WellFormed ∧ right.WellFormed
  | .list items => Pattern.AllWellFormed items
  | .tuple items => 2 ≤ items.length ∧ Pattern.AllWellFormed items
  | .wild | .const _ | .ident _ | .optNone | .host _ => True

def Pattern.AllWellFormed : List Pattern → Prop
  | [] => True
  | p :: ps => p.WellFormed ∧ Pattern.AllWellFormed ps

end

mutual

/-- The expression passes the checks of its constructors. -/
def Expr.WellFormed : Expr → Prop
  | .typed inner _ => inner.WellFormed
  | .list items => Expr.AllWellFormed items
  | .tuple items => 2 ≤ items.length ∧ Expr.AllWellFormed items
  | .lambda param body => param.WellFormed ∧ body.WellFormed
  | .ifThen cond yes => cond.WellFormed ∧ yes.WellFormed
  | .ifThenElse cond yes no => cond.WellFormed ∧ yes.WellFormed ∧ no.WellFormed
  | .optSome inner => inner.WellFormed
  | .matchWith scrutinee rules =>
    scrutinee.WellFormed ∧ rules ≠ [] ∧ Expr.ClausesWellFormed rules
  | .function rules => rules ≠ [] ∧ Expr.ClausesWellFormed rules
  | .apply func arg => func.WellFormed ∧ arg.WellFormed
  | .letIn _ bindings body => bindings ≠ [] ∧ Expr.ClausesWellFormed bindings ∧ body.WellFormed
  | .const _ | .ident _ | .optNone | .host _ => True

def Expr.AllWellFormed : List Expr → Prop
  | [] => True
  | e :: es => e.WellFormed ∧ Expr.AllWellFormed es

def Expr.ClausesWellFormed : List (Clause Expr) → Prop
  | [] => True
  | ⟨pattern, body⟩ :: rest =>
    pattern.WellFormed ∧ body.WellFormed ∧ Expr.ClausesWellFormed rest

end

def Decl.WellFormed : Decl → Prop
  | .letDecl _ bindings => bindings ≠ [] ∧ Expr.ClausesWellFormed bindings
  | .expr e => e.WellFormed
  | .host _ => True

private theorem Expr.allWellFormed_iff {es : List Expr} :
    Expr.AllWellFormed es ↔ ∀ e ∈ es, e.WellFormed := by
  induction es with
  | nil => simp [Expr.AllWellFormed]
  | cons e rest ih => simp [Expr.AllWellFormed, ih]

private theorem Expr.clausesWellFormed_iff {clauses : List (Clause Expr)} :
    Expr.ClausesWellFormed clauses
      ↔ ∀ clause ∈ clauses, clause.pattern.WellFormed ∧ clause.body.WellFormed := by
  induction clauses with
  | nil => simp [Expr.ClausesWellFormed]
  | cons clause rest ih => simp [Expr.ClausesWellFormed, ih, and_assoc]

/-! ### Values and environments -/

/-- Code passes the checks of its constructors, also in functions that have no environment; frames
hold function literals and tuples have two items or more. -/
def wellFormedness : Discipline where
  code _ e := e.WellFormed
  openRules rules := (Expr.function rules).WellFormed
  definition e := e.isFunctionLiteral = true
  tupleSize n := 2 ≤ n

/-- The value is well-formed, and so is all that can be reached from it. -/
def Value.WellFormed (value : Value) : Prop :=
  value.Obeys wellFormedness

/-- The environment is well-formed, and so is all that can be reached from it. -/
def Env.WellFormed (env : Env) : Prop :=
  env.Obeys wellFormedness

/-! ### The laws -/

theorem Expr.WellFormed.part {e part : Expr} (h : e.WellFormed) (hpart : part ∈ e.parts) :
    part.WellFormed := by
  cases e with
  | typed inner ty =>
      rw [List.mem_singleton.mp hpart]
      exact h
  | list items => exact Expr.allWellFormed_iff.mp h part hpart
  | tuple items => exact Expr.allWellFormed_iff.mp h.2 part hpart
  | ifThen cond yes =>
      simp only [Expr.parts, List.mem_cons, List.not_mem_nil, or_false] at hpart
      rcases hpart with rfl | rfl
      · exact h.1
      · exact h.2
  | ifThenElse cond yes no =>
      simp only [Expr.parts, List.mem_cons, List.not_mem_nil, or_false] at hpart
      rcases hpart with rfl | rfl | rfl
      · exact h.1
      · exact h.2.1
      · exact h.2.2
  | optSome inner =>
      rw [List.mem_singleton.mp hpart]
      exact h
  | matchWith scrutinee rules =>
      rw [List.mem_singleton.mp hpart]
      exact h.1
  | apply func arg =>
      rcases Expr.mem_parts_apply hpart with rfl | rfl | ⟨symbol, rfl⟩
      · exact h.2
      · exact h.1
      · exact h.1.2
  | letIn recursive bindings body =>
      cases recursive with
      | true => cases hpart
      | false =>
          obtain ⟨binding, hbinding, rfl⟩ := List.mem_map.mp hpart
          exact (Expr.clausesWellFormed_iff.mp h.2.1 binding hbinding).2
  | _ => cases hpart

private theorem Env.WellFormed.evalError_of_find {env : Env} (henv : env.WellFormed) {name : String}
    {failure : Failure} (h : env.find name = .error failure) : ∃ e, failure = .error e := by
  rcases Env.Obeys.find_error henv h with hunbound | ⟨frame, e, hliteral, -, hnone, -⟩
  · exact ⟨_, hunbound⟩
  · cases hliteral.symm.trans hnone

/-- Only evaluation errors and the depth limit are left as failures. -/
def Failure.Expected (settings : Settings) (failure : Failure) : Prop :=
  (∃ e, failure = .error e) ∨ failure = .tooDeep settings.maxDepth

theorem wellFormedness_lawful (settings : Settings) :
    wellFormedness.Lawful settings (Failure.Expected settings) where
  part h hpart := Expr.WellFormed.part h hpart
  rules h := h.2
  rule h hrule _ := (Expr.clausesWellFormed_iff.mp h.2 _ hrule).2
  body h _ := h.2
  letBody h _ := h.2.2
  letRec := by
    intro env bindings body definitions h hdefinitions
    refine ⟨h.2.2, fun entry hentry => ?_⟩
    obtain ⟨binding, hbinding, -, hbody, hliteral⟩ :=
      exists_binding_of_mem_definitionsOf hdefinitions hentry
    refine ⟨hliteral, ?_⟩
    rw [hbody]
    exact (Expr.clausesWellFormed_iff.mp h.2.1 binding hbinding).2
  openRules _ h := h
  closeRules h := h
  tuple h := h.1
  shortTuple h hshort := absurd h.1 hshort
  lookup _ henv hfind := .inl (Env.WellFormed.evalError_of_find henv hfind)
  noRule _ _ := .inl ⟨_, rfl⟩
  argument _ _ := .inl ⟨_, rfl⟩
  letValue _ _ _ := .inl ⟨_, rfl⟩
  tooDeep := .inr rfl
  other e _ _ _ := .inl ⟨e, rfl⟩

private theorem nestedLets_wellFormed {program : List Decl} (h : ∀ decl ∈ program, decl.WellFormed)
    {last : Expr} (hlast : last.WellFormed) : (nestedLets program last).WellFormed := by
  induction program with
  | nil => exact hlast
  | cons decl rest ih =>
      have hdecl := h decl List.mem_cons_self
      have hrest := ih fun other hother => h other (List.mem_cons_of_mem decl hother)
      cases decl with
      | letDecl recursive bindings => exact ⟨hdecl.1, hdecl.2, hrest⟩
      | expr e => exact ⟨List.cons_ne_nil _ _, ⟨trivial, hdecl, trivial⟩, hrest⟩
      | host obj => trivial

/-! ### What evaluation comes to -/

theorem Run.Ends.expected {α : Type} {settings : Settings} {P : α → Prop} {x : Run α}
    (h : x.Ends P (Failure.Expected settings)) :
    (∃ a, x.outcome = .ok a ∧ P a) ∨ (∃ e, x.outcome = .error (.error e))
      ∨ x.outcome = .error (.tooDeep settings.maxDepth) := by
  cases houtcome : x.outcome with
  | ok a => exact .inl ⟨a, rfl, h.ok houtcome⟩
  | error failure =>
      rcases h.error houtcome with ⟨e, rfl⟩ | rfl
      · exact .inr (.inl ⟨e, rfl⟩)
      · exact .inr (.inr rfl)

/-- On a host, the run ends in such a result, in an evaluation error, or because the settings or the
host do not let it go deeper. -/
def HostRun.Expected {α : Type} (P : α → Prop) (y : HostRun α) : Prop :=
  (∃ a, y.outcome = .ok a ∧ P a) ∨ (∃ e, y.outcome = .error (.failure (.error e)))
    ∨ ∃ failure, y.outcome = .error failure ∧ failure.isRecursionError = true

/-- The only other end on a host is at an integer that it cannot write. -/
theorem HostRun.Refines.expected {α : Type} {host : Host} {room : Option Nat} {settings : Settings}
    {P : α → Prop} {y : HostRun α} {r : Run α} (h : y.Refines host room r)
    (hr : r.Ends P (Failure.Expected settings)) :
    y.Expected P
      ∨ ∃ n ∈ host.shown r, y.outcome = .error (.unwritable n) ∧ host.writes n = false := by
  rcases h with rfl | ⟨s, hroom, -⟩ | hunwritable
  · refine .inl ?_
    rcases hr.expected with ⟨a, hresult, ha⟩ | ⟨e, herror⟩ | hdeep
    · exact .inl ⟨a, by rw [Run.hosted, hresult]; rfl, ha⟩
    · exact .inr (.inl ⟨e, by rw [Run.hosted, herror]; rfl⟩)
    · exact .inr (.inr ⟨_, by rw [Run.hosted, hdeep]; rfl, rfl⟩)
  · exact .inl (.inr (.inr ⟨_, hroom, rfl⟩))
  · exact .inr hunwritable

/-- Where the host can write what is shown, there is no other end. -/
theorem HostRun.Refines.expected_of_writes {α : Type} {host : Host} {room : Option Nat}
    {settings : Settings} {P : α → Prop} {y : HostRun α} {r : Run α} (h : y.Refines host room r)
    (hr : r.Ends P (Failure.Expected settings))
    (hshown : ∀ n ∈ host.shown r, host.writes n = true) : y.Expected P := by
  rcases h.expected hr with hexpected | ⟨n, hn, -, hwrites⟩
  · exact hexpected
  · rw [hshown n hn] at hwrites
    cases hwrites

end MiniMl
