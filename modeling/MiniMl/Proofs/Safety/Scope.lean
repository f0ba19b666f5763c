import MiniMl.Proofs.FreeNames
import MiniMl.Proofs.Safety.Discipline
/-!
# Scope

Code is closed in an environment that has all its free names. Closures keep the environment that
their code is closed in, and a recursive frame has the names that its definitions may use, so
closedness is a lawful discipline when functions capture their environment. Closed code then never
reads a name that has no value. A function without environment runs where it is applied, and no such
function is closed.
-/

namespace MiniMl

/-- Code reads only names of its environment, and there are no functions without one. -/
def closedness : Discipline where
  code env e := ∀ name ∈ e.freeNames, name ∈ env.names
  openRules _ := False
  definition _ := True
  tupleSize _ := True

/-- All closures and recursive frames that can be reached from the environment are closed. -/
def Env.Closed (env : Env) : Prop :=
  env.Obeys closedness

/-! ### Programs -/

namespace Decl

/-- The names that a declaration reads from the environment before it. -/
def freeNames : Decl → List String
  | .letDecl true bindings => without (Expr.freeNamesOfBodies bindings) (sureLetNames bindings)
  | .letDecl false bindings => Expr.freeNamesOfBodies bindings
  | .expr e => e.freeNames
  | .host _ => []

/-- The names that a declaration is sure to add. -/
def sureNames : Decl → List String
  | .letDecl _ bindings => sureLetNames bindings
  | .expr _ | .host _ => []

end Decl

/-- Each declaration reads only the given names and those of the declarations before it. -/
def ClosedProgram (names : List String) : List Decl → Prop
  | [] => True
  | decl :: rest =>
    (∀ name ∈ decl.freeNames, name ∈ names) ∧ ClosedProgram (decl.sureNames ++ names) rest

theorem ClosedProgram.nestedLets {names : List String} {program : List Decl}
    (h : ClosedProgram names program) {name : String}
    (hname : name ∈ (nestedLets program .optNone).freeNames) : name ∈ names := by
  induction program generalizing names with
  | nil => cases hname
  | cons decl rest ih =>
      have hrest := ih h.2
      cases decl with
      | letDecl recursive bindings =>
          cases recursive with
          | true =>
              obtain ⟨hread, hnew⟩ := mem_without.mp hname
              rcases List.mem_append.mp hread with hread | hread
              · exact h.1 name (mem_without.mpr ⟨hread, hnew⟩)
              · exact (List.mem_append.mp (hrest hread)).resolve_left hnew
          | false =>
              rcases List.mem_append.mp hname with hread | hread
              · exact h.1 name hread
              · obtain ⟨hread, hnew⟩ := mem_without.mp hread
                exact (List.mem_append.mp (hrest hread)).resolve_left hnew
      | expr e =>
          rcases List.mem_append.mp hname with hread | hread
          · rw [Expr.freeNamesOfBodies, Expr.freeNamesOfBodies, List.append_nil] at hread
            exact h.1 name hread
          · exact hrest (mem_without.mp hread).1
      | host obj => cases hname

/-! ### The laws -/

/-- An expression reads what its parts read that share its environment. -/
theorem Expr.freeNames_part {e part : Expr} (hpart : part ∈ e.parts) {name : String}
    (hname : name ∈ part.freeNames) : name ∈ e.freeNames := by
  cases e with
  | typed inner ty =>
      rw [List.mem_singleton.mp hpart] at hname
      exact hname
  | list items => exact Expr.mem_freeNamesAll.mpr ⟨part, hpart, hname⟩
  | tuple items => exact Expr.mem_freeNamesAll.mpr ⟨part, hpart, hname⟩
  | ifThen cond yes =>
      simp only [Expr.parts, List.mem_cons, List.not_mem_nil, or_false] at hpart
      rw [Expr.freeNames, List.mem_append]
      rcases hpart with rfl | rfl
      · exact .inl hname
      · exact .inr hname
  | ifThenElse cond yes no =>
      simp only [Expr.parts, List.mem_cons, List.not_mem_nil, or_false] at hpart
      rw [Expr.freeNames, List.mem_append, List.mem_append]
      rcases hpart with rfl | rfl | rfl
      · exact .inl (.inl hname)
      · exact .inl (.inr hname)
      · exact .inr hname
  | optSome inner =>
      rw [List.mem_singleton.mp hpart] at hname
      exact hname
  | matchWith scrutinee rules =>
      rw [List.mem_singleton.mp hpart] at hname
      exact List.mem_append_left _ hname
  | apply func arg =>
      cases hoperator : func.appliedOperator? with
      | some operation =>
          obtain ⟨rfl, hsymbol⟩ := Expr.eq_of_appliedOperator? hoperator
          simp only [Expr.parts, hoperator, List.mem_cons, List.not_mem_nil, or_false] at hpart
          rw [Expr.freeNames_operator hsymbol, List.mem_append]
          rcases hpart with rfl | rfl
          · exact .inl hname
          · exact .inr hname
      | none =>
          simp only [Expr.parts, hoperator, List.mem_cons, List.not_mem_nil, or_false] at hpart
          rw [Expr.freeNames_apply hoperator, List.mem_append]
          rcases hpart with rfl | rfl
          · exact .inl hname
          · exact .inr hname
  | letIn recursive bindings body =>
      cases recursive with
      | true => cases hpart
      | false =>
          obtain ⟨binding, hbinding, rfl⟩ := List.mem_map.mp hpart
          exact List.mem_append_left _ (Expr.mem_freeNamesOfBodies.mpr ⟨binding, hbinding, hname⟩)
  | _ => cases hpart

namespace Env

private theorem mem_names_matched {env matched : Env} {p : Pattern} {value : Value}
    (h : p.match? env value = some matched) {name : String}
    (hname : name ∈ p.sureNames ∨ name ∈ env.names) : name ∈ matched.names := by
  obtain ⟨bindings, hbindings, rfl⟩ := Pattern.match?_eq_some_iff.mp h
  rw [mem_names, mem_frameNames_extendAll]
  rcases hname with hname | hname
  · exact .inl (p.mem_bindings_of_mem_sureNames hbindings hname)
  · exact .inr (mem_names.mp hname)

private theorem mem_names_matchedAll {env matched : Env} {ps : List Pattern} {values : List Value}
    (h : Pattern.matchAll? env ps values = some matched) {name : String}
    (hname : name ∈ Pattern.sureNamesAll ps ∨ name ∈ env.names) : name ∈ matched.names := by
  obtain ⟨bindings, hbindings, rfl⟩ := Pattern.matchAll?_eq_some_iff.mp h
  rw [mem_names, mem_frameNames_extendAll]
  rcases hname with hname | hname
  · exact .inl (Pattern.mem_bindings_of_mem_sureNamesAll ps hbindings hname)
  · exact .inr (mem_names.mp hname)

private theorem mem_names_recursive {env : Env} {bindings : List Binding}
    {definitions : List (String × Expr)} (h : definitionsOf bindings = .ok definitions)
    {name : String} (hname : name ∈ sureLetNames bindings ∨ name ∈ env.names) :
    name ∈ (Env.recursive env definitions).names := by
  rw [mem_names, frameNames, List.mem_append, map_fst_definitionsOf h]
  rcases hname with hname | hname
  · exact .inl (Pattern.sureNamesAll_subset _ hname)
  · exact .inr (mem_names.mp hname)

end Env

/-- No identifier was read that has no value. -/
def Failure.InScope (failure : Failure) : Prop :=
  ∀ e, failure = .error e → e.kind ≠ .unboundIdentifier

theorem Failure.InScope.of_kind {e : EvalError} (h : e.kind ≠ .unboundIdentifier) :
    (Failure.error e).InScope := by
  intro other heq
  cases heq
  exact h

theorem closedness_lawful {settings : Settings} (hcapture : settings.captureFunctionEnv = true) :
    closedness.Lawful settings Failure.InScope where
  part h hpart name hname := h name (Expr.freeNames_part hpart hname)
  rules h name hname := h name (List.mem_append_right _ hname)
  rule := by
    intro env rules rule value matched h hrule hmatch name hname
    have hbody : ∀ name ∈ without rule.body.freeNames rule.pattern.sureNames, name ∈ env.names :=
      fun name hname => h name (Expr.mem_freeNamesOfRules.mpr ⟨rule, hrule, hname⟩)
    exact Env.mem_names_matched hmatch (bound_or_mem_of_without hbody hname)
  body := by
    intro env param body value matched h hmatch name hname
    exact Env.mem_names_matched hmatch (bound_or_mem_of_without h hname)
  letBody := by
    intro env bindings body values matched h hmatch name hname
    have hbody : ∀ name ∈ without body.freeNames (sureLetNames bindings), name ∈ env.names :=
      fun name hname => h name (List.mem_append_right _ hname)
    exact Env.mem_names_matchedAll hmatch (bound_or_mem_of_without hbody hname)
  letRec := by
    intro env bindings body definitions h hdefinitions
    -- One scope serves the body and all right-hand sides.
    have hscope : ∀ name ∈ Expr.freeNamesOfBodies bindings ++ body.freeNames,
        name ∈ (Env.recursive env definitions).names := by
      intro name hname
      exact Env.mem_names_recursive hdefinitions (bound_or_mem_of_without h hname)
    refine ⟨fun name hname => hscope name (List.mem_append_right _ hname), ?_⟩
    intro entry hentry
    obtain ⟨binding, hbinding, -, hbody, -⟩ :=
      exists_binding_of_mem_definitionsOf hdefinitions hentry
    refine ⟨trivial, fun name hname => hscope name (List.mem_append_left _ ?_)⟩
    rw [hbody] at hname
    exact Expr.mem_freeNamesOfBodies.mpr ⟨binding, hbinding, hname⟩
  openRules hopen _ := by
    rw [hcapture] at hopen
    cases hopen
  closeRules h := h.elim
  tuple _ := trivial
  shortTuple _ _ _ h := by cases h
  lookup := by
    intro env name failure h _ hfind e he
    rw [he] at hfind
    exact absurd (Env.mem_names.mp (h name List.mem_cons_self)) (Env.find_eq_error_iff.mp hfind).2
  noRule _ _ := .of_kind (by simp [EvalError.kind])
  argument _ _ := .of_kind (by simp [EvalError.kind])
  letValue _ _ _ := .of_kind (by simp [EvalError.kind])
  tooDeep _ h := by cases h
  other _ hkind _ _ := .of_kind hkind

/-! ### Closed code -/

/-- When functions capture their environment, no closed expression and no closed program reads an
identifier without a value, however deep it may nest. -/
theorem inScope_of_closed (settings : Settings) (hcapture : settings.captureFunctionEnv = true)
    {env : Env} (henv : env.Closed) :
    (∀ e : Expr, (∀ name ∈ e.freeNames, name ∈ env.names) → ∀ err : EvalError,
      (evaluate settings e env).outcome = .error (.error err) → err.kind ≠ .unboundIdentifier)
    ∧ ∀ program : List Decl, ClosedProgram env.names program → ∀ err : EvalError,
      (interpret settings program env).outcome = .error (.error err) →
        err.kind ≠ .unboundIdentifier := by
  have hlawful := closedness_lawful hcapture
  constructor
  · intro e he err herror
    exact (hlawful.evaluate_stays henv he).error herror err rfl
  · intro program hprogram err herror
    have hnested := hlawful.interpret_stays henv fun name => hprogram.nestedLets
    exact hnested.error herror err rfl

/-- A definition calls itself from its frame, and either side of an alternative binds the name that
is read after it. The operators have no value in the environment. -/
theorem inScope_of_countdown :
    let down : Expr := .lambda (.ident "n")
      (.ifThen (.apply (.apply (.ident ">") (.ident "n")) (.const (.int 0)))
        (.apply (.ident "down") (.apply (.apply (.ident "-") (.ident "n")) (.const (.int 1)))))
    let env : Env := .recursive .empty [("down", down)]
    let e : Expr := .matchWith (.apply (.ident "down") (.const (.int 3)))
      [⟨.or (.optSome (.ident "x")) (.ident "x"), .ident "x"⟩]
    let program : List Decl := [.letDecl false [⟨.ident "y", e⟩], .expr (.ident "y")]
    ({} : Settings).captureFunctionEnv = true ∧ env.Closed
      ∧ (∀ name ∈ e.freeNames, name ∈ env.names) ∧ ClosedProgram env.names program
      ∧ (∀ err : EvalError, (evaluate {} e env).outcome = .error (.error err) →
        err.kind ≠ .unboundIdentifier)
      ∧ ∀ err : EvalError, (interpret {} program env).outcome = .error (.error err) →
        err.kind ≠ .unboundIdentifier := by
  intro down env e program
  have henv : env.Closed := by
    refine ⟨trivial, fun entry hentry => ?_⟩
    rw [List.mem_singleton.mp hentry]
    exact ⟨trivial, show ∀ name ∈ down.freeNames, name ∈ env.names by decide⟩
  have he : ∀ name ∈ e.freeNames, name ∈ env.names := by decide
  have hprogram : ClosedProgram env.names program :=
    ⟨by decide, by decide, trivial⟩
  have hscope := inScope_of_closed {} rfl henv
  exact ⟨rfl, henv, he, hprogram, hscope.1 e he, hscope.2 program hprogram⟩

end MiniMl
