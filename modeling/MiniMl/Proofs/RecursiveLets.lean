import MiniMl.Proofs.LetBindings
/-!
# What a recursive let comes to

A recursive let looks at its bindings and evaluates nothing. It is refused for a name that its
patterns have a second time, then for the first binding that defines nothing, and otherwise it adds
one frame. The functions of this frame are made when they are looked up, over the environment that
ends in the frame (`Env.find_definition`). So a definition finds in the environment it carries what
was found in the first place, however often a function is taken out of the environment that another
one carries (`Env.unfold_eq_self`).
-/

namespace MiniMl

/-! ### Definitions and refusals -/

/-- The pattern under its outer annotations. -/
def Pattern.stripped : Pattern → Pattern
  | .typed inner _ => inner.stripped
  | p => p

theorem Pattern.recursiveName_eq_ok_iff {p : Pattern} {name : String} :
    p.recursiveName = .ok name ↔ p.stripped = .ident name := by
  fun_induction Pattern.recursiveName p with
  | case1 own => simp [Pattern.stripped]
  | case2 inner ty ih => exact ih
  | case3 p hident htyped =>
      rw [Pattern.stripped.eq_2 p htyped]
      exact ⟨fun h => (by cases h), fun h => absurd h (hident name)⟩

theorem Pattern.recursiveName_eq_error_iff {p : Pattern} {e : EvalError} :
    p.recursiveName = .error e
      ↔ (∀ name, p.stripped ≠ .ident name) ∧ e = .recursivePattern p.stripped := by
  fun_induction Pattern.recursiveName p with
  | case1 own => simp [Pattern.stripped]
  | case2 inner ty ih => exact ih
  | case3 p hident htyped =>
      rw [Pattern.stripped.eq_2 p htyped, Except.error.injEq, eq_comm, iff_and_self]
      exact fun _ => hident

namespace Clause

/-- The binding gives the name a function literal. Both sides may be annotated. -/
def Defines (binding : Binding) (name : String) : Prop :=
  binding.pattern.stripped = .ident name ∧ binding.body.isFunctionLiteral = true

/-- What is held against a binding that defines nothing. The pattern is looked at before the
right-hand side. -/
inductive Refused (binding : Binding) : EvalError → Prop
  | pattern (h : ∀ name, binding.pattern.stripped ≠ .ident name) :
      Refused binding (.recursivePattern binding.pattern.stripped)
  | body {name : String} (hname : binding.pattern.stripped = .ident name)
      (hbody : binding.body.isFunctionLiteral = false) :
      Refused binding (.recursiveNotFunction binding.body)

theorem definition_eq_ok_iff_defines {binding : Binding} {name : String} {e : Expr} :
    binding.definition = .ok (name, e) ↔ binding.Defines name ∧ e = binding.body := by
  rw [definition_eq_ok_iff, Pattern.recursiveName_eq_ok_iff, Defines, and_assoc]

theorem exists_definition_iff {binding : Binding} :
    (∃ definition, binding.definition = .ok definition) ↔ ∃ name, binding.Defines name := by
  simp [definition_eq_ok_iff_defines]

private theorem Refused.of_definition {binding : Binding} {e : EvalError}
    (h : binding.definition = .error e) : binding.Refused e := by
  rw [definition] at h
  cases hname : binding.pattern.recursiveName with
  | error complaint =>
      rw [hname] at h
      cases h
      obtain ⟨hnone, rfl⟩ := Pattern.recursiveName_eq_error_iff.mp hname
      exact .pattern hnone
  | ok name =>
      rw [hname] at h
      simp only [bind, Except.bind] at h
      cases hbody : binding.body.isFunctionLiteral with
      | true => simp [hbody] at h
      | false =>
          simp only [hbody, Bool.false_eq_true, if_false, Except.error.injEq] at h
          rw [← h]
          exact .body (Pattern.recursiveName_eq_ok_iff.mp hname) hbody

theorem Refused.kind {binding : Binding} {e : EvalError} (h : binding.Refused e) :
    e.kind = .notImplemented := by
  cases h <;> rfl

theorem Defines.boundNames {binding : Binding} {name : String} (h : binding.Defines name) :
    binding.pattern.boundNames = [name] :=
  Pattern.boundNames_of_recursiveName (Pattern.recursiveName_eq_ok_iff.mpr h.1)

end Clause

/-- A name of a let of definitions has a binding that defines it. -/
private theorem exists_defines_of_mem_letNames {bindings : List Binding}
    (hdefines : ∀ binding ∈ bindings, ∃ name, binding.Defines name) {name : String}
    (hname : name ∈ letNames bindings) : ∃ binding ∈ bindings, binding.Defines name := by
  rw [letNames_eq_flatMap, List.mem_flatMap] at hname
  obtain ⟨binding, hbinding, hbound⟩ := hname
  obtain ⟨own, hown⟩ := hdefines binding hbinding
  rw [hown.boundNames, List.mem_singleton] at hbound
  exact ⟨binding, hbinding, hbound ▸ hown⟩

/-! ### Functions of a recursive frame -/

/-- The value is the function literal of the expression, closed over the environment. -/
inductive Value.ClosureOf (env : Env) (e : Expr) : Value → Prop
  | lambda {param : Pattern} {body : Expr} (h : e.stripped = .lambda param body) :
      ClosureOf env e (.closure param body env true)
  | function {rules : List Rule} (h : e.stripped = .function rules) :
      ClosureOf env e (.function rules env)

/-- The environment that a function carries. -/
def Value.carried? : Value → Option Env
  | .closure _ _ env _ => some env
  | .function _ env => some env
  | _ => none

theorem Value.ClosureOf.carried?_eq {env : Env} {e : Expr} {value : Value}
    (h : value.ClosureOf env e) : value.carried? = some env := by
  cases h <;> rfl

namespace Env

/-- Where one gets by looking up names one after the other, each in the environment that the
function found before it carries. -/
def unfold (env : Env) : List String → Option Env
  | [] => some env
  | name :: path =>
    match env.find name with
    | .ok value => value.carried?.bind fun carried => carried.unfold path
    | .error _ => none

theorem exists_closureOf_close (env : Env) {e : Expr} (h : e.isFunctionLiteral = true) :
    ∃ value, env.close e = .ok value ∧ value.ClosureOf env e := by
  cases hclose : env.close e with
  | error m =>
      rw [close_eq_error hclose] at h
      cases h
  | ok value =>
      refine ⟨value, rfl, ?_⟩
      rcases close_eq_ok hclose with ⟨param, body, hstripped, rfl⟩ | ⟨rules, hstripped, rfl⟩
      · exact .lambda hstripped
      · exact .function hstripped

/-- What a recursive frame defines is found as a function that carries the frame itself. -/
theorem find_definition {parent : Env} {definitions : List (String × Expr)} {name : String}
    {e : Expr} (hlookup : definitions.lookup name = some e)
    (hliteral : e.isFunctionLiteral = true) :
    ∃ value, (Env.recursive parent definitions).find name = .ok value
      ∧ value.ClosureOf (.recursive parent definitions) e := by
  obtain ⟨value, hclose, hclosure⟩ :=
    exists_closureOf_close (.recursive parent definitions) hliteral
  refine ⟨value, ?_, hclosure⟩
  rw [find, hlookup]
  simp only [hclose]
  rfl

theorem find_of_not_defined {parent : Env} {definitions : List (String × Expr)} {name : String}
    (h : name ∉ definitions.map Prod.fst) :
    (Env.recursive parent definitions).find name = parent.find name := by
  rw [find, lookup_eq_none_iff_not_mem.mpr h]

/-- Every function that is taken out of an environment carries this environment, so that one never
gets anywhere else. -/
theorem unfold_eq_self {env : Env} {path : List String}
    (h : ∀ name ∈ path, ∃ value, env.find name = .ok value ∧ value.carried? = some env) :
    env.unfold path = some env := by
  induction path with
  | nil => rfl
  | cons name path ih =>
      obtain ⟨value, hfind, hcarried⟩ := h name List.mem_cons_self
      have hrest := ih fun other hother => h other (List.mem_cons_of_mem name hother)
      simp only [unfold, hfind, hcarried, Option.bind_some]
      exact hrest

end Env

/-- The environment is the one in which the definitions of a recursive let see each other. -/
structure RecursiveScope (env : Env) (bindings : List Binding) (scope : Env) : Prop where
  names : ∀ name, name ∈ scope.names ↔ name ∈ env.names ∨ name ∈ letNames bindings
  /-- Each name of the let is found as a function made of its own literal, which carries the whole
  scope. -/
  own : ∀ binding ∈ bindings, ∀ name, binding.Defines name →
    ∃ value, scope.find name = .ok value ∧ value.ClosureOf scope binding.body
  others : ∀ name, name ∉ letNames bindings → scope.find name = env.find name
  /-- No number of steps from function to function leads out of the scope. -/
  unfold : ∀ path, (∀ name ∈ path, name ∈ letNames bindings) → scope.unfold path = some scope

section LetRec

variable (evaluation : Evaluation) (env : Env) {bindings : List Binding}

private theorem exists_definition_of_mem {definitions : List (String × Expr)}
    (hdefinitions : definitionsOf bindings = .ok definitions) {binding : Binding}
    (hbinding : binding ∈ bindings) :
    ∃ definition ∈ definitions, binding.definition = .ok definition := by
  have hmem := List.mem_map_of_mem (f := Clause.definition) hbinding
  rw [definitionsOf_eq_ok_iff.mp hdefinitions] at hmem
  obtain ⟨definition, hdefinition, heq⟩ := List.mem_map.mp hmem
  exact ⟨definition, hdefinition, heq.symm⟩

private theorem forall_defines_iff :
    (∀ binding ∈ bindings, ∃ name, binding.Defines name)
      ↔ ∃ definitions, definitionsOf bindings = .ok definitions := by
  constructor
  · intro hdefines
    cases hdefinitions : definitionsOf bindings with
    | ok definitions => exact ⟨definitions, rfl⟩
    | error e =>
        obtain ⟨before, binding, after, rfl, -, herror⟩ :=
          definitionsOf_eq_error_iff.mp hdefinitions
        have hdefined := Clause.exists_definition_iff.mpr (hdefines binding (by simp))
        simp [herror] at hdefined
  · rintro ⟨definitions, hdefinitions⟩ binding hbinding
    obtain ⟨definition, -, hdefinition⟩ := exists_definition_of_mem hdefinitions hbinding
    exact Clause.exists_definition_iff.mp ⟨definition, hdefinition⟩

/-- The frame of a recursive let with different names is such a scope. -/
theorem recursiveScope_of_definitionsOf (hdistinct : (letNames bindings).Nodup)
    {definitions : List (String × Expr)} (hdefinitions : definitionsOf bindings = .ok definitions) :
    RecursiveScope env bindings (.recursive env definitions) := by
  have hkeys : definitions.map Prod.fst = letNames bindings := map_fst_definitionsOf hdefinitions
  have hown : ∀ binding ∈ bindings, ∀ name, binding.Defines name →
      ∃ value, (Env.recursive env definitions).find name = .ok value
        ∧ value.ClosureOf (.recursive env definitions) binding.body := by
    intro binding hbinding name hname
    obtain ⟨definition, hmem, hdefinition⟩ := exists_definition_of_mem hdefinitions hbinding
    rw [Clause.definition_eq_ok_iff_defines.mpr ⟨hname, rfl⟩] at hdefinition
    cases hdefinition
    exact Env.find_definition (lookup_of_mem (hkeys ▸ hdistinct) hmem) hname.2
  refine ⟨fun name => ?_, hown, fun name hname => ?_, fun path hpath => ?_⟩
  · rw [Env.mem_names, Env.frameNames, hkeys, List.mem_append, Env.mem_names, or_comm]
  · exact Env.find_of_not_defined (by rwa [hkeys])
  · refine Env.unfold_eq_self fun name hname => ?_
    obtain ⟨binding, hbinding, hdefines⟩ := exists_defines_of_mem_letNames
      (forall_defines_iff.mpr ⟨definitions, hdefinitions⟩) (hpath name hname)
    obtain ⟨value, hfind, hclosure⟩ := hown binding hbinding name hdefines
    exact ⟨value, hfind, hclosure.carried?_eq⟩

/-! ### The cases of a recursive let -/

/-- The name that is reported is the first one that the let has a second time. -/
theorem bindWith_recursive_of_repeated (hrepeated : ¬ (letNames bindings).Nodup) :
    ∃ before name after, letNames bindings = before ++ name :: after ∧ before.Nodup
      ∧ name ∈ before
      ∧ bindWith evaluation env true bindings = Run.fail (.error (.repeatedName name)) := by
  obtain ⟨name, hname, hrefused⟩ := bindWith_of_not_nodup evaluation env true hrepeated
  obtain ⟨before, after, hnames, hbefore, hmem⟩ := firstRepeated_eq_some_iff.mp hname
  have hseen : name ∈ before := hmem.resolve_right List.not_mem_nil
  exact ⟨before, name, after, hnames, (firstRepeated_eq_none_iff.mp hbefore).1, hseen, hrefused⟩

/-- The binding that is reported is the first one that defines nothing. -/
theorem bindWith_recursive_of_refused (hdistinct : (letNames bindings).Nodup)
    (hundefined : ¬ ∀ binding ∈ bindings, ∃ name, binding.Defines name) :
    ∃ before binding after e, bindings = before ++ binding :: after
      ∧ (∀ earlier ∈ before, ∃ name, earlier.Defines name) ∧ binding.Refused e
      ∧ bindWith evaluation env true bindings = Run.fail (.error e) := by
  cases hdefinitions : definitionsOf bindings with
  | ok definitions => exact absurd (forall_defines_iff.mpr ⟨definitions, hdefinitions⟩) hundefined
  | error e =>
      obtain ⟨before, binding, after, hbindings, hbefore, herror⟩ :=
        definitionsOf_eq_error_iff.mp hdefinitions
      refine ⟨before, binding, after, e, hbindings, fun earlier hearlier => ?_,
        .of_definition herror, ?_⟩
      · exact Clause.exists_definition_iff.mp (hbefore earlier hearlier)
      · rw [bindWith_of_nodup true hdistinct, cond_true, hdefinitions]
        rfl

theorem bindWith_recursive_of_defines (hdistinct : (letNames bindings).Nodup)
    (hdefines : ∀ binding ∈ bindings, ∃ name, binding.Defines name) :
    ∃ scope, RecursiveScope env bindings scope
      ∧ bindWith evaluation env true bindings = pure scope := by
  obtain ⟨definitions, hdefinitions⟩ := forall_defines_iff.mp hdefines
  refine ⟨_, recursiveScope_of_definitionsOf env hdistinct hdefinitions, ?_⟩
  rw [bindWith_of_nodup true hdistinct, cond_true, hdefinitions]
  show Run.ofChecked (env.extendRecursive definitions) = _
  rw [extendRecursive_definitionsOf env hdefinitions hdistinct]
  rfl

end LetRec

/-- A recursive let evaluates nothing and logs nothing. If its patterns have a name twice, it tells
the first name that stands there a second time. Otherwise it tells what is wrong with the first
binding that does not give an identifier a function literal, if there is one. If there is none, it
leads to a scope in which each of its names is found as a function of its own literal, and every
such function carries the whole scope. It fails with no other kind of error. -/
theorem recursive_let_outcome (settings : Settings) (env : Env) (bindings : List Binding) :
    (∀ evaluation, bindWith evaluation env true bindings = bindLet settings env true bindings)
    ∧ (bindLet settings env true bindings).log = []
    ∧ (¬ (letNames bindings).Nodup →
      ∃ before name after, letNames bindings = before ++ name :: after ∧ before.Nodup
        ∧ name ∈ before
        ∧ (bindLet settings env true bindings).outcome = .error (.error (.repeatedName name)))
    ∧ ((letNames bindings).Nodup → (¬ ∀ binding ∈ bindings, ∃ name, binding.Defines name) →
      ∃ before binding after e, bindings = before ++ binding :: after
        ∧ (∀ earlier ∈ before, ∃ name, earlier.Defines name) ∧ binding.Refused e
        ∧ (bindLet settings env true bindings).outcome = .error (.error e))
    ∧ ((letNames bindings).Nodup → (∀ binding ∈ bindings, ∃ name, binding.Defines name) →
      ∃ scope, RecursiveScope env bindings scope
        ∧ (bindLet settings env true bindings).outcome = .ok scope)
    ∧ ∀ failure, (bindLet settings env true bindings).outcome = .error failure →
      ∃ e, failure = .error e ∧ e.kind = .notImplemented := by
  refine ⟨fun _ => rfl, ?_⟩
  rw [bindLet]
  by_cases hdistinct : (letNames bindings).Nodup
  · by_cases hdefines : ∀ binding ∈ bindings, ∃ name, binding.Defines name
    · obtain ⟨scope, hscope, hrun⟩ :=
        bindWith_recursive_of_defines (evaluate settings) env hdistinct hdefines
      rw [hrun]
      exact ⟨rfl, fun h => absurd hdistinct h, fun _ h => absurd hdefines h,
        fun _ _ => ⟨scope, hscope, rfl⟩, fun failure h => by cases h⟩
    · obtain ⟨before, binding, after, e, hbindings, hbefore, hrefused, hrun⟩ :=
        bindWith_recursive_of_refused (evaluate settings) env hdistinct hdefines
      rw [hrun]
      refine ⟨rfl, fun h => absurd hdistinct h, fun _ _ => ?_, fun _ h => absurd h hdefines,
        fun failure h => ?_⟩
      · exact ⟨before, binding, after, e, hbindings, hbefore, hrefused, rfl⟩
      · cases h
        exact ⟨e, rfl, hrefused.kind⟩
  · obtain ⟨before, name, after, hnames, hbefore, hname, hrun⟩ :=
      bindWith_recursive_of_repeated (evaluate settings) env hdistinct
    rw [hrun]
    refine ⟨rfl, fun _ => ?_, fun h => absurd h hdistinct, fun h => absurd h hdistinct,
      fun failure h => ?_⟩
    · exact ⟨before, name, after, hnames, hbefore, hname, rfl⟩
    · cases h
      exact ⟨_, rfl, rfl⟩

/-- Two annotated functions that call each other, one of them by rules, where rules keep no
environment of their own and nothing may be evaluated. -/
theorem recursive_let_outcome_parity :
    let ty : Ty := .named "t" []
    let even : Expr := .lambda (.ident "n") (.apply (.ident "odd") (.ident "n"))
    let rules : List Rule := [⟨.const (.int 0), .const (.bool false)⟩,
      ⟨.ident "n", .apply (.ident "even") (.ident "n")⟩]
    let bindings : List Binding :=
      [⟨.typed (.ident "even") ty, .typed even ty⟩, ⟨.ident "odd", .function rules⟩]
    let settings : Settings := { maxDepth := 0, captureFunctionEnv := false }
    let env : Env := .extend .empty "even" (.int 2)
    (letNames bindings).Nodup ∧ (∀ binding ∈ bindings, ∃ name, binding.Defines name)
      ∧ ∃ scope, RecursiveScope env bindings scope
        ∧ (bindLet settings env true bindings).outcome = .ok scope
        ∧ scope.find "odd" = .ok (.function rules scope)
        ∧ scope.unfold ["even", "odd", "odd", "even"] = some scope := by
  intro ty even rules bindings settings env
  have hdistinct : (letNames bindings).Nodup := by decide
  have hdefines : ∀ binding ∈ bindings, ∃ name, binding.Defines name := by
    simp only [bindings, List.forall_mem_cons, List.not_mem_nil, false_implies, implies_true,
      and_true]
    exact ⟨⟨"even", rfl, rfl⟩, "odd", rfl, rfl⟩
  obtain ⟨scope, hscope, houtcome⟩ :=
    (recursive_let_outcome settings env bindings).2.2.2.2.1 hdistinct hdefines
  refine ⟨hdistinct, hdefines, scope, hscope, houtcome, ?_, hscope.unfold _ (by decide)⟩
  cases houtcome
  rfl

end MiniMl
