import MiniMl.Proofs.Safety.Everywhere
import MiniMl.Proofs.Simulation.Lockstep
/-!
# Rewritten code

A `CodeMap` says what becomes of patterns and expressions when code is rewritten. From there the
rewriting is carried over to all that holds code: values, environments and errors. If it leaves
alone what patterns match and which expressions are function literals, then the checks of a
recursive let and look-ups commute with it, and an expression that is rewritten below its outermost
constructor (`under`) has the same form as before (`Lawful.sameForm`). A particular rewriting adds
what it does to the outermost constructor.

Not all code may stand being rewritten. The code that does is given by a discipline.
-/

namespace MiniMl

/-- What becomes of patterns and of expressions. -/
structure CodeMap where
  pattern : Pattern → Pattern
  expr : Expr → Expr

namespace CodeMap

variable (m : CodeMap)

def clause (clause : Clause Expr) : Clause Expr :=
  ⟨m.pattern clause.pattern, m.expr clause.body⟩

def definition (definition : String × Expr) : String × Expr :=
  (definition.1, m.expr definition.2)

mutual

/-- The value with the code that it carries rewritten. -/
def value : Value → Value
  | .list items => .list (values items)
  | .tuple items => .tuple (values items)
  | .optSome inner => .optSome (value inner)
  | .closure param body captured recursive =>
    .closure (m.pattern param) (m.expr body) (env captured) recursive
  | .function rules captured => .function (rules.map m.clause) (env captured)
  | .openFunction rules => .openFunction (rules.map m.clause)
  | .int n => .int n
  | .float x => .float x
  | .bool b => .bool b
  | .char text => .char text
  | .string s => .string s
  | .unit => .unit
  | .optNone => .optNone
  | .host obj => .host obj

def values : List Value → List Value
  | [] => []
  | first :: rest => value first :: values rest

/-- The environment with its values and definitions rewritten. -/
def env : Env → Env
  | .empty => .empty
  | .extend parent name bound => .extend (env parent) name (value bound)
  | .recursive parent definitions => .recursive (env parent) (definitions.map m.definition)

end

/-- The error with the code that it quotes rewritten. -/
def evalError : EvalError → EvalError
  | .argumentMismatch kind param => .argumentMismatch kind (m.pattern param)
  | .letMismatch kind pattern => .letMismatch kind (m.pattern pattern)
  | .recursivePattern pattern => .recursivePattern (m.pattern pattern)
  | .recursiveNotFunction e => .recursiveNotFunction (m.expr e)
  | e => e

def malformed : Malformed → Malformed
  | .notFunctionLiteral e => .notFunctionLiteral (m.expr e)
  | other => other

def failure : Failure → Failure
  | .error e => .error (m.evalError e)
  | .malformed other => .malformed (m.malformed other)
  | .tooDeep limit => .tooDeep limit

/-- The expression with its children rewritten and its own constructor kept. -/
def under : Expr → Expr
  | .typed inner ty => .typed (m.expr inner) ty
  | .list items => .list (items.map m.expr)
  | .tuple items => .tuple (items.map m.expr)
  | .lambda param body => .lambda (m.pattern param) (m.expr body)
  | .ifThen cond yes => .ifThen (m.expr cond) (m.expr yes)
  | .ifThenElse cond yes no => .ifThenElse (m.expr cond) (m.expr yes) (m.expr no)
  | .optSome inner => .optSome (m.expr inner)
  | .matchWith scrutinee rules => .matchWith (m.expr scrutinee) (rules.map m.clause)
  | .function rules => .function (rules.map m.clause)
  | .apply func arg => .apply (m.expr func) (m.expr arg)
  | .letIn recursive bindings body => .letIn recursive (bindings.map m.clause) (m.expr body)
  | .const c => .const c
  | .ident name => .ident name
  | .optNone => .optNone
  | .host obj => .host obj

theorem children_under (e : Expr) : (m.under e).children = e.children.map m.expr := by
  cases e <;> simp [under, Expr.children, clause, Function.comp_def]

theorem kind_evalError (e : EvalError) : (m.evalError e).kind = e.kind := by
  cases e <;> rfl

private theorem failure_of_codeless {failure : Failure} (h : failure.Codeless) :
    m.failure failure = failure := by
  cases failure with
  | error e =>
      cases e with
      | argumentMismatch | letMismatch | recursivePattern | recursiveNotFunction => exact h.elim
      | _ => rfl
  | malformed other =>
      cases other with
      | notFunctionLiteral e => exact h.elim
      | _ => rfl
  | tooDeep limit => rfl

/-- What evaluation must not notice of the rewriting of code that obeys the discipline. -/
structure Lawful (d : Discipline) (settings : Settings) : Prop where
  discipline : d.Lawful settings fun _ => True
  tupleSize : ∀ size, d.tupleSize size
  bindings? : ∀ p value, (m.pattern p).bindings? value = p.bindings? value
  boundNames : ∀ p, (m.pattern p).boundNames = p.boundNames
  recursiveName : ∀ p, (m.pattern p).recursiveName = p.recursiveName.mapError m.evalError
  lambda : ∀ param body, m.expr (.lambda param body) = .lambda (m.pattern param) (m.expr body)
  function : ∀ rules, m.expr (.function rules) = .function (rules.map m.clause)
  stripped : ∀ e, (m.expr e).stripped = m.expr e.stripped
  isFunctionLiteral : ∀ e, (m.expr e).isFunctionLiteral = e.isFunctionLiteral
  operator : ∀ {env func arg}, d.code env (.apply func arg) → (m.expr func).appliedOperator?
    = func.appliedOperator?.map fun operation => (operation.1, m.expr operation.2)

/-- The second code and the second values are the first ones, rewritten. -/
def simulation (d : Discipline) (failure : Failure → Failure → Prop) (excused : Failure → Prop) :
    Simulation where
  code env e env' e' := (env.Obeys d ∧ d.code env e) ∧ env' = m.env env ∧ e' = m.expr e
  value v v' := v.Obeys d ∧ v' = m.value v
  failure := failure
  excused := excused

/-! ### Definitions and look-ups -/

private theorem lookup_definition (definitions : List (String × Expr)) (name : String) :
    (definitions.map m.definition).lookup name = (definitions.lookup name).map m.expr := by
  induction definitions with
  | nil => rfl
  | cons entry rest ih =>
      obtain ⟨key, e⟩ := entry
      rw [List.map_cons, definition, List.lookup_cons, List.lookup_cons]
      cases name == key with
      | true => rfl
      | false => exact ih

namespace Lawful

variable {m : CodeMap} {d : Discipline} {settings : Settings} (hm : m.Lawful d settings)

include hm

theorem letNames_clause (bindings : List Binding) :
    letNames (bindings.map m.clause) = letNames bindings := by
  induction bindings with
  | nil => rfl
  | cons binding rest ih =>
      rw [letNames, letNames] at ih ⊢
      simp only [List.map_cons, Pattern.boundNamesAll, clause, hm.boundNames]
      exact congrArg (binding.pattern.boundNames ++ ·) ih

theorem definition_clause (binding : Binding) :
    (m.clause binding).definition
      = (binding.definition.map m.definition).mapError m.evalError := by
  rw [Clause.definition, Clause.definition, clause, hm.recursiveName, hm.isFunctionLiteral]
  cases binding.pattern.recursiveName with
  | error e => rfl
  | ok name => cases binding.body.isFunctionLiteral <;> rfl

theorem definitionsOf_clause (bindings : List Binding) :
    definitionsOf (bindings.map m.clause)
      = ((definitionsOf bindings).map (List.map m.definition)).mapError m.evalError := by
  induction bindings with
  | nil => rfl
  | cons binding rest ih =>
      rw [List.map_cons, definitionsOf, definitionsOf, hm.definition_clause, ih]
      cases binding.definition with
      | error e => rfl
      | ok definition => cases definitionsOf rest <;> rfl

theorem close_env (env : Env) (e : Expr) :
    (m.env env).close (m.expr e) = ((env.close e).map m.value).mapError m.malformed := by
  cases hclose : env.close e with
  | ok value =>
      rcases Env.close_eq_ok hclose with ⟨param, body, he, rfl⟩ | ⟨rules, he, rfl⟩
      · rw [Env.close, hm.stripped, he, hm.lambda]
        rfl
      · rw [Env.close, hm.stripped, he, hm.function]
        rfl
  | error other =>
      have hliteral := Env.close_eq_error hclose
      have hliteral' : (m.expr e).isFunctionLiteral = false := by
        rw [hm.isFunctionLiteral, hliteral]
      rw [env.close_of_not_literal hliteral] at hclose
      cases hclose
      rw [Env.close_of_not_literal _ hliteral']
      rfl

/-- Looking a name up in the rewritten environment finds what it finds in the original, rewritten.
-/
theorem find_env (env : Env) (name : String) :
    (m.env env).find name = ((env.find name).map m.value).mapError m.failure := by
  cases env with
  | empty => rfl
  | extend parent key bound =>
      rw [CodeMap.env, Env.find, Env.find]
      split
      · rfl
      · exact find_env parent name
  | recursive parent definitions =>
      have hclose := hm.close_env (.recursive parent definitions)
      rw [CodeMap.env] at hclose ⊢
      rw [Env.find, Env.find, m.lookup_definition]
      cases definitions.lookup name with
      | none => exact find_env parent name
      | some e =>
          simp only [Option.map_some, hclose]
          cases (Env.recursive parent definitions).close e <;> rfl

end Lawful

/-! ### The comparison -/

section Comparison

variable {m : CodeMap} {d : Discipline} {settings : Settings} {R : Failure → Failure → Prop}
  {excused : Failure → Prop}

theorem forall₂_value_iff {items items' : List Value} :
    List.Forall₂ (m.simulation d R excused).value items items'
      ↔ Value.AllObey d items ∧ items' = m.values items := by
  constructor
  · intro h
    induction h with
    | nil => exact ⟨trivial, rfl⟩
    | cons hfirst _ ih =>
        refine ⟨⟨hfirst.1, ih.1⟩, ?_⟩
        rw [hfirst.2, ih.2, values]
  · rintro ⟨hobey, rfl⟩
    induction items with
    | nil => exact .nil
    | cons first rest ih => exact .cons ⟨hobey.1, rfl⟩ (ih hobey.2)

theorem congruence (hsize : ∀ size, d.tupleSize size) :
    Value.Congruence (m.simulation d R excused).value where
  shape := by
    rintro value _ ⟨hobey, rfl⟩
    cases value with
    | list items => exact .list (forall₂_value_iff.mpr ⟨hobey, rfl⟩)
    | tuple items => exact .tuple (forall₂_value_iff.mpr ⟨hobey.2, rfl⟩)
    | optSome inner => exact .optSome ⟨hobey, rfl⟩
    | closure param body env recursive => exact .closure _ _ _ _ _ _ _ _
    | function rules env => exact .function _ _ _ _
    | openFunction rules => exact .openFunction _ _
    | _ => exact .atom trivial
  atom := by
    intro value hatom
    cases value with
    | list | tuple | optSome | closure | function | openFunction => exact hatom.elim
    | _ => exact ⟨trivial, rfl⟩
  list h := by
    obtain ⟨hobey, rfl⟩ := forall₂_value_iff.mp h
    exact ⟨hobey, rfl⟩
  tuple h := by
    obtain ⟨hobey, rfl⟩ := forall₂_value_iff.mp h
    exact ⟨⟨hsize _, hobey⟩, rfl⟩
  optSome := by
    rintro inner _ ⟨hobey, rfl⟩
    exact ⟨hobey, rfl⟩

variable (hm : m.Lawful d settings) (hR : ∀ failure, R failure (m.failure failure))

include hm hR in
theorem simulation_lawful : (m.simulation d R excused).Lawful where
  values := congruence hm.tupleSize
  codeless {failure} h := by
    have hfailure := hR failure
    rw [m.failure_of_codeless h] at hfailure
    exact hfailure

theorem env_extendAll {env : Env} (henv : env.Obeys d) {bindings bindings' : List (String × Value)}
    (h : BindingsRelated (m.simulation d R excused).value bindings bindings') :
    (env.extendAll bindings).Obeys d
      ∧ (m.env env).extendAll bindings' = m.env (env.extendAll bindings) := by
  induction h generalizing env with
  | nil => exact ⟨henv, rfl⟩
  | @cons entry entry' rest rest' hentry _ ih =>
      obtain ⟨hname, hobey, hvalue⟩ := hentry
      have hextended : (env.extend entry.1 entry.2).Obeys d := ⟨henv, hobey⟩
      rw [Env.extendAll, Env.extendAll, ← hname, hvalue]
      exact ih hextended

variable {env : Env} (henv : env.Obeys d)

include hm henv

private theorem code_part {e part : Expr} (he : d.code env e) (hpart : part ∈ e.parts) :
    (m.simulation d R excused).code env part (m.env env) (m.expr part) :=
  ⟨⟨henv, hm.discipline.part he hpart⟩, rfl, rfl⟩

private theorem sameClause {clause : Clause Expr}
    (hbody : ∀ {value matched}, clause.pattern.match? env value = some matched →
      d.code matched clause.body) :
    (m.simulation d R excused).SameClause env (m.env env) clause (m.clause clause) where
  pattern value := hm.bindings? clause.pattern value
  body hbindings hrelated := by
    obtain ⟨hobeys, henv'⟩ := env_extendAll henv hrelated
    exact ⟨⟨hobeys, hbody (Pattern.match?_eq_some_iff.mpr ⟨_, hbindings, rfl⟩)⟩, henv', rfl⟩

private theorem sameRules {rules : List Rule} (hrules : d.code env (.function rules)) :
    List.Forall₂ ((m.simulation d R excused).SameClause env (m.env env)) rules
      (rules.map m.clause) := by
  rw [List.forall₂_map_right_iff]
  refine List.forall₂_same.mpr fun rule hrule => ?_
  exact sameClause hm henv fun hmatch => hm.discipline.rule hrules hrule hmatch

include hR

private theorem callable {func func' : Value} (h : (m.simulation d R excused).value func func')
    (hfunction : func.IsFunction) :
    (m.simulation d R excused).Callable env (m.env env) func func' := by
  obtain ⟨hobey, rfl⟩ := h
  cases func with
  | closure param body captured recursive =>
      refine .closure (@sameClause m d settings R excused hm captured hobey.2 ⟨param, body⟩ ?_)
        fun kind => hR (.error (.argumentMismatch kind param))
      exact fun hmatch => hm.discipline.body hobey.1 hmatch
  | function rules captured => exact .function (sameRules hm hobey.2 hobey.1)
  | openFunction rules =>
      exact .openFunction (sameRules hm henv (hm.discipline.closeRules hobey))
  | _ => exact hfunction.elim

private theorem sameForm_let {bindings : List Binding} {body : Expr}
    (h : d.code env (.letIn false bindings body)) :
    (m.simulation d R excused).SameForm settings env (m.env env) (.letIn false bindings body)
      (.letIn false (bindings.map m.clause) (m.expr body)) := by
  refine .letIn (hm.letNames_clause bindings) ?_ ?_
  · rw [List.forall₂_map_right_iff]
    refine List.forall₂_same.mpr fun binding hbinding => ?_
    exact ⟨hm.bindings? binding.pattern,
      fun kind => hR (.error (.letMismatch kind binding.pattern)),
      code_part hm henv h (List.mem_map_of_mem hbinding)⟩
  · intro values entries entries' hentries hrelated
    obtain ⟨hobeys, henv'⟩ := env_extendAll henv hrelated
    have hbody := hm.discipline.letBody h (Pattern.matchAll?_eq_some_iff.mpr ⟨_, hentries, rfl⟩)
    exact ⟨⟨hobeys, hbody⟩, henv', rfl⟩

private theorem sameForm_letRec {bindings : List Binding} {body : Expr}
    (h : d.code env (.letIn true bindings body)) :
    (m.simulation d R excused).SameForm settings env (m.env env) (.letIn true bindings body)
      (.letIn true (bindings.map m.clause) (m.expr body)) := by
  refine .letRec (hm.letNames_clause bindings) ?_ ?_
  · intro definitions hdefinitions
    have hframe := hm.discipline.letRec h hdefinitions
    refine ⟨definitions.map m.definition, ?_, ⟨⟨henv, hframe.2⟩, hframe.1⟩, rfl, rfl⟩
    rw [hm.definitionsOf_clause, hdefinitions]
    rfl
  · intro e herror
    refine ⟨m.evalError e, ?_, hR (.error e)⟩
    rw [hm.definitionsOf_clause, herror]
    rfl

private theorem sameForm_apply {func arg : Expr} (h : d.code env (.apply func arg)) :
    (m.simulation d R excused).SameForm settings env (m.env env) (.apply func arg)
      (.apply (m.expr func) (m.expr arg)) := by
  have hoperator' := hm.operator h
  cases hoperator : func.appliedOperator? with
  | some operation =>
      have hparts : (Expr.apply func arg).parts = [operation.2, arg] := by
        simp only [Expr.parts, hoperator]
      rw [hoperator, Option.map_some] at hoperator'
      obtain ⟨rfl, hsymbol⟩ := Expr.eq_of_appliedOperator? hoperator
      rw [(Expr.eq_of_appliedOperator? hoperator').1]
      exact .operator hsymbol (code_part hm henv h (by simp [hparts]))
        (code_part hm henv h (by simp [hparts]))
  | none =>
      have hparts : (Expr.apply func arg).parts = [func, arg] := by
        simp only [Expr.parts, hoperator]
      rw [hoperator, Option.map_none] at hoperator'
      exact .apply hoperator hoperator' (code_part hm henv h (by simp [hparts]))
        (code_part hm henv h (by simp [hparts])) fun hvalue hfunction =>
          callable hm hR henv hvalue hfunction

/-- Code has the same form after its children are rewritten. -/
theorem sameForm {e : Expr} (h : d.code env e) :
    (m.simulation d R excused).SameForm settings env (m.env env) e (m.under e) := by
  have hparts : ∀ part ∈ e.parts,
      (m.simulation d R excused).code env part (m.env env) (m.expr part) :=
    fun part hpart => code_part hm henv h hpart
  have hitems : ∀ {items}, (∀ item ∈ items,
        (m.simulation d R excused).code env item (m.env env) (m.expr item)) →
      List.Forall₂ ((m.simulation d R excused).code env · (m.env env) ·) items
        (items.map m.expr) := by
    intro items hall
    rw [List.forall₂_map_right_iff]
    exact List.forall₂_same.mpr hall
  cases e with
  | const c => exact .const c
  | ident name =>
      refine .ident ?_
      rw [hm.find_env]
      cases hfind : env.find name with
      | ok value => exact .of_ok rfl rfl ⟨hm.discipline.find_obeys henv hfind, rfl⟩
      | error failure => exact .of_error rfl rfl (hR failure)
  | typed inner ty => exact .typed (hparts inner List.mem_cons_self)
  | list items => exact .list (hitems hparts)
  | tuple items => exact .tuple (hitems hparts)
  | lambda param body => exact .lambda ⟨⟨h, henv⟩, rfl⟩
  | ifThen cond yes =>
      exact .ifThen (hparts cond (by simp [Expr.parts])) (hparts yes (by simp [Expr.parts]))
  | ifThenElse cond yes no =>
      exact .ifThenElse (hparts cond (by simp [Expr.parts])) (hparts yes (by simp [Expr.parts]))
        (hparts no (by simp [Expr.parts]))
  | optNone => exact .optNone
  | optSome inner => exact .optSome (hparts inner List.mem_cons_self)
  | matchWith scrutinee rules =>
      exact .matchWith (hparts scrutinee List.mem_cons_self)
        (sameRules hm henv (hm.discipline.rules h))
  | function rules =>
      refine .function ?_
      rw [Simulation.ruleFunction, Simulation.ruleFunction]
      split
      · exact ⟨⟨h, henv⟩, rfl⟩
      · rename_i hcapture
        exact ⟨hm.discipline.openRules (Bool.eq_false_iff.mpr hcapture) h, rfl⟩
  | apply func arg => exact sameForm_apply hm hR henv h
  | letIn recursive bindings body =>
      cases recursive with
      | false => exact sameForm_let hm hR henv h
      | true => exact sameForm_letRec hm hR henv h
  | host obj => exact .host obj

end Comparison

end CodeMap

end MiniMl
