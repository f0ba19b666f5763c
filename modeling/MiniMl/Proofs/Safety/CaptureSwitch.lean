import MiniMl.Proofs.Safety.Calls
import MiniMl.Proofs.Safety.Everywhere
/-!
# Where capturing an environment makes no difference

With `captureFunctionEnv` off, a function by rules finds its names where it is applied. That is
another environment than the one it was made in only if the function gets away from there: if it is
returned, bound or passed. Code in which function literals by rules are called on the spot, or
define a recursive name, lets none of them get away. A call on the spot has one environment for
making and applying, and a recursive frame closes its definitions whatever the settings say, so such
code runs the same with the switch on and off, down to the log.
-/

namespace MiniMl

namespace Expr

/-- A function literal by rules, possibly annotated. -/
def IsRules (e : Expr) : Prop :=
  ∃ rules, e.stripped = .function rules

/-- The children whose values are kept for later: all but the function part of an application and
the right-hand sides of a recursive let. What stands under an annotation is in the place of the
annotation. -/
def keptChildren : Expr → List Expr
  | .typed _ _ => []
  | .apply _ arg => [arg]
  | .letIn true _ body => [body]
  | e => e.children

/-- No function literal by rules is directly under the expression, but for the places where it is
called on the spot or defines a recursive name. -/
def KeepsNoRules (e : Expr) : Prop :=
  ∀ child ∈ e.keptChildren, ¬ child.IsRules

/-- Function literals by rules occur in the expression only as the function part of an application
or as the right-hand side of a recursive let, possibly annotated. -/
def RulesInPlace (e : Expr) : Prop :=
  ¬ e.IsRules ∧ e.Everywhere KeepsNoRules

end Expr

/-- In all code that can be reached from the environment, function literals by rules are in place.
-/
def Env.RulesInPlace (env : Env) : Prop :=
  env.Obeys (everywhere Expr.KeepsNoRules)

/-- Function literals by rules are in place in the declaration, which may define recursive names by
them. -/
def Decl.RulesInPlace : Decl → Prop
  | .letDecl true bindings => ∀ binding ∈ bindings, binding.body.Everywhere Expr.KeepsNoRules
  | .letDecl false bindings => ∀ binding ∈ bindings, binding.body.RulesInPlace
  | .expr e => e.RulesInPlace
  | .host _ => True

/-! ### What a level calls -/

theorem keepsNoRules_lawful (settings : Settings) :
    (everywhere Expr.KeepsNoRules).Lawful settings fun _ => True :=
  everywhere_lawful settings fun _ _ h child hchild => h child (List.mem_cons_of_mem _ hchild)

theorem Expr.KeepsNoRules.rule {rules : List Rule} (h : (Expr.function rules).KeepsNoRules)
    {rule : Rule} (hrule : rule ∈ rules) : ¬ rule.body.IsRules :=
  h rule.body (List.mem_map_of_mem hrule)

/-- A literal is no part of an expression in which literals are in place, unless it is called. -/
theorem Expr.RulesInPlace.not_isRules_part {e part : Expr} (h : e.RulesInPlace)
    (hcallee : ∀ func arg, e = .apply func arg → ¬ func.IsRules) (hpart : part ∈ e.parts) :
    ¬ part.IsRules := by
  have hkept := h.2.self
  cases e with
  | typed inner ty =>
      rw [List.mem_singleton.mp hpart]
      exact h.1
  | apply func arg =>
      rcases mem_parts_apply hpart with rfl | rfl | ⟨symbol, rfl⟩
      · exact hkept part List.mem_cons_self
      · exact hcallee part arg rfl
      · exact (h.2.child List.mem_cons_self).self part List.mem_cons_self
  | matchWith scrutinee rules =>
      rw [List.mem_singleton.mp hpart]
      exact hkept scrutinee List.mem_cons_self
  | letIn recursive bindings body =>
      cases recursive with
      | true => cases hpart
      | false => exact hkept part (List.mem_cons_of_mem body hpart)
  | const | ident | lambda | optNone | function | host => cases hpart
  | _ => exact hkept part hpart

private theorem not_isRules_of_enters {site : Env} {func arg : Value} {body : Expr} {matched : Env}
    (hfunc : func.Obeys (everywhere Expr.KeepsNoRules)) (h : Enters site arg func body matched) :
    ¬ body.IsRules := by
  cases h with
  | function hfirst => exact Expr.KeepsNoRules.rule hfunc.1.self hfirst.mem
  | openFunction hfirst => exact Expr.KeepsNoRules.rule (Expr.Everywhere.self hfunc) hfirst.mem
  | closure _ => exact hfunc.1.self _ List.mem_cons_self

/-- Literals are in place in all that a level calls, if its own function part is no literal. -/
theorem Expr.RulesInPlace.calls {evaluation : Evaluation}
    (hparts : (everywhere KeepsNoRules).Keeps (fun _ => True) (fun _ => True) evaluation)
    {e e' : Expr} {env env' : Env} (henv : env.RulesInPlace) (he : e.RulesInPlace)
    (hcallee : ∀ func arg, e = .apply func arg → ¬ func.IsRules)
    (h : Calls evaluation e env e' env') : env'.RulesInPlace ∧ e'.RulesInPlace := by
  have hobeys := (keepsNoRules_lawful {}).calls hparts henv he.2 h
  refine ⟨hobeys.1, ?_, hobeys.2⟩
  cases h with
  | part hpart => exact he.not_isRules_part hcallee hpart
  | rule _ hfirst =>
      exact he.2.self _ (List.mem_cons_of_mem _ (List.mem_map_of_mem hfirst.mem))
  | @body func _ _ _ _ _ _ hgeneric hfunc _ henters =>
      have hcode : func.Everywhere KeepsNoRules := he.2.child List.mem_cons_self
      exact not_isRules_of_enters ((hparts func env henv hcode).ok hfunc) henters
  | @letBody recursive =>
      cases recursive with
      | true => exact he.2.self _ List.mem_cons_self
      | false => exact he.2.self _ List.mem_cons_self

/-! ### The switch -/

section Switch

variable (settings : Settings)

/-- Only the evaluation of a function literal reads the switch. -/
private theorem evalWith_capture (capture capture' : Bool) (evaluation : Evaluation) {e : Expr}
    (he : ¬ e.IsRules) (env : Env) :
    evalWith { settings with captureFunctionEnv := capture } evaluation e env
      = evalWith { settings with captureFunctionEnv := capture' } evaluation e env := by
  cases e with
  | function rules => exact absurd ⟨rules, rfl⟩ he
  | _ => rfl

/-- A literal that has the budget for its annotations gives a function at once. -/
private theorem eval_rules {e : Expr} {rules : List Rule} (he : e.stripped = .function rules)
    (budget : Nat) (env : Env) :
    (∀ capture, eval { settings with captureFunctionEnv := capture } budget e env
        = Run.fail (.tooDeep settings.maxDepth))
      ∨ ∀ capture, eval { settings with captureFunctionEnv := capture } budget e env
        = pure (if capture then .function rules env else .openFunction rules) := by
  induction budget generalizing e with
  | zero => exact .inl fun _ => rfl
  | succ budget ih =>
      cases e with
      | typed inner ty => exact ih he
      | function own =>
          cases he
          exact .inr fun _ => rfl
      | _ => cases he

private theorem appliedOperator?_of_isRules {func : Expr} (h : func.IsRules) :
    func.appliedOperator? = none := by
  obtain ⟨rules, hrules⟩ := h
  cases func with
  | apply first left => cases hrules
  | _ => rfl

/-- A literal that is called on the spot is applied in the environment in which it is made. -/
private theorem evalWith_calledRules {evaluation evaluation' : Evaluation} {func arg : Expr}
    {env : Env} {rules : List Rule} (hgeneric : func.appliedOperator? = none)
    (hfunc : evaluation func env = pure (.function rules env))
    (hfunc' : evaluation' func env = pure (.openFunction rules))
    (harg : evaluation arg env = evaluation' arg env)
    (hrules : ∀ value, (evaluation arg env).outcome = .ok value → ∀ rule matched,
      FirstMatch env value rules rule matched →
        evaluation rule.body matched = evaluation' rule.body matched) :
    evalWith settings evaluation (.apply func arg) env
      = evalWith settings evaluation' (.apply func arg) env := by
  simp only [evalWith, hgeneric]
  rw [hfunc, hfunc', pure_bind, pure_bind, ← harg]
  refine Run.bind_congr_of_ok fun value hvalue => ?_
  exact dispatchWith_congr (hrules value hvalue)

theorem eval_capture (budget : Nat) {e : Expr} {env : Env} (henv : env.RulesInPlace)
    (he : e.RulesInPlace) :
    eval { settings with captureFunctionEnv := true } budget e env
      = eval { settings with captureFunctionEnv := false } budget e env := by
  induction budget generalizing e env with
  | zero => rfl
  | succ budget ih =>
      have hlawful := keepsNoRules_lawful { settings with captureFunctionEnv := true }
      have hparts := hlawful.eval_stays budget
      rw [eval_succ, eval_succ, evalWith_capture settings true false _ he.1]
      by_cases hcallee : ∃ func arg, e = .apply func arg ∧ func.IsRules
      · obtain ⟨func, arg, rfl, rules, hrules⟩ := hcallee
        have hgeneric := appliedOperator?_of_isRules ⟨rules, hrules⟩
        have harg : arg.RulesInPlace :=
          ⟨he.2.self arg List.mem_cons_self, he.2.child (by simp [Expr.children])⟩
        -- The literal under its annotations is code in its own right.
        have hfunc : (everywhere Expr.KeepsNoRules).code env func :=
          he.2.child List.mem_cons_self
        have hliteral : (Expr.function rules).Everywhere Expr.KeepsNoRules := by
          rw [← hrules]
          exact hlawful.code_stripped hfunc
        rcases eval_rules settings hrules budget env with hdeep | hvalue
        · simp only [evalWith, hgeneric]
          rw [hdeep, hdeep]
          rfl
        · refine evalWith_calledRules _ hgeneric (hvalue true) (hvalue false) (ih henv harg) ?_
          intro value hok rule matched hfirst
          have hobeys := (hparts arg env henv harg.2).ok hok
          refine ih (henv.matched hobeys hfirst.match?_eq) ⟨?_, ?_⟩
          · exact hliteral.self.rule hfirst.mem
          · exact hliteral.clause (fun _ => id) hfirst.mem
      · have hgeneric : ∀ func arg, e = .apply func arg → ¬ func.IsRules :=
          fun func arg heq hrules => hcallee ⟨func, arg, heq, hrules⟩
        refine evalWith_congr fun e' env' hcall => ?_
        obtain ⟨henv', he'⟩ := he.calls hparts henv hgeneric hcall
        exact ih henv' he'

theorem evaluate_capture {e : Expr} {env : Env} (henv : env.RulesInPlace) (he : e.RulesInPlace) :
    evaluate { settings with captureFunctionEnv := true } e env
      = evaluate { settings with captureFunctionEnv := false } e env :=
  eval_capture settings settings.budget henv he

/-! ### Programs -/

private theorem declare_capture {decl : Decl} {env : Env} (henv : env.RulesInPlace)
    (hdecl : decl.RulesInPlace) :
    declare { settings with captureFunctionEnv := true } decl env
      = declare { settings with captureFunctionEnv := false } decl env := by
  cases decl with
  | letDecl recursive bindings =>
      refine bindWith_congr fun hrecursive e he => ?_
      subst hrecursive
      obtain ⟨binding, hbinding, rfl⟩ := List.mem_map.mp he
      exact evaluate_capture settings henv (hdecl binding hbinding)
  | expr e =>
      simp only [declare, declareWith]
      rw [evaluate_capture settings henv hdecl]
  | host obj => rfl

theorem Decl.RulesInPlace.letIn {recursive : Bool} {bindings : List Binding}
    (h : (Decl.letDecl recursive bindings).RulesInPlace) :
    (Expr.letIn recursive bindings .optNone).Everywhere Expr.KeepsNoRules := by
  have hnone : ¬ Expr.optNone.IsRules := by simp [Expr.IsRules, Expr.stripped]
  have hlast : Expr.optNone.Everywhere Expr.KeepsNoRules :=
    .intro (fun _ hchild => by cases hchild) fun _ hchild => by cases hchild
  have hbodies : ∀ binding ∈ bindings, binding.body.Everywhere Expr.KeepsNoRules := by
    intro binding hbinding
    cases recursive with
    | true => exact h binding hbinding
    | false => exact (h binding hbinding).2
  refine .intro ?_ fun child hchild => ?_
  · intro child hchild
    cases recursive with
    | true =>
        rw [List.mem_singleton.mp hchild]
        exact hnone
    | false =>
        rcases List.mem_cons.mp hchild with rfl | hchild
        · exact hnone
        · obtain ⟨binding, hbinding, rfl⟩ := List.mem_map.mp hchild
          exact (h binding hbinding).1
  · rcases List.mem_cons.mp hchild with rfl | hchild
    · exact hlast
    · obtain ⟨binding, hbinding, rfl⟩ := List.mem_map.mp hchild
      exact hbodies binding hbinding

private theorem declare_rulesInPlace {decl : Decl} {env extended : Env} (henv : env.RulesInPlace)
    (hdecl : decl.RulesInPlace) (h : (declare settings decl env).outcome = .ok extended) :
    extended.RulesInPlace := by
  have hlawful := keepsNoRules_lawful settings
  cases decl with
  | letDecl recursive bindings =>
      exact ((bindWith_stays hlawful (hlawful.eval_stays settings.budget) henv hdecl.letIn).ok h).1
  | expr e =>
      have hvalue := (hlawful.evaluate_stays henv hdecl.2).ends
      have hkeep : (declare settings (.expr e) env).Ends (· = env) fun _ => True :=
        hvalue.bind fun _ _ => .pure rfl
      rw [hkeep.ok h]
      exact henv
  | host obj => cases h

theorem declareAll_capture {program : List Decl} {env : Env} (henv : env.RulesInPlace)
    (hprogram : ∀ decl ∈ program, decl.RulesInPlace) :
    declareAll { settings with captureFunctionEnv := true } program env
      = declareAll { settings with captureFunctionEnv := false } program env := by
  induction program generalizing env with
  | nil => rfl
  | cons decl rest ih =>
      have hdecl := hprogram decl List.mem_cons_self
      rw [declareAll_cons, declareAll_cons, declare_capture settings henv hdecl]
      refine Run.bind_congr_of_ok fun extended hextended => ?_
      refine ih (declare_rulesInPlace _ henv hdecl hextended) fun other hother => ?_
      exact hprogram other (List.mem_cons_of_mem decl hother)

end Switch

/-- Where function literals by rules are in place, in an expression or a program and in all code
that can be reached from the environment, it makes no difference to the outcome or the log whether
functions capture their environment. -/
theorem captureFunctionEnv_irrelevant (settings : Settings) {env : Env} (henv : env.RulesInPlace) :
    (∀ e : Expr, e.RulesInPlace →
      evaluate { settings with captureFunctionEnv := true } e env
          = evaluate { settings with captureFunctionEnv := false } e env
        ∧ run { settings with captureFunctionEnv := true } e env
          = run { settings with captureFunctionEnv := false } e env)
    ∧ ∀ program : List Decl, (∀ decl ∈ program, decl.RulesInPlace) →
      interpret { settings with captureFunctionEnv := true } program env
        = interpret { settings with captureFunctionEnv := false } program env := by
  refine ⟨fun e he => ⟨evaluate_capture settings henv he, ?_⟩, fun program hprogram => ?_⟩
  · rw [run_eq, run_eq, evaluate_capture settings henv he]
  · rw [interpret_eq_bind, interpret_eq_bind, declareAll_capture settings henv hprogram]

/-- An annotated literal that reads a name of its site is called on the spot, beside a definition by
rules in the environment and one in the program. -/
theorem captureFunctionEnv_irrelevant_onTheSpot :
    let rules : List Rule := [⟨.ident "x", .ident "y"⟩]
    let env : Env := .recursive .empty [("f", .function rules)]
    let e : Expr := .letIn false [⟨.ident "y", .const (.int 1)⟩]
      (.apply (.typed (.function rules) (.named "t" [])) (.const (.int 2)))
    let program : List Decl := [.letDecl true [⟨.ident "g", .function rules⟩], .expr e]
    env.RulesInPlace ∧ e.RulesInPlace ∧ (∀ decl ∈ program, decl.RulesInPlace)
      ∧ (evaluate { captureFunctionEnv := true } e env
          = evaluate { captureFunctionEnv := false } e env
        ∧ run { captureFunctionEnv := true } e env = run { captureFunctionEnv := false } e env)
      ∧ interpret { captureFunctionEnv := true } program env
        = interpret { captureFunctionEnv := false } program env := by
  intro rules env e program
  have hatom : ∀ atom : Expr, atom.children = [] → atom.keptChildren = [] →
      atom.Everywhere Expr.KeepsNoRules := by
    intro atom hchildren hkept
    exact .intro (by simp [Expr.KeepsNoRules, hkept]) (by simp [hchildren])
  have hliteral : (Expr.function rules).Everywhere Expr.KeepsNoRules := by
    refine .intro ?_ ?_
    · simp [Expr.KeepsNoRules, Expr.keptChildren, Expr.children, rules, Expr.IsRules, Expr.stripped]
    · simpa [Expr.children, rules] using hatom (.ident "y") rfl rfl
  have htyped : (Expr.typed (.function rules) (.named "t" [])).Everywhere Expr.KeepsNoRules := by
    refine .intro ?_ ?_
    · simp [Expr.KeepsNoRules, Expr.keptChildren]
    · simpa [Expr.children] using hliteral
  have hcall : (Expr.apply (.typed (.function rules) (.named "t" []))
      (.const (.int 2))).Everywhere Expr.KeepsNoRules := by
    refine .intro ?_ ?_
    · simp [Expr.KeepsNoRules, Expr.keptChildren, Expr.IsRules, Expr.stripped]
    · simpa [Expr.children] using ⟨htyped, hatom (.const (.int 2)) rfl rfl⟩
  have he : e.RulesInPlace := by
    refine ⟨by simp [e, Expr.IsRules, Expr.stripped], .intro ?_ ?_⟩
    · simp [e, Expr.KeepsNoRules, Expr.keptChildren, Expr.children, Expr.IsRules, Expr.stripped]
    · simpa [e, Expr.children] using ⟨hcall, hatom (.const (.int 1)) rfl rfl⟩
  have henv : env.RulesInPlace := by
    refine ⟨trivial, fun entry hentry => ?_⟩
    rw [List.mem_singleton.mp hentry]
    exact ⟨trivial, hliteral⟩
  have hprogram : ∀ decl ∈ program, decl.RulesInPlace := by
    simpa [program, Decl.RulesInPlace] using ⟨hliteral, he⟩
  have hsame := captureFunctionEnv_irrelevant {} henv
  exact ⟨henv, he, hprogram, hsame.1 e he, hsame.2 program hprogram⟩

end MiniMl
