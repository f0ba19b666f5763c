import MiniMl.Proofs.Safety.Everywhere
/-!
# Exhaustive programs

A pattern that matches every value is irrefutable, and that can be read off its form. Code is
exhaustive if each list of rules has an irrefutable one, and each parameter and each pattern of a
let that is not recursive is irrefutable. This is a demand on the form of all code, so it is kept by
evaluation, and the three failures of a match are out of reach: no rule, no argument and no value of
a let can be without a match.
-/

namespace MiniMl

namespace Pattern

/-- The pattern leaves no value out: a wildcard or an identifier, possibly annotated, or an
alternative of which one side is such a pattern. -/
def isIrrefutable : Pattern → Bool
  | .wild | .ident _ => true
  | .typed inner _ => inner.isIrrefutable
  | .or left right => left.isIrrefutable || right.isIrrefutable
  | .const _ | .optNone | .optSome _ | .list _ | .tuple _ | .host _ => false

private theorem isSome_bindings?_of_isIrrefutable {p : Pattern} (h : p.isIrrefutable = true)
    (value : Value) : (p.bindings? value).isSome = true := by
  fun_induction isIrrefutable p with
  | case1 => rfl
  | case2 name => rfl
  | case3 inner ty ih =>
      rw [bindings?]
      exact ih h
  | case4 left right ihleft ihright =>
      rw [bindings?, Option.isSome_or, Bool.or_eq_true]
      exact (Bool.or_eq_true_iff.mp h).imp ihleft ihright
  | _ => cases h

/-- No pattern but an irrefutable one matches a host object. -/
private theorem isIrrefutable_of_bindings?_host {p : Pattern} {obj : HostObject}
    (h : (p.bindings? (.host obj)).isSome = true) : p.isIrrefutable = true := by
  fun_induction isIrrefutable p with
  | case1 => rfl
  | case2 name => rfl
  | case3 inner ty ih =>
      rw [bindings?] at h
      exact ih h
  | case4 left right ihleft ihright =>
      rw [bindings?, Option.isSome_or, Bool.or_eq_true] at h
      exact Bool.or_eq_true_iff.mpr (h.imp ihleft ihright)
  | case5 c => cases c <;> cases h
  | _ => cases h

/-- The irrefutable patterns are those that match every value. -/
theorem isIrrefutable_iff {p : Pattern} :
    p.isIrrefutable = true ↔ ∀ env value, (p.match? env value).isSome = true := by
  simp only [match?_eq, Option.isSome_map]
  exact ⟨fun h _ => isSome_bindings?_of_isIrrefutable h,
    fun h => isIrrefutable_of_bindings?_host (h .empty (.host ⟨"", 0⟩))⟩

theorem match?_ne_none_of_isIrrefutable {p : Pattern} (h : p.isIrrefutable = true) (env : Env)
    (value : Value) : p.match? env value ≠ none :=
  Option.isSome_iff_ne_none.mp (isIrrefutable_iff.mp h env value)

end Pattern

/-- Some rule of the list matches, whatever the value. -/
def SomeIrrefutable (rules : List Rule) : Prop :=
  ∃ rule ∈ rules, rule.pattern.isIrrefutable = true

/-- No binding of the list leaves a value out. -/
def AllIrrefutable (bindings : List Binding) : Prop :=
  ∀ binding ∈ bindings, binding.pattern.isIrrefutable = true

namespace Expr

/-- What the expression itself matches against patterns always finds a match. -/
def LeavesNoGap : Expr → Prop
  | .matchWith _ rules => SomeIrrefutable rules
  | .function rules => SomeIrrefutable rules
  | .lambda param _ => param.isIrrefutable = true
  | .letIn false bindings _ => AllIrrefutable bindings
  | _ => True

/-- No match in the expression leaves a value out. -/
def Exhaustive (e : Expr) : Prop :=
  e.Everywhere LeavesNoGap

end Expr

/-- No match in the code that can be reached from the value leaves a value out. -/
def Value.Exhaustive (value : Value) : Prop :=
  value.Obeys (everywhere Expr.LeavesNoGap)

/-- No match in the code that can be reached from the environment leaves a value out. -/
def Env.Exhaustive (env : Env) : Prop :=
  env.Obeys (everywhere Expr.LeavesNoGap)

/-- No match in the declaration leaves a value out. The patterns of a recursive let are not matched
against anything. -/
def Decl.Exhaustive : Decl → Prop
  | .letDecl recursive bindings =>
    (recursive = false → AllIrrefutable bindings)
      ∧ ∀ binding ∈ bindings, binding.body.Exhaustive
  | .expr e => e.Exhaustive
  | .host _ => True

/-! ### The laws -/

/-- The failure is no match that was not found. -/
def Failure.Matched (failure : Failure) : Prop :=
  ∀ e, failure = .error e → e.kind ≠ .matchFailure

theorem Failure.Matched.of_kind {e : EvalError} (h : e.kind ≠ .matchFailure) :
    (Failure.error e).Matched := by
  intro other heq
  cases heq
  exact h

theorem leavesNoGap_lawful (settings : Settings) :
    (everywhere Expr.LeavesNoGap).Lawful settings Failure.Matched :=
  { everywhere_lawful settings fun _ _ h => h with
    shortTuple := fun _ _ _ h => by cases h
    lookup := by
      intro env name failure _ _ hfind e he
      rw [he] at hfind
      rw [(Env.find_eq_error_iff.mp hfind).1]
      simp [EvalError.kind]
    noRule := by
      intro env rules value h hnone
      obtain ⟨rule, hrule, hpattern⟩ : SomeIrrefutable rules := h.self
      exact absurd (hnone rule hrule) (Pattern.match?_ne_none_of_isIrrefutable hpattern env value)
    argument := by
      intro env param body value h hnone
      exact absurd hnone (Pattern.match?_ne_none_of_isIrrefutable h.self env value)
    letValue := by
      intro env bindings body binding matched value h hbinding hnone
      have hpattern : binding.pattern.isIrrefutable = true := h.self binding hbinding
      exact absurd hnone (Pattern.match?_ne_none_of_isIrrefutable hpattern matched value)
    tooDeep := fun _ h => by cases h
    other := fun _ _ hkind _ => .of_kind hkind }

theorem Expr.Exhaustive.letIn {recursive : Bool} {bindings : List Binding} {body : Expr}
    (hbindings : (Decl.letDecl recursive bindings).Exhaustive) (hbody : body.Exhaustive) :
    (Expr.letIn recursive bindings body).Exhaustive := by
  refine .intro ?_ fun child hchild => ?_
  · cases recursive with
    | true => trivial
    | false => exact hbindings.1 rfl
  · rcases List.mem_cons.mp hchild with rfl | hchild
    · exact hbody
    · obtain ⟨binding, hbinding, rfl⟩ := List.mem_map.mp hchild
      exact hbindings.2 binding hbinding

theorem nestedLets_exhaustive {program : List Decl} (h : ∀ decl ∈ program, decl.Exhaustive)
    {last : Expr} (hlast : last.Exhaustive) : (nestedLets program last).Exhaustive := by
  induction program with
  | nil => exact hlast
  | cons decl rest ih =>
      have hdecl := h decl List.mem_cons_self
      have hrest := ih fun other hother => h other (List.mem_cons_of_mem decl hother)
      cases decl with
      | letDecl recursive bindings => exact .letIn hdecl hrest
      | expr e =>
          -- The value of an expression is let go through a wildcard.
          have hwild : (Decl.letDecl false [⟨.wild, e⟩]).Exhaustive := by
            refine ⟨fun _ binding hbinding => ?_, fun binding hbinding => ?_⟩
            · rw [List.mem_singleton.mp hbinding]
              rfl
            · rw [List.mem_singleton.mp hbinding]
              exact hdecl
          exact .letIn hwild hrest
      | host obj => exact .of_children_eq_nil trivial rfl

/-! ### No match is missed -/

/-- The run ends because a value was matched by nothing. -/
def Run.EndsUnmatched {α : Type} (x : Run α) : Prop :=
  ∃ err : EvalError, x.outcome = .error (.error err) ∧ err.kind = .matchFailure

theorem Run.Ends.not_endsUnmatched {α : Type} {P : α → Prop} {x : Run α}
    (h : x.Ends P Failure.Matched) : ¬ x.EndsUnmatched := by
  rintro ⟨err, herror, hkind⟩
  exact h.error herror err rfl hkind

/-- Exhaustive expressions and programs never miss a match in an exhaustive environment, whatever
the settings, and neither do the dispatches, applications and lets of which an evaluation is made
up. -/
theorem exhaustive_never_unmatched (settings : Settings) {env : Env} (henv : env.Exhaustive) :
    (∀ e : Expr, e.Exhaustive →
      ¬ (evaluate settings e env).EndsUnmatched ∧ ¬ (run settings e env).EndsUnmatched)
    ∧ (∀ program : List Decl, (∀ decl ∈ program, decl.Exhaustive) →
      ¬ (interpret settings program env).EndsUnmatched)
    ∧ (∀ (value : Value) (rules : List Rule), value.Exhaustive → (Expr.function rules).Exhaustive →
      ¬ (dispatch settings env value rules).EndsUnmatched)
    ∧ (∀ func arg : Value, func.Exhaustive → arg.Exhaustive →
      ¬ (applyValue settings func arg env).EndsUnmatched)
    ∧ ∀ (recursive : Bool) (bindings : List Binding),
      (Decl.letDecl recursive bindings).Exhaustive →
        ¬ (bindLet settings env recursive bindings).EndsUnmatched := by
  have hlawful := leavesNoGap_lawful settings
  have hparts := hlawful.eval_stays settings.budget
  have hlast : Expr.optNone.Exhaustive := .of_children_eq_nil trivial rfl
  refine ⟨fun e he => ?_, fun program hprogram => ?_, fun value rules hvalue hrules => ?_,
    fun func arg hfunc harg => ?_, fun recursive bindings hbindings => ?_⟩
  · have hends := (hlawful.evaluate_stays henv he).ends
    exact ⟨hends.not_endsUnmatched, (hends.reporting .runFailed).not_endsUnmatched⟩
  · have hnested := nestedLets_exhaustive hprogram hlast
    exact (hlawful.interpret_stays henv hnested).ends.not_endsUnmatched
  · exact (dispatchWith_stays hlawful hparts henv hvalue hrules).ends.not_endsUnmatched
  · exact (applyWith_stays hlawful hparts hfunc harg henv).ends.not_endsUnmatched
  · have hlet : (Expr.letIn recursive bindings .optNone).Exhaustive := .letIn hbindings hlast
    exact (bindWith_stays hlawful hparts henv hlet).ends.not_endsUnmatched

/-- A definition by rules of a frame and a function without environment, whose last rule is an
alternative with an irrefutable right side. -/
theorem exhaustive_never_unmatched_alternative :
    let rules : List Rule := [⟨.const (.int 0), .const (.int 0)⟩,
      ⟨.or (.optSome (.ident "n")) (.ident "n"), .ident "n"⟩]
    let env : Env := .extend (.recursive .empty [("f", .function rules)]) "g" (.openFunction rules)
    let e : Expr := .matchWith (.apply (.ident "f") (.ident "g")) rules
    let bindings : List Binding := [⟨.typed .wild (.named "t" []), e⟩]
    env.Exhaustive ∧ e.Exhaustive ∧ (Decl.letDecl false bindings).Exhaustive
      ∧ (Value.openFunction rules).Exhaustive ∧ (Expr.function rules).Exhaustive
      ∧ (¬ (evaluate {} e env).EndsUnmatched ∧ ¬ (run {} e env).EndsUnmatched)
      ∧ ¬ (interpret {} [.letDecl false bindings] env).EndsUnmatched
      ∧ ¬ (dispatch {} env (.openFunction rules) rules).EndsUnmatched
      ∧ ¬ (applyValue {} (.openFunction rules) (.openFunction rules) env).EndsUnmatched
      ∧ ¬ (bindLet {} env false bindings).EndsUnmatched := by
  intro rules env e bindings
  have hatom : ∀ name, (Expr.ident name).Exhaustive :=
    fun name => .of_children_eq_nil trivial rfl
  have hbodies : ∀ rule ∈ rules, rule.body.Exhaustive := by
    simpa [rules] using
      ⟨.of_children_eq_nil (e := .const (.int 0)) trivial rfl, hatom "n"⟩
  have hsome : SomeIrrefutable rules := ⟨rules[1], by simp [rules], rfl⟩
  have hrules : (Expr.function rules).Exhaustive := by
    refine .intro hsome fun child hchild => ?_
    obtain ⟨rule, hrule, rfl⟩ := List.mem_map.mp hchild
    exact hbodies rule hrule
  have happly : (Expr.apply (.ident "f") (.ident "g")).Exhaustive :=
    .intro trivial (by simpa [Expr.children] using ⟨hatom "f", hatom "g"⟩)
  have he : e.Exhaustive := by
    refine .intro hsome fun child hchild => ?_
    rcases List.mem_cons.mp hchild with rfl | hchild
    · exact happly
    · obtain ⟨rule, hrule, rfl⟩ := List.mem_map.mp hchild
      exact hbodies rule hrule
  have henv : env.Exhaustive := by
    refine ⟨⟨trivial, fun entry hentry => ?_⟩, hrules⟩
    rw [List.mem_singleton.mp hentry]
    exact ⟨trivial, hrules⟩
  have hlet : (Decl.letDecl false bindings).Exhaustive := by
    refine ⟨fun _ binding hbinding => ?_, fun binding hbinding => ?_⟩
    · rw [List.mem_singleton.mp hbinding]
      rfl
    · rw [List.mem_singleton.mp hbinding]
      exact he
  have hprogram : ∀ decl ∈ [Decl.letDecl false bindings], decl.Exhaustive := by
    intro decl hdecl
    rw [List.mem_singleton.mp hdecl]
    exact hlet
  have hopen : (Value.openFunction rules).Exhaustive := hrules
  obtain ⟨hevaluate, hinterpret, hdispatch, happlied, hbind⟩ := exhaustive_never_unmatched {} henv
  exact ⟨henv, he, hlet, hopen, hrules, hevaluate e he, hinterpret _ hprogram,
    hdispatch _ rules hopen hrules, happlied _ _ hopen hopen, hbind false bindings hlet⟩

end MiniMl
