import MiniMl.Proofs.Simulation.CodeMap
/-!
# Matches and lets as applications

A match does what the function by its rules does when it is applied to the scrutinee. A let of one
pattern does what a lambda does when it is applied to the bound expression. Both hold at every
budget, as the function literal takes no level that the other part of the application does not take
as well, and whether functions capture their environment or not, as the function is applied where
it is made.

`desugar` puts such applications for matches and lets all over an expression, and through
`desugaring` in closures and recursive frames. No operator form comes out of it that was none
before, so desugared code does what the original does. Only the text of one error differs: a let
names its pattern where an application names the parameter.
-/

namespace MiniMl

/-! ### Desugaring -/

namespace Expr

/-- A match and a let of one pattern as applications. The pattern of the let must not bind a name
twice: a let would complain about that, and a lambda would not. -/
def asApplication : Expr → Expr
  | .matchWith scrutinee rules => .apply (.function rules) scrutinee
  | .letIn false [⟨pattern, bound⟩] body =>
    if pattern.boundNames.Nodup then
      .apply (.lambda pattern body) bound
    else
      .letIn false [⟨pattern, bound⟩] body
  | e => e

mutual

/-- The expression with all its matches and lets as applications, as far as possible. -/
def desugar : Expr → Expr
  | .const c => .const c
  | .ident name => .ident name
  | .typed inner ty => .typed inner.desugar ty
  | .list items => .list (desugarAll items)
  | .tuple items => .tuple (desugarAll items)
  | .lambda param body => .lambda param body.desugar
  | .ifThen cond yes => .ifThen cond.desugar yes.desugar
  | .ifThenElse cond yes no => .ifThenElse cond.desugar yes.desugar no.desugar
  | .optNone => .optNone
  | .optSome inner => .optSome inner.desugar
  | .matchWith scrutinee rules =>
    asApplication (.matchWith scrutinee.desugar (desugarClauses rules))
  | .function rules => .function (desugarClauses rules)
  | .apply func arg => .apply func.desugar arg.desugar
  | .letIn recursive bindings body =>
    asApplication (.letIn recursive (desugarClauses bindings) body.desugar)
  | .host obj => .host obj

def desugarAll : List Expr → List Expr
  | [] => []
  | e :: es => e.desugar :: desugarAll es

def desugarClauses : List (Clause Expr) → List (Clause Expr)
  | [] => []
  | ⟨pattern, body⟩ :: rest => ⟨pattern, body.desugar⟩ :: desugarClauses rest

end

end Expr

/-- Desugaring as a rewriting of code. Patterns stay as they are. -/
def desugaring : CodeMap where
  pattern := id
  expr := Expr.desugar

/-- The value with the code that it carries desugared. -/
def Value.desugar : Value → Value :=
  desugaring.value

/-- The environment with its values and definitions desugared. -/
def Env.desugar : Env → Env :=
  desugaring.env

namespace Expr

theorem desugarAll_eq_map (es : List Expr) : desugarAll es = es.map desugar := by
  induction es with
  | nil => rfl
  | cons e rest ih => rw [desugarAll, ih, List.map_cons]

theorem desugarClauses_eq_map (clauses : List (Clause Expr)) :
    desugarClauses clauses = clauses.map desugaring.clause := by
  induction clauses with
  | nil => rfl
  | cons clause rest ih =>
      rw [desugarClauses, ih, List.map_cons]
      rfl

/-- Desugaring is done at the root once it is done in the children. -/
theorem desugar_eq_asApplication (e : Expr) :
    e.desugar = (desugaring.under e).asApplication := by
  cases e with
  | list items => exact congrArg Expr.list (desugarAll_eq_map items)
  | tuple items => exact congrArg Expr.tuple (desugarAll_eq_map items)
  | function rules => exact congrArg Expr.function (desugarClauses_eq_map rules)
  | matchWith scrutinee rules =>
      rw [desugar, desugarClauses_eq_map]
      rfl
  | letIn recursive bindings body =>
      rw [desugar, desugarClauses_eq_map]
      rfl
  | _ => rfl

private theorem asApplication_letIn (recursive : Bool) (bindings : List Binding) (body : Expr) :
    (Expr.letIn recursive bindings body).asApplication = .letIn recursive bindings body
      ∨ ∃ pattern bound, recursive = false ∧ bindings = [⟨pattern, bound⟩]
        ∧ pattern.boundNames.Nodup
        ∧ (Expr.letIn recursive bindings body).asApplication
          = .apply (.lambda pattern body) bound := by
  unfold asApplication
  split
  · rename_i heq
    cases heq
  · rename_i pattern bound inner heq
    cases heq
    by_cases hdistinct : pattern.boundNames.Nodup
    · exact .inr ⟨pattern, bound, rfl, rfl, hdistinct, if_pos hdistinct⟩
    · exact .inl (if_neg hdistinct)
  · exact .inl rfl

/-- A desugared let is still a let, or the application of a lambda. -/
theorem desugar_letIn (recursive : Bool) (bindings : List Binding) (body : Expr) :
    (∃ bindings', (Expr.letIn recursive bindings body).desugar
        = .letIn recursive bindings' body.desugar)
      ∨ ∃ pattern bound, (Expr.letIn recursive bindings body).desugar
        = .apply (.lambda pattern body.desugar) bound := by
  rw [desugar]
  rcases asApplication_letIn recursive (desugarClauses bindings) body.desugar with
    heq | ⟨pattern, bound, -, -, -, heq⟩
  · exact .inl ⟨_, heq⟩
  · exact .inr ⟨pattern, bound, heq⟩

theorem stripped_desugar (e : Expr) : e.desugar.stripped = e.stripped.desugar := by
  cases e with
  | typed inner ty => exact stripped_desugar inner
  | letIn recursive bindings body =>
      have hself : (Expr.letIn recursive bindings body).stripped
          = .letIn recursive bindings body := rfl
      rw [hself]
      rcases desugar_letIn recursive bindings body with ⟨bindings', heq⟩ | ⟨pattern, bound, heq⟩
      · rw [heq]
        rfl
      · rw [heq]
        rfl
  | _ => rfl

theorem isFunctionLiteral_desugar (e : Expr) :
    e.desugar.isFunctionLiteral = e.isFunctionLiteral := by
  cases e with
  | typed inner ty => exact isFunctionLiteral_desugar inner
  | letIn recursive bindings body =>
      rcases desugar_letIn recursive bindings body with ⟨bindings', heq⟩ | ⟨pattern, bound, heq⟩
      · rw [heq]
        rfl
      · rw [heq]
        rfl
  | _ => rfl

theorem desugar_eq_ident_iff {e : Expr} {name : String} :
    e.desugar = .ident name ↔ e = .ident name := by
  cases e with
  | letIn recursive bindings body =>
      rcases desugar_letIn recursive bindings body with ⟨bindings', heq⟩ | ⟨pattern, bound, heq⟩
      · simp [heq]
      · simp [heq]
  | matchWith scrutinee rules => simp [desugar, asApplication]
  | _ => simp [desugar]

/-- The applications that come out of matches and lets are never taken for an operator. -/
theorem appliedOperator?_desugar (func : Expr) : func.desugar.appliedOperator?
    = func.appliedOperator?.map fun operation => (operation.1, operation.2.desugar) := by
  cases func with
  | letIn recursive bindings body =>
      rcases desugar_letIn recursive bindings body with ⟨bindings', heq⟩ | ⟨pattern, bound, heq⟩
      · rw [heq]
        rfl
      · rw [heq]
        rfl
  | apply first left =>
      by_cases hident : ∃ name, first = .ident name
      · obtain ⟨name, rfl⟩ := hident
        rw [desugar, desugar, appliedOperator?, appliedOperator?]
        split <;> rfl
      · have hnone : (Expr.apply first left).appliedOperator? = none :=
          appliedOperator?_eq_none_iff.mpr fun symbol own heq => by
            cases heq
            exact absurd ⟨symbol, rfl⟩ hident
        have hnone' : (Expr.apply first.desugar left.desugar).appliedOperator? = none :=
          appliedOperator?_eq_none_iff.mpr fun symbol own heq => by
            have hfirst : first.desugar = .ident symbol := (Expr.apply.inj heq).1
            exact absurd ⟨symbol, desugar_eq_ident_iff.mp hfirst⟩ hident
        rw [desugar, hnone, hnone']
        rfl
  | _ => rfl

/-- Neither a match nor a let that could be an application. -/
def Sugarless : Expr → Prop
  | .matchWith _ _ => False
  | .letIn false [⟨pattern, _⟩] _ => ¬ pattern.boundNames.Nodup
  | _ => True

private theorem sugarless_asApplication (e : Expr) : e.asApplication.Sugarless := by
  fun_cases asApplication e with
  | case1 scrutinee rules => trivial
  | case2 pattern bound body hdistinct => trivial
  | case3 pattern bound body hrepeated => exact hrepeated
  | case4 e hmatch hlet =>
      unfold Sugarless
      split
      · exact hmatch _ _ rfl
      · exact absurd rfl (hlet _ _ _)
      · trivial

private theorem everywhere_asApplication {e : Expr}
    (h : ∀ child ∈ e.children, child.Everywhere Sugarless) :
    e.asApplication.Everywhere Sugarless := by
  refine .intro e.sugarless_asApplication ?_
  cases e with
  | matchWith scrutinee rules =>
      have hrules : (Expr.function rules).Everywhere Sugarless :=
        .intro trivial fun body hbody => h body (List.mem_cons_of_mem scrutinee hbody)
      simpa [asApplication, children] using ⟨hrules, h scrutinee List.mem_cons_self⟩
  | letIn recursive bindings body =>
      rcases asApplication_letIn recursive bindings body with
        heq | ⟨pattern, bound, rfl, rfl, -, heq⟩
      · rw [heq]
        exact h
      · have hlambda : (Expr.lambda pattern body).Everywhere Sugarless :=
          .intro trivial (by simpa [children] using h body List.mem_cons_self)
        rw [heq]
        simpa [children] using ⟨hlambda, h bound (by simp [children])⟩
  | _ => exact h

theorem everywhere_desugar (e : Expr) : e.desugar.Everywhere Sugarless := by
  induction e using induction_children with
  | h e ih =>
      rw [e.desugar_eq_asApplication]
      refine everywhere_asApplication ?_
      rw [desugaring.children_under, List.forall_mem_map]
      exact ih

end Expr

/-! ### The comparison -/

/-- What failures are told apart by when their texts are left out. -/
inductive FailureSort where
  | error (kind : ErrorKind)
  | malformed
  | tooDeep (limit : Int)

def Failure.sort : Failure → FailureSort
  | .error e => .error e.kind
  | .malformed _ => .malformed
  | .tooDeep limit => .tooDeep limit

namespace Failure

private theorem sort_eq_error {failure : Failure} {e : EvalError}
    (h : failure.sort = (error e).sort) :
    ∃ e', failure = .error e' ∧ e'.kind = e.kind := by
  cases failure with
  | error e' => exact ⟨e', rfl, FailureSort.error.inj h⟩
  | malformed _ => cases h
  | tooDeep _ => cases h

private theorem sort_eq_malformed {failure : Failure} {m : Malformed}
    (h : failure.sort = (malformed m).sort) : ∃ m', failure = .malformed m' := by
  cases failure with
  | error _ => cases h
  | malformed m' => exact ⟨m', rfl⟩
  | tooDeep _ => cases h

private theorem sort_eq_tooDeep {failure : Failure} {limit : Int}
    (h : failure.sort = (tooDeep limit).sort) : failure = .tooDeep limit := by
  cases failure with
  | error _ => cases h
  | malformed _ => cases h
  | tooDeep _ => exact congrArg tooDeep (FailureSort.tooDeep.inj h)

end Failure

/-- The second code and the second values are the first ones, desugared. Failures may differ in
their texts. -/
def desugared : Simulation :=
  desugaring.simulation anyCode (fun failure failure' => failure'.sort = failure.sort)
    fun _ => False

theorem recursiveName_desugaring (p : Pattern) :
    p.recursiveName = p.recursiveName.mapError desugaring.evalError := by
  fun_induction Pattern.recursiveName p with
  | case1 name => rfl
  | case2 inner ty ih => exact ih
  | case3 p => rfl

theorem desugaring_lawful (settings : Settings) : desugaring.Lawful anyCode settings where
  discipline := anyCode_lawful settings
  tupleSize _ := trivial
  bindings? _ _ := rfl
  boundNames _ := rfl
  recursiveName := recursiveName_desugaring
  lambda _ _ := rfl
  function rules := congrArg Expr.function (Expr.desugarClauses_eq_map rules)
  stripped := Expr.stripped_desugar
  isFunctionLiteral := Expr.isFunctionLiteral_desugar
  operator _ := Expr.appliedOperator?_desugar _

theorem sort_desugaring (failure : Failure) : (desugaring.failure failure).sort = failure.sort := by
  cases failure with
  | error e => exact congrArg FailureSort.error (desugaring.kind_evalError e)
  | malformed m => rfl
  | tooDeep limit => rfl

theorem desugared_relates_trans {α β : Type} {R : α → β → Prop} {x : Run α} {y z : Run β}
    (hxy : desugared.Relates R x y) (hyz : desugared.Relates Eq y z) : desugared.Relates R x z := by
  refine Run.Ends.imp hxy ?_ ?_
  · rintro a ⟨b, hy, hab⟩
    obtain ⟨_, hz, rfl⟩ := hyz.ok hy
    exact ⟨b, hz, hab⟩
  · rintro failure (hexcused | ⟨failure', hy, hfailure⟩)
    · exact .inl hexcused
    · rcases hyz.error hy with hexcused | ⟨failure'', hz, hfailure'⟩
      · exact .inl hexcused
      · exact .inr ⟨failure'', hz, hfailure'.trans hfailure⟩

theorem desugared_relates_refl {α : Type} (x : Run α) : desugared.Relates Eq x x := by
  cases houtcome : x.outcome with
  | ok a => exact .of_ok houtcome houtcome rfl
  | error failure => exact .of_error houtcome houtcome rfl

/-! ### At the root -/

section Root

variable (settings : Settings)

/-- A function by rules that is applied where it is made dispatches as a match does. -/
private theorem eval_apply_function (budget : Nat) (rules : List Rule) (scrutinee : Expr)
    (env : Env) :
    eval settings budget (.apply (.function rules) scrutinee) env
      = eval settings budget (.matchWith scrutinee rules) env := by
  rcases budget with _ | _ | budget
  · rfl
  · -- The budget does for neither the function nor the scrutinee.
    rfl
  · have hfunc : eval settings (budget + 1) (.function rules) env
        = pure (Simulation.ruleFunction settings rules env) := rfl
    simp only [eval_succ _ (budget + 1), evalWith, Expr.appliedOperator?]
    rw [hfunc, pure_bind]
    refine bind_congr fun value => ?_
    rw [Simulation.ruleFunction]
    cases settings.captureFunctionEnv <;> rfl

/-- A lambda that is applied where it is made binds as a let of its parameter does. -/
private theorem eval_apply_lambda (budget : Nat) {p : Pattern} (hp : p.boundNames.Nodup)
    (bound body : Expr) (env : Env) :
    desugared.Relates Eq (eval settings budget (.letIn false [⟨p, bound⟩] body) env)
      (eval settings budget (.apply (.lambda p body) bound) env) := by
  rcases budget with _ | _ | budget
  · exact desugared_relates_refl _
  · have hfail : ∀ e, eval settings 0 e env = Run.fail (.tooDeep settings.maxDepth) :=
      fun _ => rfl
    simp only [eval_succ, evalWith, Expr.appliedOperator?, bindWith_single _ hp, hfail]
    exact .of_error rfl rfl rfl
  · have hfunc : eval settings (budget + 1) (.lambda p body) env
        = pure (.closure p body env false) := rfl
    simp only [eval_succ _ (budget + 1), evalWith, Expr.appliedOperator?, bindWith_single _ hp,
      Run.call_eq, bind_assoc]
    rw [hfunc, pure_bind]
    refine (desugared_relates_refl _).bind ?_
    rintro value _ rfl
    simp only [applyWith, Run.after_eq]
    cases p.match? env value with
    | none => exact .of_error rfl rfl rfl
    | some matched =>
        rw [pure_bind, Simulation.Relates, Run.outcome_bind_ok (outcome_traceEvent settings _)]
        exact desugared_relates_refl _

private theorem eval_asApplication (budget : Nat) (e : Expr) (env : Env) :
    desugared.Relates Eq (eval settings budget e env)
      (eval settings budget e.asApplication env) := by
  cases e with
  | matchWith scrutinee rules =>
      rw [Expr.asApplication, eval_apply_function]
      exact desugared_relates_refl _
  | letIn recursive bindings body =>
      rcases Expr.asApplication_letIn recursive bindings body with
        heq | ⟨pattern, bound, rfl, rfl, hdistinct, heq⟩
      · rw [heq]
        exact desugared_relates_refl _
      · rw [heq]
        exact eval_apply_lambda settings budget hdistinct bound body env
  | _ => exact desugared_relates_refl _

end Root

/-! ### Everywhere -/

/-- Desugared code ends in the desugared value or in a failure of the same sort, level by level. -/
theorem eval_relates_desugar (settings : Settings) (budget : Nat) (e : Expr) (env : Env) :
    desugared.Relates desugared.value (eval settings budget e env)
      (eval settings budget e.desugar env.desugar) := by
  induction budget generalizing e env with
  | zero => exact .of_error rfl rfl rfl
  | succ budget ih =>
      have hlawful : desugared.Lawful :=
        CodeMap.simulation_lawful (desugaring_lawful settings) sort_desugaring
      have hparts : ∀ {env e env' e'}, desugared.code env e env' e' →
          desugared.Relates desugared.value (eval settings budget e env)
            (eval settings budget e' env') := by
        rintro env e _ _ ⟨-, rfl, rfl⟩
        exact ih e env
      have hform : desugared.SameForm settings env env.desugar e (desugaring.under e) :=
        CodeMap.sameForm (desugaring_lawful settings) sort_desugaring env.obeys_anyCode trivial
      -- First the children are desugared, which keeps the form, and then the root.
      have hunder : desugared.Relates desugared.value (eval settings (budget + 1) e env)
          (eval settings (budget + 1) (desugaring.under e) env.desugar) := by
        rw [eval_succ, eval_succ]
        exact Simulation.evalWith_relates hlawful hparts hform
      rw [e.desugar_eq_asApplication]
      exact desugared_relates_trans hunder (eval_asApplication settings (budget + 1) _ _)

/-- Desugaring leaves no match and no let that could be an application, and evaluation does not tell
the difference: it ends in the desugared value, in an error of the same kind, or at the same limit.
The last case is that of malformed data, which no constructor lets pass. -/
theorem evaluate_desugar (settings : Settings) (e : Expr) (env : Env) :
    e.desugar.Everywhere Expr.Sugarless
      ∧ ((∃ value, (evaluate settings e env).outcome = .ok value
          ∧ (evaluate settings e.desugar env.desugar).outcome = .ok value.desugar)
        ∨ (∃ err err' : EvalError, (evaluate settings e env).outcome = .error (.error err)
          ∧ (evaluate settings e.desugar env.desugar).outcome = .error (.error err')
          ∧ err'.kind = err.kind)
        ∨ (∃ limit, (evaluate settings e env).outcome = .error (.tooDeep limit)
          ∧ (evaluate settings e.desugar env.desugar).outcome = .error (.tooDeep limit))
        ∨ ∃ m m' : Malformed, (evaluate settings e env).outcome = .error (.malformed m)
          ∧ (evaluate settings e.desugar env.desugar).outcome = .error (.malformed m')) := by
  refine ⟨e.everywhere_desugar, ?_⟩
  have hrelates := eval_relates_desugar settings settings.budget e env
  rw [evaluate]
  cases houtcome : (eval settings settings.budget e env).outcome with
  | ok value =>
      obtain ⟨_, hok, -, rfl⟩ := hrelates.ok houtcome
      exact .inl ⟨value, rfl, hok⟩
  | error failure =>
      rcases hrelates.error houtcome with hexcused | ⟨failure', herror, hsort⟩
      · exact hexcused.elim
      · rw [herror]
        cases failure with
        | error err =>
            obtain ⟨err', rfl, hkind⟩ := Failure.sort_eq_error hsort
            exact .inr (.inl ⟨err, err', rfl, rfl, hkind⟩)
        | malformed m =>
            obtain ⟨m', rfl⟩ := Failure.sort_eq_malformed hsort
            exact .inr (.inr (.inr ⟨m, m', rfl, rfl⟩))
        | tooDeep limit =>
            obtain rfl := Failure.sort_eq_tooDeep hsort
            exact .inr (.inr (.inl ⟨limit, rfl, rfl⟩))

-- A pattern that binds a name twice keeps its let, which the lambda would not refuse.
example :
    let twice : Pattern := .tuple [.ident "x", .ident "x"]
    let pair : Expr := .tuple [.const (.int 1), .const (.int 2)]
    let e : Expr := .letIn false [⟨twice, pair⟩] (.ident "x")
    (evaluate {} e.desugar .empty).outcome = .error (.error (.repeatedName "x"))
      ∧ (evaluate {} (.apply (.lambda twice (.ident "x")) pair) .empty).outcome = .ok (.int 2) :=
  ⟨rfl, rfl⟩

end MiniMl
