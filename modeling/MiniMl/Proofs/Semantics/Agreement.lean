import Mathlib.Order.Filter.AtTopBot.Basic
import MiniMl.Proofs.Depth
import MiniMl.Proofs.Semantics.Rules
/-!
# The evaluator follows the rules

Soundness goes up the budget: a level that is given sound evaluations of the parts is sound
(`evalWith_yields`). Completeness goes along the derivation: every rule names the evaluations that
its outcome needs, and each of them settles once the budget is large enough, so the whole does
(`Evaluates.settles`). Large enough is `Filter.atTop`, and no budget is ever computed.
-/

namespace MiniMl

/-! ### Soundness -/

/-- The run ends in one of the outcomes, unless it fails in another way than by an evaluation
error. -/
def Run.Yields {α : Type} (R : Except EvalError α → Prop) (x : Run α) : Prop :=
  x.Ends (fun a => R (.ok a)) fun failure => ∀ e, failure = .error e → R (.error e)

namespace Run.Yields

variable {α β : Type} {R : Except EvalError α → Prop} {S : Except EvalError β → Prop}

theorem ofEval {result : Except EvalError α} (h : R result) : (Run.ofEval result).Yields R := by
  cases result with
  | ok a => exact Ends.of_ok rfl h
  | error e =>
      refine Ends.of_error rfl fun e' heq => ?_
      cases heq
      exact h

theorem pure {a : α} (h : R (.ok a)) : (Pure.pure a : Run α).Yields R :=
  Ends.pure h

theorem fail {e : EvalError} (h : R (.error e)) : (Run.fail (.error e) : Run α).Yields R :=
  ofEval h

theorem imp {R' : Except EvalError α → Prop} {x : Run α} (hx : x.Yields R)
    (h : ∀ o, R o → R' o) : x.Yields R' :=
  Ends.imp hx (fun a => h (.ok a)) fun _ hfailure e heq => h (.error e) (hfailure e heq)

theorem bind {x : Run α} {next : α → Run β} (hx : x.Yields R)
    (herror : ∀ e, R (.error e) → S (.error e)) (hnext : ∀ a, R (.ok a) → (next a).Yields S) :
    (x >>= next).Yields S := by
  have hfirst : x.Ends (fun a => R (.ok a)) fun failure => ∀ e, failure = .error e → S (.error e) :=
    Ends.imp hx (fun _ => id) fun _ hfailure e heq => herror e (hfailure e heq)
  exact hfirst.bind hnext

end Run.Yields

section Soundness

variable {settings : Settings} {evaluation : Evaluation}
  (hparts : ∀ e env, (evaluation e env).Yields (Evaluates settings.captureFunctionEnv env e))

include hparts

theorem evalAll_yields (env : Env) (es : List Expr) :
    (evalAll evaluation env es).Yields (EvaluatesAll settings.captureFunctionEnv env es) := by
  induction es with
  | nil => exact .pure (.nil env)
  | cons e rest ih =>
      rw [evalAll]
      refine (hparts e env).bind (fun _ => .firstError) fun value hvalue => ?_
      refine ih.bind (fun _ => .restError hvalue) fun values hvalues => ?_
      exact .pure (.cons hvalue hvalues)

theorem dispatchWith_yields (env : Env) (value : Value) (rules : List Rule) :
    (dispatchWith settings evaluation env value rules).Yields
      (Dispatches settings.captureFunctionEnv env value rules) := by
  rw [dispatchWith]
  cases hselect : selectRule env value rules with
  | error e =>
      obtain ⟨rfl, hnone⟩ := selectRule_eq_error_iff.mp hselect
      exact Run.Yields.fail (.exhausted hnone)
  | ok selected =>
      have hfirst : FirstMatch env value rules selected.1 selected.2 := selectRule_eq_ok hselect
      refine Run.Ends.bind_of_ok rfl (Run.Ends.bind_of_ok (outcome_traceEvent settings _) ?_)
      exact (hparts selected.1.body selected.2).imp fun _ => .selected hfirst

theorem applyWith_yields (func arg : Value) (env : Env) :
    (applyWith settings evaluation func arg env).Yields
      (Applies settings.captureFunctionEnv func arg env) := by
  cases func with
  | function rules captured =>
      exact (dispatchWith_yields hparts captured arg rules).imp fun _ => .function
  | openFunction rules =>
      exact (dispatchWith_yields hparts env arg rules).imp fun _ => .openFunction
  | closure param body captured recursive =>
      simp only [applyWith]
      cases hparam : param.match? captured arg with
      | none => exact .fail (.closureMismatch hparam)
      | some matched =>
          refine Run.Ends.bind_of_ok (outcome_traceEvent settings _) ?_
          exact (hparts body matched).imp fun _ => .closure hparam
  | _ => exact .fail (.notFunction id)

omit hparts in
private theorem letMatches_matchBindings {env : Env} {bindings : List Binding} {values : List Value}
    (hlength : bindings.length = values.length) :
    LetMatches env bindings values (matchBindings env bindings values) := by
  induction bindings generalizing env values with
  | nil =>
      obtain rfl := List.length_eq_zero_iff.mp hlength.symm
      exact .done
  | cons binding rest ih =>
      cases values with
      | nil => cases hlength
      | cons value values =>
          rw [matchBindings]
          cases hmatch : binding.pattern.match? env value with
          | none => exact .mismatch hmatch
          | some matched => exact .next hmatch (ih (Nat.succ.inj hlength))

theorem bindWith_yields (env : Env) (recursive : Bool) (bindings : List Binding) :
    (bindWith evaluation env recursive bindings).Yields
      (Binds settings.captureFunctionEnv env recursive bindings) := by
  simp only [bindWith]
  cases hrepeated : firstRepeated [] (Pattern.boundNamesAll (bindings.map Clause.pattern)) with
  | some name =>
      obtain ⟨before, after, hnames, hbefore, hname⟩ := firstRepeated_eq_some_iff.mp hrepeated
      have hname : name ∈ before := hname.resolve_right List.not_mem_nil
      exact .fail (.repeated hnames (firstRepeated_eq_none_iff.mp hbefore).1 hname)
  | none =>
      have hdistinct : (letNames bindings).Nodup := (firstRepeated_eq_none_iff.mp hrepeated).1
      cases recursive with
      | true =>
          simp only [if_true]
          cases hdefinitions : definitionsOf bindings with
          | error e =>
              obtain ⟨before, binding, after, hbindings, hbefore, hbinding⟩ :=
                definitionsOf_eq_error_iff.mp hdefinitions
              exact Run.Yields.fail (.recursiveError hdistinct hbindings hbefore hbinding)
          | ok definitions =>
              refine Run.Ends.bind_of_ok rfl ?_
              rw [extendRecursive_definitionsOf env hdefinitions hdistinct]
              exact Run.Yields.pure (.recursive hdistinct (definitionsOf_eq_ok_iff.mp hdefinitions))
      | false =>
          -- That patterns and values pair up is known of the run only, not of the derivation.
          have hvalues := evalAll_yields hparts env (bindings.map Clause.body)
          cases houtcome : (evalAll evaluation env (bindings.map Clause.body)).outcome with
          | error failure =>
              refine Run.Ends.of_error (Run.outcome_bind_error houtcome _) ?_
              exact fun e heq => .valuesError hdistinct (hvalues.error houtcome e heq)
          | ok values =>
              have hlength : bindings.length = values.length := by
                rw [length_of_evalAll houtcome, List.length_map]
              refine Run.Ends.bind_of_ok houtcome (Run.Yields.ofEval ?_)
              exact .matched hdistinct (hvalues.ok houtcome) (letMatches_matchBindings hlength)

/-- One level of evaluation follows the rules, if the evaluation of the parts does. -/
theorem evalWith_yields (e : Expr) (env : Env) :
    (evalWith settings evaluation e env).Yields
      (Evaluates settings.captureFunctionEnv env e) := by
  cases e with
  | const c => exact .ofEval (.const env c)
  | ident name =>
      cases hfind : env.find name with
      | ok value => exact Run.Ends.of_ok hfind (.ident hfind)
      | error failure =>
          refine Run.Ends.of_error hfind fun e heq => ?_
          rw [heq] at hfind
          obtain ⟨rfl, hname⟩ := Env.find_eq_error_iff.mp hfind
          exact .unbound (mt Env.mem_names.mp hname)
  | typed inner ty => exact (hparts inner env).imp fun _ => .typed
  | list items =>
      exact (evalAll_yields hparts env items).bind (fun _ => .listError)
        fun values hvalues => .pure (.list hvalues)
  | tuple items =>
      have hitems := evalAll_yields hparts env items
      cases houtcome : (evalAll evaluation env items).outcome with
      | error failure =>
          refine Run.Ends.of_error (Run.outcome_bind_error houtcome _) ?_
          exact fun e heq => .tupleError (hitems.error houtcome e heq)
      | ok values =>
          refine Run.Ends.bind_of_ok houtcome ?_
          -- The check counts the values, the rule counts the items.
          rw [Value.checkedTuple]
          by_cases hsize : 2 ≤ values.length
          · rw [if_pos hsize]
            rw [length_of_evalAll houtcome] at hsize
            exact Run.Yields.pure (.tuple hsize (hitems.ok houtcome))
          · rw [if_neg hsize]
            exact Run.Ends.of_error rfl fun e heq => by cases heq
  | lambda param body => exact .pure (.lambda env param body)
  | ifThen cond yes =>
      refine (hparts cond env).bind (fun _ => .ifThenError) fun value hcond => ?_
      split
      · exact (hparts yes env).imp fun _ => .ifThenTrue hcond
      · exact .pure (.ifThenFalse hcond)
      · rename_i htrue hfalse
        exact .fail (.ifThenNotBool hcond fun b => b.rec hfalse htrue)
  | ifThenElse cond yes no =>
      refine (hparts cond env).bind (fun _ => .ifThenElseError) fun value hcond => ?_
      split
      · exact (hparts yes env).imp fun _ => .ifThenElseTrue hcond
      · exact (hparts no env).imp fun _ => .ifThenElseFalse hcond
      · rename_i htrue hfalse
        exact .fail (.ifThenElseNotBool hcond fun b => b.rec hfalse htrue)
  | optNone => exact .pure (.optNone env)
  | optSome inner =>
      exact (hparts inner env).bind (fun _ => .optSomeError)
        fun value hinner => .pure (.optSome hinner)
  | matchWith scrutinee rules =>
      refine (hparts scrutinee env).bind (fun _ => .matchError) fun value hscrutinee => ?_
      exact (dispatchWith_yields hparts env value rules).imp fun _ => .matchWith hscrutinee
  | function rules =>
      simp only [evalWith]
      cases hcapture : settings.captureFunctionEnv with
      | true => exact .pure (.function env rules rfl)
      | false => exact .pure (.openFunction env rules rfl)
  | apply func arg =>
      simp only [evalWith]
      cases hoperator : func.appliedOperator? with
      | some operation =>
          obtain ⟨rfl, hsymbol⟩ := Expr.eq_of_appliedOperator? hoperator
          refine (hparts operation.2 env).bind (fun _ => .operatorLeftError hsymbol) ?_
          intro leftValue hleft
          refine (hparts arg env).bind (fun _ => .operatorRightError hsymbol hleft) ?_
          intro rightValue hright
          exact .ofEval (.operator hsymbol hleft hright)
      | none =>
          have hgeneric := Expr.appliedOperator?_eq_none_iff.mp hoperator
          refine (hparts func env).bind (fun _ => .applyFuncError hgeneric) ?_
          intro funcValue hfunc
          refine (hparts arg env).bind (fun _ => .applyArgError hgeneric hfunc) ?_
          intro argValue harg
          exact (applyWith_yields hparts funcValue argValue env).imp
            fun _ => .apply hgeneric hfunc harg
  | letIn recursive bindings body =>
      refine (bindWith_yields hparts env recursive bindings).bind (fun _ => .letError) ?_
      exact fun extended hbind => (hparts body extended).imp fun _ => .letIn hbind
  | host obj => exact .fail (.host env obj)

end Soundness

theorem eval_yields (settings : Settings) (budget : Nat) (e : Expr) (env : Env) :
    (eval settings budget e env).Yields (Evaluates settings.captureFunctionEnv env e) := by
  induction budget generalizing e env with
  | zero => exact Run.Ends.of_error rfl fun e heq => nomatch heq
  | succ budget ih =>
      rw [eval_succ]
      exact evalWith_yields ih e env

/-! ### Completeness -/

/-- One level below a budget that is large enough, the budget is large enough too. -/
private theorem settles_of_evalWith {settings : Settings} {e : Expr} {env : Env}
    {outcome : Except Failure Value}
    (h : ∀ᶠ n in Filter.atTop, (evalWith settings (eval settings n) e env).outcome = outcome) :
    ∀ᶠ n in Filter.atTop, (eval settings n e env).outcome = outcome := by
  obtain ⟨least, hleast⟩ := Filter.eventually_atTop.mp h
  refine Filter.eventually_atTop.mpr ⟨least + 1, fun n hn => ?_⟩
  obtain ⟨budget, rfl⟩ : ∃ budget, n = budget + 1 := ⟨n - 1, by omega⟩
  exact hleast budget (by omega)

private theorem LetMatches.matchBindings_eq {env : Env} {bindings : List Binding}
    {values : List Value} {o : Except EvalError Env} (h : LetMatches env bindings values o) :
    matchBindings env bindings values = o := by
  induction h with
  | done => rfl
  | next hmatch _ ih =>
      rw [matchBindings, hmatch]
      exact ih
  | mismatch hmatch => rw [matchBindings, hmatch]

section Completeness

variable {settings : Settings}

mutual

theorem Evaluates.settles {capture : Bool} {env : Env} {e : Expr} {o : Except EvalError Value}
    (h : Evaluates capture env e o) (hcapture : settings.captureFunctionEnv = capture) :
    ∀ᶠ n in Filter.atTop, (eval settings n e env).outcome = o.mapError .error := by
  refine settles_of_evalWith ?_
  match h with
  | .const env c => exact .of_forall fun n => rfl
  | .ident hfind =>
      refine .of_forall fun n => ?_
      exact hfind
  | .unbound hname =>
      refine .of_forall fun n => ?_
      exact Env.find_eq_error_iff.mpr ⟨rfl, mt Env.mem_names.mpr hname⟩
  | .typed hinner => exact hinner.settles hcapture
  | .list hitems =>
      filter_upwards [hitems.settles hcapture] with n hvalues
      exact Run.outcome_bind_ok hvalues _
  | .listError hitems =>
      filter_upwards [hitems.settles hcapture] with n herror
      exact Run.outcome_bind_error herror _
  | @Evaluates.tuple _ _ _ values hsize hitems =>
      filter_upwards [hitems.settles hcapture] with n hvalues
      have hlength : 2 ≤ values.length := by
        rw [length_of_evalAll hvalues]
        exact hsize
      refine (Run.outcome_bind_ok hvalues _).trans ?_
      rw [Value.checkedTuple, if_pos hlength]
      rfl
  | .tupleError hitems =>
      filter_upwards [hitems.settles hcapture] with n herror
      exact Run.outcome_bind_error herror _
  | .lambda env param body => exact .of_forall fun n => rfl
  | .ifThenTrue hcond hyes =>
      filter_upwards [hcond.settles hcapture, hyes.settles hcapture] with n hvalue ho
      exact (Run.outcome_bind_ok hvalue _).trans ho
  | .ifThenFalse hcond =>
      filter_upwards [hcond.settles hcapture] with n hvalue
      exact Run.outcome_bind_ok hvalue _
  | .ifThenNotBool hcond hnot =>
      filter_upwards [hcond.settles hcapture] with n hvalue
      refine (Run.outcome_bind_ok hvalue _).trans ?_
      split
      · exact absurd rfl (hnot true)
      · exact absurd rfl (hnot false)
      · rfl
  | .ifThenError hcond =>
      filter_upwards [hcond.settles hcapture] with n herror
      exact Run.outcome_bind_error herror _
  | .ifThenElseTrue hcond hyes =>
      filter_upwards [hcond.settles hcapture, hyes.settles hcapture] with n hvalue ho
      exact (Run.outcome_bind_ok hvalue _).trans ho
  | .ifThenElseFalse hcond hno =>
      filter_upwards [hcond.settles hcapture, hno.settles hcapture] with n hvalue ho
      exact (Run.outcome_bind_ok hvalue _).trans ho
  | .ifThenElseNotBool hcond hnot =>
      filter_upwards [hcond.settles hcapture] with n hvalue
      refine (Run.outcome_bind_ok hvalue _).trans ?_
      split
      · exact absurd rfl (hnot true)
      · exact absurd rfl (hnot false)
      · rfl
  | .ifThenElseError hcond =>
      filter_upwards [hcond.settles hcapture] with n herror
      exact Run.outcome_bind_error herror _
  | .optNone env => exact .of_forall fun n => rfl
  | .optSome hinner =>
      filter_upwards [hinner.settles hcapture] with n hvalue
      exact Run.outcome_bind_ok hvalue _
  | .optSomeError hinner =>
      filter_upwards [hinner.settles hcapture] with n herror
      exact Run.outcome_bind_error herror _
  | .matchWith hscrutinee hrules =>
      filter_upwards [hscrutinee.settles hcapture, hrules.settles hcapture] with n hvalue ho
      exact (Run.outcome_bind_ok hvalue _).trans ho
  | .matchError hscrutinee =>
      filter_upwards [hscrutinee.settles hcapture] with n herror
      exact Run.outcome_bind_error herror _
  | .function env rules hon =>
      refine .of_forall fun n => ?_
      simp only [evalWith, hcapture, hon]
      rfl
  | .openFunction env rules hoff =>
      refine .of_forall fun n => ?_
      simp only [evalWith, hcapture, hoff]
      rfl
  | .operator hsymbol hleft hright =>
      filter_upwards [hleft.settles hcapture, hright.settles hcapture] with n hleftValue hrightValue
      simp only [evalWith, Expr.appliedOperator?_operator hsymbol]
      rw [Run.outcome_bind_ok hleftValue, Run.outcome_bind_ok hrightValue]
      rfl
  | .operatorLeftError hsymbol hleft =>
      filter_upwards [hleft.settles hcapture] with n herror
      simp only [evalWith, Expr.appliedOperator?_operator hsymbol]
      exact Run.outcome_bind_error herror _
  | .operatorRightError hsymbol hleft hright =>
      filter_upwards [hleft.settles hcapture, hright.settles hcapture] with n hleftValue herror
      simp only [evalWith, Expr.appliedOperator?_operator hsymbol]
      rw [Run.outcome_bind_ok hleftValue]
      exact Run.outcome_bind_error herror _
  | .apply hgeneric hfunc harg happly =>
      filter_upwards [hfunc.settles hcapture, harg.settles hcapture, happly.settles hcapture]
        with n hfuncValue hargValue ho
      simp only [evalWith, Expr.appliedOperator?_eq_none_iff.mpr hgeneric]
      rw [Run.outcome_bind_ok hfuncValue, Run.outcome_bind_ok hargValue]
      exact ho
  | .applyFuncError hgeneric hfunc =>
      filter_upwards [hfunc.settles hcapture] with n herror
      simp only [evalWith, Expr.appliedOperator?_eq_none_iff.mpr hgeneric]
      exact Run.outcome_bind_error herror _
  | .applyArgError hgeneric hfunc harg =>
      filter_upwards [hfunc.settles hcapture, harg.settles hcapture] with n hfuncValue herror
      simp only [evalWith, Expr.appliedOperator?_eq_none_iff.mpr hgeneric]
      rw [Run.outcome_bind_ok hfuncValue]
      exact Run.outcome_bind_error herror _
  | .letIn hbind hbody =>
      filter_upwards [hbind.settles hcapture, hbody.settles hcapture] with n hextended ho
      exact (Run.outcome_bind_ok hextended _).trans ho
  | .letError hbind =>
      filter_upwards [hbind.settles hcapture] with n herror
      exact Run.outcome_bind_error herror _
  | .host env obj => exact .of_forall fun n => rfl

theorem EvaluatesAll.settles {capture : Bool} {env : Env} {es : List Expr}
    {o : Except EvalError (List Value)} (h : EvaluatesAll capture env es o)
    (hcapture : settings.captureFunctionEnv = capture) :
    ∀ᶠ n in Filter.atTop, (evalAll (eval settings n) env es).outcome = o.mapError .error := by
  match h with
  | .nil env => exact .of_forall fun n => rfl
  | .cons hfirst hrest =>
      filter_upwards [hfirst.settles hcapture, hrest.settles hcapture] with n hvalue hvalues
      rw [evalAll, Run.outcome_bind_ok hvalue]
      exact Run.outcome_bind_ok hvalues _
  | .firstError hfirst =>
      filter_upwards [hfirst.settles hcapture] with n herror
      rw [evalAll]
      exact Run.outcome_bind_error herror _
  | .restError hfirst hrest =>
      filter_upwards [hfirst.settles hcapture, hrest.settles hcapture] with n hvalue herror
      rw [evalAll, Run.outcome_bind_ok hvalue]
      exact Run.outcome_bind_error herror _

theorem Dispatches.settles {capture : Bool} {env : Env} {value : Value} {rules : List Rule}
    {o : Except EvalError Value} (h : Dispatches capture env value rules o)
    (hcapture : settings.captureFunctionEnv = capture) :
    ∀ᶠ n in Filter.atTop, (dispatchWith settings (eval settings n) env value rules).outcome
      = o.mapError .error := by
  match h with
  | .selected hfirst hbody =>
      filter_upwards [hbody.settles hcapture] with n ho
      rw [dispatchWith, hfirst.selectRule_eq]
      refine (Run.outcome_bind_ok rfl _).trans ?_
      exact (Run.outcome_bind_ok (outcome_traceEvent settings _) _).trans ho
  | .exhausted hnone =>
      refine .of_forall fun n => ?_
      rw [dispatchWith, selectRule_eq_error_iff.mpr ⟨rfl, hnone⟩]
      rfl

theorem Applies.settles {capture : Bool} {func arg : Value} {env : Env} {o : Except EvalError Value}
    (h : Applies capture func arg env o) (hcapture : settings.captureFunctionEnv = capture) :
    ∀ᶠ n in Filter.atTop, (applyWith settings (eval settings n) func arg env).outcome
      = o.mapError .error := by
  match h with
  | .function hrules => exact hrules.settles hcapture
  | .openFunction hrules => exact hrules.settles hcapture
  | .closure hparam hbody =>
      filter_upwards [hbody.settles hcapture] with n ho
      simp only [applyWith, hparam]
      exact (Run.outcome_bind_ok (outcome_traceEvent settings _) _).trans ho
  | .closureMismatch hparam =>
      refine .of_forall fun n => ?_
      simp only [applyWith, hparam]
      rfl
  | .notFunction hfunc =>
      refine .of_forall fun n => ?_
      cases func with
      | function rules captured => exact absurd trivial hfunc
      | openFunction rules => exact absurd trivial hfunc
      | closure param body captured recursive => exact absurd trivial hfunc
      | _ => rfl

theorem Binds.settles {capture : Bool} {env : Env} {recursive : Bool} {bindings : List Binding}
    {o : Except EvalError Env} (h : Binds capture env recursive bindings o)
    (hcapture : settings.captureFunctionEnv = capture) :
    ∀ᶠ n in Filter.atTop, (bindWith (eval settings n) env recursive bindings).outcome
      = o.mapError .error := by
  match h with
  | @Binds.repeated _ _ _ _ before after name hnames hbefore hname =>
      refine .of_forall fun n => ?_
      have hfirst : firstRepeated [] before = none :=
        firstRepeated_eq_none_iff.mpr ⟨hbefore, fun _ _ => List.not_mem_nil⟩
      have hrepeated : firstRepeated [] (Pattern.boundNamesAll (bindings.map Clause.pattern))
          = some name :=
        firstRepeated_eq_some_iff.mpr ⟨before, after, hnames, hfirst, .inl hname⟩
      simp only [bindWith, hrepeated]
      rfl
  | .recursive hdistinct hdefinitions =>
      refine .of_forall fun n => ?_
      have hok := definitionsOf_eq_ok_iff.mpr hdefinitions
      rw [bindWith_of_nodup true hdistinct, hok]
      refine (Run.outcome_bind_ok rfl _).trans ?_
      rw [extendRecursive_definitionsOf env hok hdistinct]
      rfl
  | .recursiveError hdistinct hbindings hbefore hbinding =>
      refine .of_forall fun n => ?_
      rw [bindWith_of_nodup true hdistinct,
        definitionsOf_eq_error_iff.mpr ⟨_, _, _, hbindings, hbefore, hbinding⟩]
      rfl
  | .matched hdistinct hvalues hmatch =>
      filter_upwards [hvalues.settles hcapture] with n hok
      rw [bindWith_of_nodup false hdistinct]
      refine (Run.outcome_bind_ok hok _).trans ?_
      rw [hmatch.matchBindings_eq]
      rfl
  | .valuesError hdistinct hvalues =>
      filter_upwards [hvalues.settles hcapture] with n herror
      rw [bindWith_of_nodup false hdistinct]
      exact Run.outcome_bind_error herror _

end

end Completeness

private theorem Run.not_tooDeep_of_outcome {α : Type} {x : Run α} {o : Except EvalError α}
    (h : x.outcome = o.mapError .error) : ¬ x.TooDeep := by
  intro ⟨limit, hlimit⟩
  rw [h] at hlimit
  cases o <;> cases hlimit

/-- The rules give an expression an outcome exactly if the evaluator comes to it at some depth
limit. -/
theorem evaluates_iff_exists_depth (settings : Settings) (env : Env) (e : Expr)
    (o : Except EvalError Value) :
    Evaluates settings.captureFunctionEnv env e o
      ↔ ∃ m : Int, (evaluate { settings with maxDepth := m } e env).outcome
        = o.mapError .error := by
  constructor
  · intro h
    have hsettles : ∀ᶠ n in Filter.atTop, (eval settings n e env).outcome = o.mapError .error :=
      h.settles rfl
    obtain ⟨n, hn⟩ := hsettles.exists
    -- The limit that the settings name is another one, but this shows only in runs cut short.
    have hsame : eval settings n e env = eval { settings with maxDepth := n } n e env :=
      (eval_below settings settings.maxDepth n (Nat.le_refl n) e env).eq
        (Run.not_tooDeep_of_outcome hn)
    exact ⟨n, by rw [evaluate, Settings.budget, Int.toNat_natCast, ← hsame, hn]⟩
  · intro ⟨m, hm⟩
    have hyields := eval_yields { settings with maxDepth := m } m.toNat e env
    cases o with
    | ok value => exact hyields.ok hm
    | error err => exact hyields.error hm err rfl

end MiniMl
