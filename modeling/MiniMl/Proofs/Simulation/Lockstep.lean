import MiniMl.Eval.Program
import MiniMl.Proofs.Safety.Discipline
import MiniMl.Proofs.Semantics.Rules
import MiniMl.Proofs.Simulation.Values
/-!
# Two evaluations in lockstep

To compare what two expressions do in two environments, say which pairs of code, values and failures
correspond: that is a `Simulation`. Two expressions have the same form (`SameForm`) if they are made
by the same constructor, if their parts correspond, and if the bodies they may go on with correspond
once corresponding values are bound. A level then takes expressions of the same form to
corresponding outcomes, provided the evaluations of the parts do (`evalWith_relates`). What a
particular comparison has to add is that corresponding code has the same form, and the induction on
the budgets.

A failure of the first evaluation may excuse whatever the second one does. That is for second
evaluations that go less deep than the first.
-/

namespace MiniMl

/-- The failure quotes no code. -/
def Failure.Codeless : Failure → Prop
  | .error (.argumentMismatch _ _) | .error (.letMismatch _ _) | .error (.recursivePattern _)
  | .error (.recursiveNotFunction _) | .malformed (.notFunctionLiteral _) => False
  | _ => True

/-- Which code, values and failures of two evaluations correspond. -/
structure Simulation where
  /-- The first expression in the first environment corresponds to the second in the second. -/
  code : Env → Expr → Env → Expr → Prop
  value : Value → Value → Prop
  failure : Failure → Failure → Prop
  /-- After this failure of the first evaluation nothing is asked of the second. -/
  excused : Failure → Prop

namespace Simulation

variable (s : Simulation)

/-- The runs end in related results or corresponding failures, unless the first is excused. -/
def Relates {α β : Type} (R : α → β → Prop) (x : Run α) (y : Run β) : Prop :=
  x.Ends (fun a => ∃ b, y.outcome = .ok b ∧ R a b) fun failure =>
    s.excused failure ∨ ∃ failure', y.outcome = .error failure' ∧ s.failure failure failure'

/-- The patterns of two clauses match alike, and their bodies correspond after a match. -/
structure SameClause (env env' : Env) (clause clause' : Clause Expr) : Prop where
  pattern : ∀ value, clause'.pattern.bindings? value = clause.pattern.bindings? value
  body : ∀ {value bindings bindings'}, clause.pattern.bindings? value = some bindings →
    BindingsRelated s.value bindings bindings' →
    s.code (env.extendAll bindings) clause.body (env'.extendAll bindings') clause'.body

/-- The patterns of two bindings of a let match alike, and their right-hand sides correspond. -/
structure SameBinding (env env' : Env) (binding binding' : Binding) : Prop where
  pattern : ∀ value, binding'.pattern.bindings? value = binding.pattern.bindings? value
  mismatch : ∀ kind, s.failure (.error (.letMismatch kind binding.pattern))
    (.error (.letMismatch kind binding'.pattern))
  body : s.code env binding.body env' binding'.body

/-- Two functions of one kind do the same on corresponding arguments. Functions without an
environment run at the two sites of the application. -/
inductive Callable (site site' : Env) : Value → Value → Prop
  | closure {param param' : Pattern} {body body' : Expr} {env env' : Env}
      {recursive recursive' : Bool} (hbody : s.SameClause env env' ⟨param, body⟩ ⟨param', body'⟩)
      (hmismatch : ∀ kind, s.failure (.error (.argumentMismatch kind param))
        (.error (.argumentMismatch kind param'))) :
      Callable site site' (.closure param body env recursive)
        (.closure param' body' env' recursive')
  | function {rules rules' : List Rule} {env env' : Env}
      (hrules : List.Forall₂ (s.SameClause env env') rules rules') :
      Callable site site' (.function rules env) (.function rules' env')
  | openFunction {rules rules' : List Rule}
      (hrules : List.Forall₂ (s.SameClause site site') rules rules') :
      Callable site site' (.openFunction rules) (.openFunction rules')

/-- The value of a function literal by rules. -/
def ruleFunction (settings : Settings) (rules : List Rule) (env : Env) : Value :=
  if settings.captureFunctionEnv then .function rules env else .openFunction rules

/-- Two expressions are made in the same way from parts that correspond. -/
inductive SameForm (settings : Settings) (env env' : Env) : Expr → Expr → Prop
  | const (c : Constant) : SameForm settings env env' (.const c) (.const c)
  | ident {name : String} (hfind : s.Relates s.value (Run.ofOutcome (env.find name))
        (Run.ofOutcome (env'.find name))) :
      SameForm settings env env' (.ident name) (.ident name)
  | typed {inner inner' : Expr} {ty ty' : Ty} (hinner : s.code env inner env' inner') :
      SameForm settings env env' (.typed inner ty) (.typed inner' ty')
  | list {items items' : List Expr} (hitems : List.Forall₂ (s.code env · env' ·) items items') :
      SameForm settings env env' (.list items) (.list items')
  | tuple {items items' : List Expr} (hitems : List.Forall₂ (s.code env · env' ·) items items') :
      SameForm settings env env' (.tuple items) (.tuple items')
  | lambda {param param' : Pattern} {body body' : Expr}
      (hvalue : s.value (.closure param body env false) (.closure param' body' env' false)) :
      SameForm settings env env' (.lambda param body) (.lambda param' body')
  | ifThen {cond cond' yes yes' : Expr} (hcond : s.code env cond env' cond')
      (hyes : s.code env yes env' yes') :
      SameForm settings env env' (.ifThen cond yes) (.ifThen cond' yes')
  | ifThenElse {cond cond' yes yes' no no' : Expr} (hcond : s.code env cond env' cond')
      (hyes : s.code env yes env' yes') (hno : s.code env no env' no') :
      SameForm settings env env' (.ifThenElse cond yes no) (.ifThenElse cond' yes' no')
  | optNone : SameForm settings env env' .optNone .optNone
  | optSome {inner inner' : Expr} (hinner : s.code env inner env' inner') :
      SameForm settings env env' (.optSome inner) (.optSome inner')
  | matchWith {scrutinee scrutinee' : Expr} {rules rules' : List Rule}
      (hscrutinee : s.code env scrutinee env' scrutinee')
      (hrules : List.Forall₂ (s.SameClause env env') rules rules') :
      SameForm settings env env' (.matchWith scrutinee rules) (.matchWith scrutinee' rules')
  | function {rules rules' : List Rule} (hvalue : s.value (ruleFunction settings rules env)
        (ruleFunction settings rules' env')) :
      SameForm settings env env' (.function rules) (.function rules')
  | operator {symbol : String} {left left' right right' : Expr}
      (hsymbol : Operator.isSymbol symbol = true) (hleft : s.code env left env' left')
      (hright : s.code env right env' right') :
      SameForm settings env env' (.apply (.apply (.ident symbol) left) right)
        (.apply (.apply (.ident symbol) left') right')
  | apply {func func' arg arg' : Expr} (hgeneric : func.appliedOperator? = none)
      (hgeneric' : func'.appliedOperator? = none) (hfunc : s.code env func env' func')
      (harg : s.code env arg env' arg')
      (hcall : ∀ {value value'}, s.value value value' → value.IsFunction →
        s.Callable env env' value value') :
      SameForm settings env env' (.apply func arg) (.apply func' arg')
  | letIn {bindings bindings' : List Binding} {body body' : Expr}
      (hnames : letNames bindings' = letNames bindings)
      (hbindings : List.Forall₂ (s.SameBinding env env') bindings bindings')
      (hbody : ∀ {values entries entries'},
        Pattern.bindingsAll? (bindings.map Clause.pattern) values = some entries →
        BindingsRelated s.value entries entries' →
        s.code (env.extendAll entries) body (env'.extendAll entries') body') :
      SameForm settings env env' (.letIn false bindings body) (.letIn false bindings' body')
  | letRec {bindings bindings' : List Binding} {body body' : Expr}
      (hnames : letNames bindings' = letNames bindings)
      (hbody : ∀ {definitions}, definitionsOf bindings = .ok definitions → ∃ definitions',
        definitionsOf bindings' = .ok definitions'
          ∧ s.code (.recursive env definitions) body (.recursive env' definitions') body')
      (herror : ∀ {e}, definitionsOf bindings = .error e → ∃ e',
        definitionsOf bindings' = .error e' ∧ s.failure (.error e) (.error e')) :
      SameForm settings env env' (.letIn true bindings body) (.letIn true bindings' body')
  | host (obj : HostObject) : SameForm settings env env' (.host obj) (.host obj)

/-- What any comparison needs of its values and failures. -/
structure Lawful : Prop where
  values : Value.Congruence s.value
  codeless : ∀ {failure}, failure.Codeless → s.failure failure failure

variable {s}

private theorem codeless_of_operator {e : EvalError}
    (h : e.kind = .divisionByZero ∨ e.kind = .unsupportedOperation) :
    (Failure.error e).Codeless := by
  cases e with
  | argumentMismatch | letMismatch | recursivePattern | recursiveNotFunction =>
      simp [EvalError.kind] at h
  | _ => trivial

/-! ### Related runs -/

namespace Relates

variable {α β γ δ : Type} {R : α → β → Prop} {S : γ → δ → Prop}

theorem of_ok {x : Run α} {y : Run β} {a : α} {b : β} (hx : x.outcome = .ok a)
    (hy : y.outcome = .ok b) (h : R a b) : s.Relates R x y :=
  Run.Ends.of_ok hx ⟨b, hy, h⟩

theorem of_error {x : Run α} {y : Run β} {failure failure' : Failure}
    (hx : x.outcome = .error failure) (hy : y.outcome = .error failure')
    (h : s.failure failure failure') : s.Relates R x y :=
  Run.Ends.of_error hx (.inr ⟨failure', hy, h⟩)

theorem pure {a : α} {b : β} (h : R a b) : s.Relates R (Pure.pure a) (Pure.pure b) :=
  of_ok rfl rfl h

theorem fail {failure failure' : Failure} (h : s.failure failure failure') :
    s.Relates R (Run.fail failure) (Run.fail failure') :=
  of_error rfl rfl h

theorem bind_of_ok {x : Run α} {y : Run β} {a : α} {b : β} {next : α → Run γ}
    {next' : β → Run δ} (hx : x.outcome = .ok a) (hy : y.outcome = .ok b)
    (h : s.Relates S (next a) (next' b)) : s.Relates S (x >>= next) (y >>= next') := by
  rw [Relates, Run.outcome_bind_ok hy]
  exact Run.Ends.bind_of_ok hx h

theorem bind {x : Run α} {y : Run β} {next : α → Run γ} {next' : β → Run δ}
    (h : s.Relates R x y) (hnext : ∀ a b, R a b → s.Relates S (next a) (next' b)) :
    s.Relates S (x >>= next) (y >>= next') := by
  cases houtcome : x.outcome with
  | ok a =>
      obtain ⟨b, hb, hab⟩ := h.ok houtcome
      exact bind_of_ok houtcome hb (hnext a b hab)
  | error failure =>
      refine Run.Ends.of_error (Run.outcome_bind_error houtcome next) ?_
      rcases h.error houtcome with hexcused | ⟨failure', hy, hfailure⟩
      · exact .inl hexcused
      · exact .inr ⟨failure', Run.outcome_bind_error hy next', hfailure⟩

theorem reporting {x : Run α} {y : Run β} (event : EvalError → Event) (h : s.Relates R x y) :
    s.Relates R (x.reporting event) (y.reporting event) := by
  rw [Relates, Run.outcome_reporting y]
  exact Run.Ends.reporting event h

end Relates

/-! ### One level -/

section Level

variable {settings : Settings} {evaluation evaluation' : Evaluation} (hs : s.Lawful)
  (hparts : ∀ {env e env' e'}, s.code env e env' e' →
    s.Relates s.value (evaluation e env) (evaluation' e' env'))

include hparts in
theorem evalAll_relates {env env' : Env} {es es' : List Expr}
    (h : List.Forall₂ (s.code env · env' ·) es es') :
    s.Relates (fun values values' =>
        values.length = es.length ∧ List.Forall₂ s.value values values')
      (evalAll evaluation env es) (evalAll evaluation' env' es') := by
  induction h with
  | nil => exact .pure ⟨rfl, .nil⟩
  | cons hfirst _ ih =>
      rw [evalAll, evalAll]
      refine (hparts hfirst).bind fun value value' hvalue => ?_
      refine ih.bind fun values values' hvalues => .pure ⟨?_, .cons hvalue hvalues.2⟩
      rw [List.length_cons, List.length_cons, hvalues.1]

include hs in
private theorem SameClause.match?_rel {env env' : Env} {clause clause' : Clause Expr}
    (h : s.SameClause env env' clause clause') {value value' : Value}
    (hvalue : s.value value value') :
    Option.Rel (fun matched matched' => s.code matched clause.body matched' clause'.body)
      (clause.pattern.match? env value) (clause'.pattern.match? env' value') := by
  have hbindings := hs.values.bindings?_rel clause.pattern hvalue
  rw [Pattern.match?_eq, Pattern.match?_eq, h.pattern value']
  cases hfirst : clause.pattern.bindings? value with
  | none =>
      rw [hfirst] at hbindings
      cases hsecond : clause.pattern.bindings? value' with
      | none => exact .none
      | some bindings' =>
          rw [hsecond] at hbindings
          cases hbindings
  | some bindings =>
      rw [hfirst] at hbindings
      cases hsecond : clause.pattern.bindings? value' with
      | none =>
          rw [hsecond] at hbindings
          cases hbindings
      | some bindings' =>
          rw [hsecond] at hbindings
          cases hbindings with
          | some hrelated => exact .some (h.body hfirst hrelated)

include hs in
/-- The first rules that match have corresponding bodies. -/
theorem selectRule_relates {env env' : Env} {value value' : Value} (hvalue : s.value value value')
    {rules rules' : List Rule} (hrules : List.Forall₂ (s.SameClause env env') rules rules') :
    s.Relates (fun selected selected' => s.code selected.2 selected.1.body selected'.2
        selected'.1.body)
      (Run.ofEval (selectRule env value rules)) (Run.ofEval (selectRule env' value' rules')) := by
  induction hrules with
  | nil =>
      rw [selectRule, selectRule, (hs.values.shape hvalue).kind_eq]
      exact .fail (hs.codeless trivial)
  | @cons rule rule' rest rest' hrule _ ih =>
      rw [selectRule, selectRule]
      have hmatch := hrule.match?_rel hs hvalue
      generalize rule.pattern.match? env value = matched,
        rule'.pattern.match? env' value' = matched' at hmatch
      cases hmatch with
      | none => exact ih
      | some hcode => exact .pure hcode

include hs hparts in
theorem dispatchWith_relates {env env' : Env} {value value' : Value}
    (hvalue : s.value value value') {rules rules' : List Rule}
    (hrules : List.Forall₂ (s.SameClause env env') rules rules') :
    s.Relates s.value (dispatchWith settings evaluation env value rules)
      (dispatchWith settings evaluation' env' value' rules') := by
  rw [dispatchWith, dispatchWith]
  refine (selectRule_relates hs hvalue hrules).bind fun selected selected' hcode => ?_
  exact .bind_of_ok (outcome_traceEvent settings _) (outcome_traceEvent settings _) (hparts hcode)

include hs hparts in
theorem applyWith_relates {site site' : Env} {func func' arg arg' : Value}
    (hfunc : s.value func func')
    (hcall : func.IsFunction → s.Callable site site' func func') (harg : s.value arg arg') :
    s.Relates s.value (applyWith settings evaluation func arg site)
      (applyWith settings evaluation' func' arg' site') := by
  cases hs.values.shape hfunc with
  | function rules rules' env env' =>
      cases hcall trivial with
      | function hrules => exact dispatchWith_relates hs hparts harg hrules
  | openFunction rules rules' =>
      cases hcall trivial with
      | openFunction hrules => exact dispatchWith_relates hs hparts harg hrules
  | closure param param' body body' env env' =>
      cases hcall trivial with
      | closure hbody hmismatch =>
          have hmatch : Option.Rel (fun matched matched' => s.code matched body matched' body')
              (param.match? env arg) (param'.match? env' arg') := hbody.match?_rel hs harg
          simp only [applyWith]
          generalize param.match? env arg = matched, param'.match? env' arg' = matched' at hmatch
          cases hmatch with
          | none =>
              rw [(hs.values.shape harg).kind_eq]
              exact .fail (hmismatch arg.kind)
          | some hcode =>
              exact .bind_of_ok (outcome_traceEvent settings _) (outcome_traceEvent settings _)
                (hparts hcode)
  | atom hatom =>
      cases func with
      | list | tuple | optSome | closure | function | openFunction => exact hatom.elim
      | _ => exact .fail (hs.codeless trivial)
  | _ => exact .fail (hs.codeless trivial)

include hs in
/-- The patterns of a let bind corresponding values, or fail to match at corresponding places. -/
theorem matchBindings_relates {env env' site site' : Env} {bindings bindings' : List Binding}
    (hbindings : List.Forall₂ (s.SameBinding site site') bindings bindings')
    {values values' : List Value} (hvalues : List.Forall₂ s.value values values')
    (hlength : bindings.length = values.length) :
    s.Relates (fun extended extended' => ∃ entries entries',
        Pattern.bindingsAll? (bindings.map Clause.pattern) values = some entries
          ∧ BindingsRelated s.value entries entries' ∧ extended = env.extendAll entries
          ∧ extended' = env'.extendAll entries')
      (Run.ofEval (matchBindings env bindings values))
      (Run.ofEval (matchBindings env' bindings' values')) := by
  induction hbindings generalizing env env' values values' with
  | nil =>
      cases hvalues with
      | nil => exact .pure ⟨[], [], rfl, .nil, rfl, rfl⟩
      | cons _ _ => cases hlength
  | @cons binding binding' rest rest' hbinding _ ih =>
      cases hvalues with
      | nil => cases hlength
      | @cons value value' others others' hvalue hothers =>
          -- The patterns extend the environments one after the other, and the entries add up.
          have hfirst := hs.values.bindings?_rel binding.pattern hvalue
          rw [matchBindings, matchBindings, Pattern.match?_eq, Pattern.match?_eq,
            hbinding.pattern value', List.map_cons, Pattern.bindingsAll?]
          generalize binding.pattern.bindings? value = entries,
            binding.pattern.bindings? value' = entries' at hfirst
          cases hfirst with
          | none =>
              rw [(hs.values.shape hvalue).kind_eq]
              exact .fail (hbinding.mismatch value.kind)
          | @some entries entries' hentries =>
              have hrest := @ih (env.extendAll entries) (env'.extendAll entries') others others'
                hothers (Nat.succ.inj hlength)
              refine Run.Ends.imp hrest ?_ fun _ => id
              rintro extended ⟨extended', hok, more, more', hmore, hrelated, rfl, rfl⟩
              refine ⟨_, hok, entries ++ more, entries' ++ more', ?_,
                List.rel_append hentries hrelated, ?_, ?_⟩
              · rw [hmore]
                rfl
              · exact (env.extendAll_append entries more).symm
              · exact (env'.extendAll_append entries' more').symm

include hs hparts in
/-- The environments of two lets of the same form let their bodies correspond. -/
theorem bindWith_relates {env env' : Env} {recursive : Bool} {bindings bindings' : List Binding}
    {body body' : Expr} (h : s.SameForm settings env env' (.letIn recursive bindings body)
      (.letIn recursive bindings' body')) :
    s.Relates (fun extended extended' => s.code extended body extended' body')
      (bindWith evaluation env recursive bindings)
      (bindWith evaluation' env' recursive bindings') := by
  have hnames : letNames bindings' = letNames bindings := by
    cases h <;> assumption
  simp only [bindWith]
  rw [← letNames, ← letNames, hnames]
  cases hrepeated : firstRepeated [] (letNames bindings) with
  | some name => exact .fail (hs.codeless trivial)
  | none =>
      have hdistinct : (letNames bindings).Nodup := (firstRepeated_eq_none_iff.mp hrepeated).1
      cases h with
      | letIn _ hbindings hbody =>
          have hbodies : List.Forall₂ (s.code env · env' ·) (bindings.map Clause.body)
              (bindings'.map Clause.body) := by
            rw [List.forall₂_map_left_iff, List.forall₂_map_right_iff]
            exact hbindings.imp fun _ _ hbinding => hbinding.body
          refine (evalAll_relates hparts hbodies).bind fun values values' hvalues => ?_
          have hlength : bindings.length = values.length := by
            rw [hvalues.1, List.length_map]
          have hmatch := @matchBindings_relates s hs env env' env env' _ _ hbindings values values'
            hvalues.2 hlength
          refine Run.Ends.imp hmatch ?_ fun _ => id
          rintro extended ⟨extended', hok, entries, entries', hentries, hrelated, rfl, rfl⟩
          exact ⟨_, hok, hbody hentries hrelated⟩
      | letRec _ hbody herror =>
          simp only [if_true]
          cases hdefinitions : definitionsOf bindings with
          | error e =>
              obtain ⟨e', he', hfailure⟩ := herror hdefinitions
              rw [he']
              exact Relates.of_error rfl rfl hfailure
          | ok definitions =>
              obtain ⟨definitions', hdefinitions', hcode⟩ := hbody hdefinitions
              rw [hdefinitions']
              refine .bind_of_ok rfl rfl ?_
              rw [extendRecursive_definitionsOf env hdefinitions hdistinct,
                extendRecursive_definitionsOf env' hdefinitions' (by rw [hnames]; exact hdistinct)]
              exact Relates.pure hcode

include hs in
/-- Corresponding conditions choose the same branch, or are refused alike. -/
private theorem branch_relates {value value' : Value} {yes yes' no no' : Run Value}
    (hyes : s.Relates s.value yes yes') (hno : s.Relates s.value no no') :
    s.value value value' → s.Relates s.value
      (match value with
        | .bool true => yes
        | .bool false => no
        | other => Run.fail (.error (.conditionNotBool other.kind)))
      (match value' with
        | .bool true => yes'
        | .bool false => no'
        | other => Run.fail (.error (.conditionNotBool other.kind))) := by
  intro hvalue
  cases hs.values.shape hvalue with
  | atom hatom =>
      cases value with
      | bool b =>
          cases b with
          | true => exact hyes
          | false => exact hno
      | list | tuple | optSome | closure | function | openFunction => exact hatom.elim
      | _ => exact .fail (hs.codeless trivial)
  | _ => exact .fail (hs.codeless trivial)

include hs hparts in
/-- A level takes expressions of the same form to corresponding outcomes. -/
theorem evalWith_relates {env env' : Env} {e e' : Expr} (h : s.SameForm settings env env' e e') :
    s.Relates s.value (evalWith settings evaluation e env)
      (evalWith settings evaluation' e' env') := by
  cases h with
  | const c =>
      cases c with
      | measure number unit => exact .fail (hs.codeless trivial)
      | host obj => exact .fail (hs.codeless trivial)
      | _ => exact .pure (hs.values.atom trivial)
  | ident hfind => exact hfind
  | typed hinner => exact hparts hinner
  | list hitems =>
      refine (evalAll_relates hparts hitems).bind fun values values' hvalues => ?_
      exact .pure (hs.values.list hvalues.2)
  | tuple hitems =>
      refine (evalAll_relates hparts hitems).bind fun values values' hvalues => ?_
      rw [Value.checkedTuple, Value.checkedTuple, ← hvalues.2.length_eq]
      split
      · exact .pure (hs.values.tuple hvalues.2)
      · exact .fail (hs.codeless trivial)
  | lambda hvalue => exact .pure hvalue
  | ifThen hcond hyes =>
      refine (hparts hcond).bind fun value value' hvalue => ?_
      have hunit : s.value .unit .unit := hs.values.atom trivial
      exact branch_relates hs (hparts hyes) (.pure hunit) hvalue
  | ifThenElse hcond hyes hno =>
      refine (hparts hcond).bind fun value value' hvalue => ?_
      exact branch_relates hs (hparts hyes) (hparts hno) hvalue
  | optNone => exact .pure (hs.values.atom trivial)
  | optSome hinner =>
      exact (hparts hinner).bind fun value value' hvalue => .pure (hs.values.optSome hvalue)
  | matchWith hscrutinee hrules =>
      refine (hparts hscrutinee).bind fun value value' hvalue => ?_
      exact dispatchWith_relates hs hparts hvalue hrules
  | function hvalue => exact .pure hvalue
  | operator hsymbol hleft hright =>
      simp only [evalWith, Expr.appliedOperator?_operator hsymbol]
      refine (hparts hleft).bind fun left left' hleftValue => ?_
      refine (hparts hright).bind fun right right' hrightValue => ?_
      rcases hs.values.applyOperator_rel _ hleftValue hrightValue with
        ⟨value, value', hok, hok', hvalue⟩ | ⟨e, hkind, herror, herror'⟩
      · rw [hok, hok']
        exact .pure hvalue
      · rw [herror, herror']
        exact .fail (hs.codeless (codeless_of_operator hkind))
  | apply hgeneric hgeneric' hfunc harg hcall =>
      simp only [evalWith, hgeneric, hgeneric']
      refine (hparts hfunc).bind fun func func' hfuncValue => ?_
      refine (hparts harg).bind fun arg arg' hargValue => ?_
      exact applyWith_relates hs hparts hfuncValue (hcall hfuncValue) hargValue
  | letIn hnames hbindings hbody =>
      have hform := @SameForm.letIn s settings env env' _ _ _ _ hnames hbindings hbody
      have hbind := bindWith_relates hs hparts hform
      exact hbind.bind fun extended extended' hcode => hparts hcode
  | letRec hnames hbody herror =>
      have hform := @SameForm.letRec s settings env env' _ _ _ _ hnames hbody herror
      have hbind := bindWith_relates hs hparts hform
      exact hbind.bind fun extended extended' hcode => hparts hcode
  | host obj => exact .fail (hs.codeless trivial)

end Level

/-! ### Programs -/

section Program

variable {settings : Settings} (hs : s.Lawful)
  (hform : ∀ {env e env'}, s.code env e env' e → s.SameForm settings env env' e e)
  (heval : ∀ {env e env' e'}, s.code env e env' e' →
    s.Relates s.value (evaluate settings e env) (evaluate settings e' env'))

include hs hform heval

/-- A program corresponds to itself in two environments, if it does as nested lets. -/
theorem declareAll_relates {program : List Decl} {last : Expr} {env env' : Env}
    (hcode : s.code env (nestedLets program last) env' (nestedLets program last)) :
    s.Relates (fun final final' => s.code final last final' last)
      (declareAll settings program env) (declareAll settings program env') := by
  induction program generalizing env env' with
  | nil => exact .pure hcode
  | cons decl rest ih =>
      rw [declareAll_cons, declareAll_cons]
      cases decl with
      | letDecl recursive bindings =>
          have hbind := bindWith_relates hs heval (hform hcode)
          exact hbind.bind fun extended extended' h => ih h
      | expr first =>
          cases hform hcode with
          | letIn _ hbindings hbody =>
              cases hbindings with
              | cons hfirst _ =>
                  have hkeep : s.Relates (fun a b => a = env ∧ b = env')
                      (declare settings (.expr first) env) (declare settings (.expr first) env') :=
                    (heval hfirst.body).bind fun _ _ _ => .pure ⟨rfl, rfl⟩
                  refine hkeep.bind ?_
                  rintro _ _ ⟨rfl, rfl⟩
                  -- The wildcard matches any value and binds nothing.
                  exact ih (@hbody [.unit] [] [] rfl .nil)
      | host obj => exact .fail (hs.codeless trivial)

theorem interpret_relates {program : List Decl} {last : Expr} {env env' : Env}
    (hcode : s.code env (nestedLets program last) env' (nestedLets program last)) :
    s.Relates (fun final final' => s.code final last final' last)
      (interpret settings program env) (interpret settings program env') := by
  have hdeclare := (declareAll_relates hs hform heval hcode).reporting .programFailed
  refine .bind_of_ok rfl rfl (hdeclare.bind fun final final' hfinal => ?_)
  exact .bind_of_ok rfl rfl (.pure hfinal)

end Program

end Simulation

end MiniMl
