import MiniMl.Eval.Program
import MiniMl.Proofs.Level
/-!
# Disciplines that evaluation keeps

Many things that can be asked of a program are asked of its code, wherever this code may come to be
evaluated: in the expression at hand, in the closures that values carry, in the frames of
environments. Such a demand is a `Discipline`, and `Obeys` makes it hold all the way down.

`Lawful` lists what a discipline has to satisfy, one law for each way in which evaluation gets from
code to code, and the failures and messages it then rules out. The induction over evaluations is
made here once: code that obeys a lawful discipline ends in values that obey it or in an allowed
failure (`Lawful.eval_stays`), and so does a program (`Lawful.interpret_stays`).
-/

namespace MiniMl

/-- What is asked of code and of the data that carries it. -/
structure Discipline where
  /-- The expression may be evaluated in the environment. -/
  code : Env → Expr → Prop
  /-- The rules may be kept without an environment. -/
  openRules : List Rule → Prop
  /-- A recursive frame may hold the expression. -/
  definition : Expr → Prop
  /-- A tuple may have so many items. -/
  tupleSize : Nat → Prop

mutual

/-- The discipline holds of all that can be reached from the value. -/
def Value.Obeys (d : Discipline) : Value → Prop
  | .list items => Value.AllObey d items
  | .tuple items => d.tupleSize items.length ∧ Value.AllObey d items
  | .optSome inner => inner.Obeys d
  | .closure param body env _ => d.code env (.lambda param body) ∧ env.Obeys d
  | .function rules env => d.code env (.function rules) ∧ env.Obeys d
  | .openFunction rules => d.openRules rules
  | .int _ | .float _ | .bool _ | .char _ | .string _ | .unit | .optNone | .host _ => True

def Value.AllObey (d : Discipline) : List Value → Prop
  | [] => True
  | value :: values => value.Obeys d ∧ Value.AllObey d values

/-- The discipline holds of all that can be reached from the environment. -/
def Env.Obeys (d : Discipline) : Env → Prop
  | .empty => True
  | .extend parent _ value => parent.Obeys d ∧ value.Obeys d
  | .recursive parent definitions => parent.Obeys d ∧ ∀ entry ∈ definitions,
      d.definition entry.2 ∧ d.code (.recursive parent definitions) entry.2

end

/-- The parts of an expression that are evaluated in its own environment. -/
def Expr.parts : Expr → List Expr
  | .typed inner _ => [inner]
  | .list items => items
  | .tuple items => items
  | .ifThen cond yes => [cond, yes]
  | .ifThenElse cond yes no => [cond, yes, no]
  | .optSome inner => [inner]
  | .matchWith scrutinee _ => [scrutinee]
  | .apply func arg =>
    match func.appliedOperator? with
    | some (_, left) => [left, arg]
    | none => [func, arg]
  | .letIn false bindings _ => bindings.map Clause.body
  | _ => []

theorem Expr.mem_parts_apply {func arg part : Expr} (h : part ∈ (Expr.apply func arg).parts) :
    part = arg ∨ part = func ∨ ∃ symbol, func = .apply (.ident symbol) part := by
  rw [parts] at h
  cases hoperator : func.appliedOperator? with
  | some operation =>
      simp only [hoperator, List.mem_cons, List.not_mem_nil, or_false] at h
      rcases h with rfl | rfl
      · exact .inr (.inr ⟨operation.1, (eq_of_appliedOperator? hoperator).1⟩)
      · exact .inl rfl
  | none =>
      simp only [hoperator, List.mem_cons, List.not_mem_nil, or_false] at h
      rcases h with rfl | rfl
      · exact .inr (.inl rfl)
      · exact .inl rfl

/-- A program as one expression: each declaration becomes a let around the ones after it. -/
def nestedLets : List Decl → Expr → Expr
  | [], e => e
  | .letDecl recursive bindings :: rest, e => .letIn recursive bindings (nestedLets rest e)
  | .expr first :: rest, e => .letIn false [⟨.wild, first⟩] (nestedLets rest e)
  | .host obj :: _, _ => .host obj

/-- The integers stand in code that obeys. -/
def Discipline.Shows (d : Discipline) (integers : List Int) : Prop :=
  ∀ n ∈ integers, ∃ env e, d.code env e ∧ n ∈ e.integers

/-- The laws of a discipline whose programs end in none but the given failures, and log none but the
given messages. -/
structure Discipline.Lawful (d : Discipline) (settings : Settings) (fails : Failure → Prop)
    (logs : Event → Prop := fun _ => True) : Prop where
  part : ∀ {env e part}, d.code env e → part ∈ e.parts → d.code env part
  rules : ∀ {env scrutinee rules}, d.code env (.matchWith scrutinee rules) →
    d.code env (.function rules)
  rule : ∀ {env rules rule value matched}, d.code env (.function rules) → rule ∈ rules →
    rule.pattern.match? env value = some matched → d.code matched rule.body
  body : ∀ {env param body value matched}, d.code env (.lambda param body) →
    param.match? env value = some matched → d.code matched body
  letBody : ∀ {env bindings body values matched}, d.code env (.letIn false bindings body) →
    Pattern.matchAll? env (bindings.map Clause.pattern) values = some matched →
    d.code matched body
  letRec : ∀ {env bindings body definitions}, d.code env (.letIn true bindings body) →
    definitionsOf bindings = .ok definitions →
    d.code (.recursive env definitions) body ∧ ∀ entry ∈ definitions,
      d.definition entry.2 ∧ d.code (.recursive env definitions) entry.2
  openRules : ∀ {env rules}, settings.captureFunctionEnv = false →
    d.code env (.function rules) → d.openRules rules
  closeRules : ∀ {env rules}, d.openRules rules → d.code env (.function rules)
  tuple : ∀ {env items}, d.code env (.tuple items) → d.tupleSize items.length
  shortTuple : ∀ {env items}, d.code env (.tuple items) → ¬ 2 ≤ items.length →
    fails (.malformed .shortTupleValue)
  lookup : ∀ {env name failure}, d.code env (.ident name) → env.Obeys d →
    env.find name = .error failure → fails failure
  noRule : ∀ {env rules} {value : Value}, d.code env (.function rules) →
    (∀ rule ∈ rules, rule.pattern.match? env value = none) →
    fails (.error (.noRuleMatches value.kind))
  argument : ∀ {env param body} {value : Value}, d.code env (.lambda param body) →
    param.match? env value = none → fails (.error (.argumentMismatch value.kind param))
  letValue : ∀ {env bindings body binding matched} {value : Value},
    d.code env (.letIn false bindings body) → binding ∈ bindings →
    binding.pattern.match? matched value = none →
    fails (.error (.letMismatch value.kind binding.pattern))
  tooDeep : fails (.tooDeep settings.maxDepth)
  other : ∀ e : EvalError, e.kind ≠ .unboundIdentifier → e.kind ≠ .matchFailure →
    d.Shows e.integers → fails (.error e)
  message : ∀ event : Event, d.Shows event.integers → logs event := by exact fun _ _ => trivial

/-! ### Environments and values -/

section Data

variable {d : Discipline}

theorem Value.allObey_iff {items : List Value} :
    Value.AllObey d items ↔ ∀ item ∈ items, item.Obeys d := by
  induction items with
  | nil => simp [Value.AllObey]
  | cons first rest ih => simp [Value.AllObey, ih]

theorem Value.inherited_obeys : Value.Inherited (Value.Obeys d) where
  list _ h := Value.allObey_iff.mp h
  tuple _ h := Value.allObey_iff.mp h.2
  optSome _ h := h

theorem Env.Obeys.extendAll {env : Env} (henv : env.Obeys d) {bindings : List (String × Value)}
    (hbindings : ∀ entry ∈ bindings, entry.2.Obeys d) : (env.extendAll bindings).Obeys d := by
  induction bindings generalizing env with
  | nil => exact henv
  | cons entry rest ih =>
      have hextended : (env.extend entry.1 entry.2).Obeys d :=
        ⟨henv, hbindings entry List.mem_cons_self⟩
      exact ih hextended fun other hother => hbindings other (List.mem_cons_of_mem entry hother)

theorem Env.Obeys.matched {env matched : Env} (henv : env.Obeys d) {p : Pattern} {value : Value}
    (hvalue : value.Obeys d) (h : p.match? env value = some matched) : matched.Obeys d := by
  obtain ⟨bindings, hbindings, rfl⟩ := Pattern.match?_eq_some_iff.mp h
  exact henv.extendAll (p.forall_mem_bindings Value.inherited_obeys hbindings hvalue)

private theorem Env.Obeys.matchedAll {env matched : Env} (henv : env.Obeys d) {ps : List Pattern}
    {values : List Value} (hvalues : ∀ value ∈ values, value.Obeys d)
    (h : Pattern.matchAll? env ps values = some matched) : matched.Obeys d := by
  obtain ⟨bindings, hbindings, rfl⟩ := Pattern.matchAll?_eq_some_iff.mp h
  exact henv.extendAll (Pattern.forall_mem_bindingsAll Value.inherited_obeys ps hbindings hvalues)

/-- A look-up fails for want of a frame with the name, or at a definition that is no function. -/
theorem Env.Obeys.find_error {env : Env} (henv : env.Obeys d) {name : String} {failure : Failure}
    (h : env.find name = .error failure) :
    failure = .error (.unbound name)
      ∨ ∃ frame e, d.definition e ∧ d.code frame e ∧ e.isFunctionLiteral = false
        ∧ failure = .malformed (.notFunctionLiteral e) := by
  cases env with
  | empty =>
      cases h
      exact .inl rfl
  | extend parent key own =>
      rw [Env.find] at h
      split at h
      · cases h
      · exact find_error henv.1 h
  | recursive parent definitions =>
      rw [Env.find] at h
      cases hlookup : definitions.lookup name with
      | none =>
          rw [hlookup] at h
          exact find_error henv.1 h
      | some e =>
          rw [hlookup] at h
          obtain ⟨hdefinition, hcode⟩ := henv.2 (name, e) (mem_of_lookup_eq_some hlookup)
          cases hclose : (Env.recursive parent definitions).close e with
          | ok closed =>
              simp only [hclose] at h
              cases h
          | error m =>
              have hliteral := Env.close_eq_error hclose
              simp only [Env.close_of_not_literal _ hliteral] at h
              cases h
              exact .inr ⟨_, e, hdefinition, hcode, hliteral, rfl⟩

variable {settings : Settings} {fails : Failure → Prop} {logs : Event → Prop}
  (hd : d.Lawful settings fails logs)

include hd

theorem Discipline.Lawful.code_stripped {env : Env} {e : Expr} (h : d.code env e) :
    d.code env e.stripped := by
  fun_induction Expr.stripped e with
  | case1 inner ty ih => exact ih (hd.part h List.mem_cons_self)
  | case2 e => exact h

/-- What is found obeys. A definition is closed over its own frame, where it may be evaluated. -/
theorem Discipline.Lawful.find_obeys {env : Env} (henv : env.Obeys d) {name : String}
    {value : Value} (h : env.find name = .ok value) : value.Obeys d := by
  cases env with
  | empty => cases h
  | extend parent key own =>
      rw [Env.find] at h
      split at h
      · cases h
        exact henv.2
      · exact find_obeys henv.1 h
  | recursive parent definitions =>
      rw [Env.find] at h
      cases hlookup : definitions.lookup name with
      | none =>
          rw [hlookup] at h
          exact find_obeys henv.1 h
      | some e =>
          rw [hlookup] at h
          have hcode := hd.code_stripped (henv.2 (name, e) (mem_of_lookup_eq_some hlookup)).2
          cases hclose : (Env.recursive parent definitions).close e with
          | error m =>
              simp only [hclose] at h
              cases h
          | ok closed =>
              simp only [hclose] at h
              cases h
              rcases Env.close_eq_ok hclose with ⟨param, body, he, rfl⟩ | ⟨rules, he, rfl⟩
              · rw [he] at hcode
                exact ⟨hcode, henv⟩
              · rw [he] at hcode
                exact ⟨hcode, henv⟩

/-- No discipline rules out the kinds of errors that only values decide. -/
private theorem Discipline.Lawful.other_stays {α : Type} {P : α → Prop} {e : EvalError}
    (h : e.kind ≠ .unboundIdentifier ∧ e.kind ≠ .matchFailure) (hshows : d.Shows e.integers) :
    (Run.fail (.error e) : Run α).Stays P fails logs :=
  .fail (hd.other e h.1 h.2 hshows)

/-- Nor does it rule out errors that show no integers. -/
private theorem Discipline.Lawful.silent_stays {α : Type} {P : α → Prop} {e : EvalError}
    (h : (e.kind ≠ .unboundIdentifier ∧ e.kind ≠ .matchFailure) ∧ e.integers = []) :
    (Run.fail (.error e) : Run α).Stays P fails logs :=
  hd.other_stays h.1 (by simp [Discipline.Shows, h.2])

private theorem Discipline.Lawful.traceEvent_stays (event : Event) (h : d.Shows event.integers) :
    (settings.traceEvent event : Run Unit).Stays (fun _ => True) fails logs := by
  rw [Settings.traceEvent]
  split
  · exact .emit (hd.message event h)
  · exact .pure trivial

theorem Discipline.Lawful.applyOperator_stays {symbol : String} {left right : Value}
    (hleft : left.Obeys d) (hright : right.Obeys d) :
    (Run.ofEval (applyOperator symbol left right)).Stays (Value.Obeys d) fails logs := by
  rcases applyOperator_cases symbol left right with
    ⟨n, h⟩ | ⟨x, h⟩ | ⟨b, h⟩ | ⟨items, rfl, h⟩ | ⟨e, h, hkind⟩
  · rw [h]
    exact .pure trivial
  · rw [h]
    exact .pure trivial
  · rw [h]
    exact .pure trivial
  · rw [h]
    exact .pure ⟨hleft, hright⟩
  · rw [h]
    refine hd.silent_stays ⟨?_, EvalError.integers_eq_nil hkind⟩
    rcases hkind with hkind | hkind <;> simp [hkind]

end Data

/-! ### One level -/

/-- The evaluation ends as the discipline asks, wherever it is given code that obeys. -/
def Discipline.Keeps (d : Discipline) (fails : Failure → Prop) (logs : Event → Prop)
    (evaluation : Evaluation) : Prop :=
  ∀ e env, env.Obeys d → d.code env e → (evaluation e env).Stays (Value.Obeys d) fails logs

section Level

variable {d : Discipline} {settings : Settings} {fails : Failure → Prop} {logs : Event → Prop}
  {evaluation : Evaluation} (hd : d.Lawful settings fails logs)
  (hparts : d.Keeps fails logs evaluation)

theorem evalAll_stays (hparts : d.Keeps fails logs evaluation) {env : Env} (henv : env.Obeys d)
    {es : List Expr} (hcode : ∀ e ∈ es, d.code env e) :
    (evalAll evaluation env es).Stays
      (fun values => values.length = es.length ∧ ∀ value ∈ values, value.Obeys d) fails logs := by
  induction es with
  | nil => exact .pure ⟨rfl, by simp⟩
  | cons e rest ih =>
      rw [evalAll]
      have hfirst := hparts e env henv (hcode e List.mem_cons_self)
      have hrest := ih fun other hother => hcode other (List.mem_cons_of_mem e hother)
      refine hfirst.bind fun value hvalue => ?_
      refine hrest.bind fun values hvalues => .pure ⟨?_, ?_⟩
      · rw [List.length_cons, List.length_cons, hvalues.1]
      · intro other hother
        rcases List.mem_cons.mp hother with rfl | hother
        · exact hvalue
        · exact hvalues.2 other hother

include hd hparts

theorem dispatchWith_stays {env : Env} (henv : env.Obeys d) {value : Value}
    (hvalue : value.Obeys d) {rules : List Rule} (hcode : d.code env (.function rules)) :
    (dispatchWith settings evaluation env value rules).Stays (Value.Obeys d) fails logs := by
  rw [dispatchWith]
  cases hselect : selectRule env value rules with
  | error e =>
      obtain ⟨rfl, hnone⟩ := selectRule_eq_error_iff.mp hselect
      exact .fail (hd.noRule hcode hnone)
  | ok selected =>
      have hfirst := selectRule_eq_ok hselect
      have hmatch := hfirst.match?_eq
      have hshows : d.Shows selected.1.pattern.integers := fun n hn =>
        ⟨env, _, hcode, Expr.mem_clauseIntegers hfirst.mem (.inl hn)⟩
      have hselected : (Run.ofEval (.ok selected) : Run (Rule × Env)).Stays (· = selected) fails
          logs := .pure rfl
      refine hselected.bind fun other hother => ?_
      rw [hother]
      refine (hd.traceEvent_stays (.matched value.kind selected.1.pattern) hshows).bind
        fun _ _ => ?_
      exact hparts selected.1.body selected.2 (henv.matched hvalue hmatch)
        (hd.rule hcode hfirst.mem hmatch)

theorem applyWith_stays {func arg : Value} (hfunc : func.Obeys d) (harg : arg.Obeys d) {env : Env}
    (henv : env.Obeys d) :
    (applyWith settings evaluation func arg env).Stays (Value.Obeys d) fails logs := by
  cases func with
  | function rules captured => exact dispatchWith_stays hd hparts hfunc.2 harg hfunc.1
  | openFunction rules => exact dispatchWith_stays hd hparts henv harg (hd.closeRules hfunc)
  | closure param body captured recursive =>
      simp only [applyWith]
      cases hparam : param.match? captured arg with
      | none => exact .fail (hd.argument hfunc.1 hparam)
      | some matched =>
          have hshows : d.Shows param.integers := fun n hn =>
            ⟨captured, _, hfunc.1, List.mem_append_left _ hn⟩
          refine (hd.traceEvent_stays (.applied param arg.kind) hshows).bind fun _ _ => ?_
          exact hparts body matched (hfunc.2.matched harg hparam) (hd.body hfunc.1 hparam)
  | _ => exact hd.silent_stays (by simp [EvalError.kind, EvalError.integers])

/-- The environment of a let obeys, and its body may be evaluated there. -/
theorem bindWith_stays {env : Env} (henv : env.Obeys d) {recursive : Bool}
    {bindings : List Binding} {body : Expr}
    (hcode : d.code env (.letIn recursive bindings body)) :
    (bindWith evaluation env recursive bindings).Stays
      (fun extended => extended.Obeys d ∧ d.code extended body) fails logs := by
  simp only [bindWith]
  cases hrepeated : firstRepeated [] (Pattern.boundNamesAll (bindings.map Clause.pattern)) with
  | some name =>
      exact hd.silent_stays (by simp [EvalError.kind, EvalError.integers])
  | none =>
      have hdistinct : (letNames bindings).Nodup := (firstRepeated_eq_none_iff.mp hrepeated).1
      cases recursive with
      | true =>
          simp only [if_true]
          cases hdefinitions : definitionsOf bindings with
          | error e =>
              obtain ⟨before, binding, after, rfl, -, hbinding⟩ :=
                definitionsOf_eq_error_iff.mp hdefinitions
              have hkind := Clause.kind_of_definition_eq_error hbinding
              refine hd.other_stays (by simp [hkind]) fun n hn => ⟨env, _, hcode, ?_⟩
              exact List.mem_append_left _ (Expr.mem_clauseIntegers
                (List.mem_append_right before List.mem_cons_self)
                (Clause.mem_integers_of_definition_eq_error hbinding hn))
          | ok definitions =>
              have hlaw := hd.letRec hcode hdefinitions
              have hfound : (Run.ofEval (.ok definitions) : Run (List (String × Expr))).Stays
                  (· = definitions) fails logs := .pure rfl
              refine hfound.bind fun other hother => ?_
              rw [hother, extendRecursive_definitionsOf env hdefinitions hdistinct]
              exact .pure ⟨⟨henv, hlaw.2⟩, hlaw.1⟩
      | false =>
          have hbodies : ∀ e ∈ bindings.map Clause.body, d.code env e :=
            fun e he => hd.part hcode he
          have hvalues := evalAll_stays hparts henv hbodies
          refine hvalues.bind fun values hobey => ?_
          have hlength : bindings.length = values.length := by
            rw [hobey.1, List.length_map]
          cases hmatch : matchBindings env bindings values with
          | error e =>
              obtain ⟨binding, hbinding, value, -, matched, hnone, rfl⟩ :=
                matchBindings_eq_error hmatch
              exact .fail (hd.letValue hcode hbinding hnone)
          | ok extended =>
              have hall := (matchBindings_eq_ok_iff hlength).mp hmatch
              exact .pure ⟨henv.matchedAll hobey.2 hall, hd.letBody hcode hall⟩

/-- One level keeps a lawful discipline, if the evaluation of the parts does. -/
theorem evalWith_stays : d.Keeps fails logs (evalWith settings evaluation) := by
  intro e env henv hcode
  cases e with
  | const c =>
      cases c with
      | measure number unit =>
          exact hd.other_stays (by simp [EvalError.kind]) fun n hn => ⟨env, _, hcode, hn⟩
      | host obj => exact hd.silent_stays (by simp [EvalError.kind, EvalError.integers,
          Constant.integers])
      | _ => exact .pure trivial
  | ident name =>
      cases hfind : env.find name with
      | ok value => exact .of_ends (.of_ok hfind (hd.find_obeys henv hfind)) rfl
      | error failure => exact .of_ends (.of_error hfind (hd.lookup hcode henv hfind)) rfl
  | typed inner ty => exact hparts inner env henv (hd.part hcode List.mem_cons_self)
  | list items =>
      have hitems := evalAll_stays hparts henv fun e he => hd.part hcode he
      exact hitems.bind fun values hvalues => .pure (Value.allObey_iff.mpr hvalues.2)
  | tuple items =>
      have hitems : (evalAll evaluation env items).Stays
          (fun values => values.length = items.length ∧ ∀ value ∈ values, value.Obeys d) fails
          logs :=
        evalAll_stays hparts henv fun e he => hd.part hcode he
      refine hitems.bind fun values hvalues => ?_
      rw [Value.checkedTuple]
      by_cases hsize : 2 ≤ values.length
      · rw [if_pos hsize]
        refine .pure ⟨?_, Value.allObey_iff.mpr hvalues.2⟩
        rw [hvalues.1]
        exact hd.tuple hcode
      · rw [if_neg hsize]
        rw [hvalues.1] at hsize
        exact .fail (hd.shortTuple hcode hsize)
  | lambda param body => exact .pure ⟨hcode, henv⟩
  | ifThen cond yes =>
      have hcond := hparts cond env henv (hd.part hcode (by simp [Expr.parts]))
      have hyes := hparts yes env henv (hd.part hcode (by simp [Expr.parts]))
      refine hcond.bind fun value _ => ?_
      split
      · exact hyes
      · exact .pure trivial
      · exact hd.silent_stays (by simp [EvalError.kind, EvalError.integers])
  | ifThenElse cond yes no =>
      have hcond := hparts cond env henv (hd.part hcode (by simp [Expr.parts]))
      have hyes := hparts yes env henv (hd.part hcode (by simp [Expr.parts]))
      have hno := hparts no env henv (hd.part hcode (by simp [Expr.parts]))
      refine hcond.bind fun value _ => ?_
      split
      · exact hyes
      · exact hno
      · exact hd.silent_stays (by simp [EvalError.kind, EvalError.integers])
  | optNone => exact .pure trivial
  | optSome inner =>
      have hinner := hparts inner env henv (hd.part hcode List.mem_cons_self)
      exact hinner.bind fun value hvalue => .pure hvalue
  | matchWith scrutinee rules =>
      have hscrutinee := hparts scrutinee env henv (hd.part hcode List.mem_cons_self)
      refine hscrutinee.bind fun value hvalue => ?_
      exact dispatchWith_stays hd hparts henv hvalue (hd.rules hcode)
  | function rules =>
      simp only [evalWith]
      cases hcapture : settings.captureFunctionEnv with
      | true => exact .pure ⟨hcode, henv⟩
      | false => exact .pure (hd.openRules hcapture hcode)
  | apply func arg =>
      simp only [evalWith]
      cases hoperator : func.appliedOperator? with
      | some operation =>
          have hleft := hparts operation.2 env henv
            (hd.part hcode (by simp [Expr.parts, hoperator]))
          have hright := hparts arg env henv (hd.part hcode (by simp [Expr.parts, hoperator]))
          refine hleft.bind fun leftValue hleftValue => ?_
          refine hright.bind fun rightValue hrightValue => ?_
          exact hd.applyOperator_stays hleftValue hrightValue
      | none =>
          have hfunc := hparts func env henv (hd.part hcode (by simp [Expr.parts, hoperator]))
          have harg := hparts arg env henv (hd.part hcode (by simp [Expr.parts, hoperator]))
          refine hfunc.bind fun funcValue hfuncValue => ?_
          refine harg.bind fun argValue hargValue => ?_
          exact applyWith_stays hd hparts hfuncValue hargValue henv
  | letIn recursive bindings body =>
      have hbind := bindWith_stays hd hparts henv hcode
      exact hbind.bind fun extended h => hparts body extended h.1 h.2
  | host obj => exact hd.silent_stays (by simp [EvalError.kind, EvalError.integers])

end Level

/-! ### Evaluations and programs -/

namespace Discipline.Lawful

variable {d : Discipline} {settings : Settings} {fails : Failure → Prop} {logs : Event → Prop}
  (hd : d.Lawful settings fails logs)

include hd

theorem eval_stays (budget : Nat) : d.Keeps fails logs (eval settings budget) := by
  induction budget with
  | zero => exact fun e env _ _ => .fail hd.tooDeep
  | succ budget ih => exact evalWith_stays hd ih

theorem evaluate_stays {e : Expr} {env : Env} (henv : env.Obeys d) (hcode : d.code env e) :
    (evaluate settings e env).Stays (Value.Obeys d) fails logs :=
  hd.eval_stays settings.budget e env henv hcode

theorem declareAll_stays {program : List Decl} {last : Expr} {env : Env} (henv : env.Obeys d)
    (hcode : d.code env (nestedLets program last)) :
    (declareAll settings program env).Stays (Env.Obeys d) fails logs := by
  induction program generalizing env with
  | nil => exact .pure henv
  | cons decl rest ih =>
      rw [declareAll_cons]
      cases decl with
      | letDecl recursive bindings =>
          have hbind := bindWith_stays hd (hd.eval_stays settings.budget) henv hcode
          exact hbind.bind fun extended h => ih h.1 h.2
      | expr first =>
          have hfirst := hd.evaluate_stays henv (hd.part hcode List.mem_cons_self)
          have hkeep : (declare settings (.expr first) env).Stays (· = env) fails logs :=
            hfirst.bind fun _ _ => .pure rfl
          refine hkeep.bind fun extended heq => ?_
          rw [heq]
          -- A value always matches the wildcard, which binds nothing.
          have hwild : Pattern.matchAll? env [.wild] [.unit] = some env := rfl
          exact ih henv (hd.letBody hcode hwild)
      | host obj => exact hd.silent_stays (by simp [EvalError.kind, EvalError.integers])

theorem interpret_stays {program : List Decl} {last : Expr} {env : Env} (henv : env.Obeys d)
    (hcode : d.code env (nestedLets program last)) :
    (interpret settings program env).Stays (Env.Obeys d) fails logs := by
  have hsilent : ∀ event : Event, event.integers = [] → logs event := fun event h =>
    hd.message event (by simp [Shows, h])
  have hdeclare := (hd.declareAll_stays henv hcode).reporting fun e =>
    hsilent (.programFailed e) rfl
  refine (Run.Stays.emit (hsilent _ rfl)).bind fun _ _ => hdeclare.bind fun final hfinal => ?_
  exact (Run.Stays.emit (hsilent _ rfl)).bind fun _ _ => .pure hfinal

end Discipline.Lawful

/-! ### No demand at all -/

/-- Any code whatever. -/
def anyCode : Discipline where
  code _ _ := True
  openRules _ := True
  definition _ := True
  tupleSize _ := True

theorem anyCode_lawful (settings : Settings) : anyCode.Lawful settings fun _ => True where
  part _ _ := trivial
  rules _ := trivial
  rule _ _ _ := trivial
  body _ _ := trivial
  letBody _ _ := trivial
  letRec _ _ := ⟨trivial, fun _ _ => ⟨trivial, trivial⟩⟩
  openRules _ _ := trivial
  closeRules _ := trivial
  tuple _ := trivial
  shortTuple _ _ := trivial
  lookup _ _ _ := trivial
  noRule _ _ := trivial
  argument _ _ := trivial
  letValue _ _ _ := trivial
  tooDeep := trivial
  other _ _ _ _ := trivial

mutual

theorem Value.obeys_anyCode (value : Value) : value.Obeys anyCode := by
  cases value with
  | list items => exact Value.allObey_anyCode items
  | tuple items => exact ⟨trivial, Value.allObey_anyCode items⟩
  | optSome inner => exact Value.obeys_anyCode inner
  | closure param body env recursive => exact ⟨trivial, Env.obeys_anyCode env⟩
  | function rules env => exact ⟨trivial, Env.obeys_anyCode env⟩
  | _ => trivial

theorem Value.allObey_anyCode (values : List Value) : Value.AllObey anyCode values := by
  cases values with
  | nil => trivial
  | cons value rest => exact ⟨Value.obeys_anyCode value, Value.allObey_anyCode rest⟩

theorem Env.obeys_anyCode (env : Env) : env.Obeys anyCode := by
  cases env with
  | empty => trivial
  | extend parent name value => exact ⟨Env.obeys_anyCode parent, Value.obeys_anyCode value⟩
  | recursive parent definitions =>
      exact ⟨Env.obeys_anyCode parent, fun _ _ => ⟨trivial, trivial⟩⟩

end

end MiniMl
