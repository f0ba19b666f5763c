import MiniMl.Eval.Program
/-!
# Comparing evaluations machine by machine

The same code may be evaluated on two machines, or twice on one machine with other settings: one of
the evaluations is cut short, or logs less, or counts. A `MachineRelation` is a relation between
their computations that goes through sequences. One level of evaluation is a sequence of steps and
of evaluations of parts, so it hands the relation on from the parts to the whole
(`MachineRelation.evalWith_related`), and so does a program from the evaluations in it to all its
declarations. What a particular comparison adds is the induction on how the levels are tied
together.
-/

namespace MiniMl

open Machine (after call lift reporting step)

/-- Rule functions keep their environment under both settings or under neither. -/
def Settings.CaptureAlike (settings settings' : Settings) : Prop :=
  settings'.captureFunctionEnv = settings.captureFunctionEnv

theorem Settings.CaptureAlike.refl (settings : Settings) : settings.CaptureAlike settings :=
  rfl

/-- A relation between the computations of two evaluators that goes through sequences. -/
structure MachineRelation (m m' : Type → Type) [Monad m] [Machine m] [Monad m'] [Machine m']
    (settings settings' : Settings) where
  Related {α : Type} : m α → m' α → Prop
  pure : ∀ {α : Type} (a : α), Related (Pure.pure a) (Pure.pure a)
  outcome : ∀ {α : Type} (outcome : Except Failure α),
    Related (lift (Run.ofOutcome outcome)) (lift (Run.ofOutcome outcome))
  bind : ∀ {α β : Type} {x : m α} {y : m' α} {next : α → m β} {next' : α → m' β}, Related x y →
    (∀ a, Related (next a) (next' a)) → Related (x >>= next) (y >>= next')
  after : ∀ {α : Type} {x : m α} {y : m' α} (s : Step), Related x y →
    Related (after s x) (after s y)
  call : ∀ {α : Type} {x : m α} {y : m' α}, Related x y → Related (call x) (call y)
  /-- The messages of a level are debug messages. -/
  message : ∀ {event : Event}, event.level = .debug →
    Related (settings.traceEvent event) (settings'.traceEvent event)
  capture : settings.CaptureAlike settings'

namespace MachineRelation

variable {m m' : Type → Type} [Monad m] [Machine m] [Monad m'] [Machine m']
  {settings settings' : Settings} (r : MachineRelation m m' settings settings')

theorem step {α : Type} (s : Step) (outcome : Except Failure α) :
    r.Related (step s (Run.ofOutcome outcome)) (step s (Run.ofOutcome outcome)) :=
  r.after s (r.outcome outcome)

theorem makeValue_related (value : Value) : r.Related (makeValue value) (makeValue value) :=
  r.after _ (r.pure value)

/-! ### One level -/

section Level

variable {evaluation : Expr → Env → m Value} {evaluation' : Expr → Env → m' Value}
  (hparts : ∀ e env, r.Related (evaluation e env) (evaluation' e env))

include hparts

theorem evalAll_related (env : Env) (es : List Expr) :
    r.Related (evalAll evaluation env es) (evalAll evaluation' env es) := by
  induction es with
  | nil => exact r.pure []
  | cons e rest ih =>
      rw [evalAll, evalAll]
      exact r.bind (hparts e env) fun value => r.bind ih fun values => r.pure (value :: values)

theorem dispatchWith_related (env : Env) (value : Value) (rules : List Rule) :
    r.Related (dispatchWith settings evaluation env value rules)
      (dispatchWith settings' evaluation' env value rules) := by
  rw [dispatchWith, dispatchWith]
  refine r.bind (r.step _ _) fun selected => ?_
  exact r.bind (r.message rfl) fun _ => hparts selected.1.body selected.2

theorem applyWith_related (func arg : Value) (env : Env) :
    r.Related (applyWith settings evaluation func arg env)
      (applyWith settings' evaluation' func arg env) := by
  cases func with
  | function rules captured => exact r.call (r.dispatchWith_related hparts captured arg rules)
  | openFunction rules => exact r.call (r.dispatchWith_related hparts env arg rules)
  | closure param body captured recursive =>
      simp only [applyWith]
      cases param.match? captured arg with
      | none => exact r.step _ _
      | some matched => exact r.after _ (r.bind (r.message rfl) fun _ => hparts body matched)
  | _ => exact r.step _ _

theorem bindWith_related (env : Env) (recursive : Bool) (bindings : List Binding) :
    r.Related (bindWith evaluation env recursive bindings)
      (bindWith evaluation' env recursive bindings) := by
  simp only [bindWith]
  cases firstRepeated [] (Pattern.boundNamesAll (bindings.map Clause.pattern)) with
  | some name => exact r.step _ _
  | none =>
      refine r.after _ ?_
      cases recursive with
      | true => exact r.bind (r.step _ _) fun _ => r.step _ _
      | false =>
          have hbodies := r.evalAll_related hparts env (bindings.map Clause.body)
          exact r.bind (r.call hbodies) fun values => r.step _ _

/-- A level relates its computations if the evaluations of the parts do. -/
theorem evalWith_related (e : Expr) (env : Env) :
    r.Related (evalWith settings evaluation e env) (evalWith settings' evaluation' e env) := by
  cases e with
  | const constant => exact r.step _ _
  | ident name => exact r.step _ _
  | typed inner ty => exact hparts inner env
  | list items =>
      exact r.bind (r.call (r.evalAll_related hparts env items)) fun values =>
        r.makeValue_related _
  | tuple items =>
      exact r.bind (r.call (r.evalAll_related hparts env items)) fun values => r.step _ _
  | lambda param body => exact r.makeValue_related _
  | ifThen cond yes =>
      refine r.bind (hparts cond env) fun value => ?_
      split
      · exact hparts yes env
      · exact r.makeValue_related _
      · exact r.step _ _
  | ifThenElse cond yes no =>
      refine r.bind (hparts cond env) fun value => ?_
      split
      · exact hparts yes env
      · exact hparts no env
      · exact r.step _ _
  | optNone => exact r.makeValue_related _
  | optSome inner => exact r.bind (hparts inner env) fun value => r.makeValue_related _
  | matchWith scrutinee rules =>
      exact r.bind (hparts scrutinee env) fun value =>
        r.call (r.dispatchWith_related hparts env value rules)
  | function rules =>
      have hcapture : settings'.captureFunctionEnv = settings.captureFunctionEnv := r.capture
      simp only [evalWith, hcapture]
      exact r.makeValue_related _
  | apply func arg =>
      simp only [evalWith]
      cases func.appliedOperator? with
      | some operation =>
          exact r.bind (hparts operation.2 env) fun left =>
            r.bind (hparts arg env) fun right => r.step _ _
      | none =>
          exact r.bind (hparts func env) fun funcValue =>
            r.bind (hparts arg env) fun argValue =>
              r.call (r.applyWith_related hparts funcValue argValue env)
  | letIn recursive bindings body =>
      exact r.bind (r.call (r.bindWith_related hparts env recursive bindings)) fun extended =>
        hparts body extended
  | host obj => exact r.step _ _

/-! ### Programs -/

theorem declareWith_related (decl : Decl) (env : Env) :
    r.Related (declareWith evaluation decl env) (declareWith evaluation' decl env) := by
  cases decl with
  | letDecl recursive bindings => exact r.call (r.bindWith_related hparts env recursive bindings)
  | expr e => exact r.bind (hparts e env) fun _ => r.pure env
  | host obj => exact r.step _ _

theorem declareAllWith_related (program : List Decl) (env : Env) :
    r.Related (declareAllWith evaluation program env) (declareAllWith evaluation' program env) := by
  induction program generalizing env with
  | nil => exact r.pure env
  | cons decl rest ih => exact r.bind (r.call (r.declareWith_related hparts decl env)) ih

variable (hlog : ∀ event : Event, r.Related (Machine.step (.log event) (Run.emit event))
    (Machine.step (.log event) (Run.emit event)))
  (hreport : ∀ {α : Type} {x : m α} {y : m' α} (event : EvalError → Event), r.Related x y →
    r.Related (reporting event x) (reporting event y))

include hlog hreport

/-- A program is related if the messages around its declarations are. -/
theorem interpretWith_related (program : List Decl) (env : Env) :
    r.Related (interpretWith evaluation program env) (interpretWith evaluation' program env) := by
  refine r.bind (hlog _) fun _ => ?_
  refine r.bind (hreport _ (r.declareAllWith_related hparts program env)) fun final => ?_
  exact r.bind (hlog _) fun _ => r.pure final

end Level

end MachineRelation

end MiniMl
