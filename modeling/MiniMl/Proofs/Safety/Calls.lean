import MiniMl.Proofs.Safety.Discipline
/-!
# The evaluations that an evaluation makes

One level of evaluation is written for any evaluation of the parts. `Calls` lists what the level may
ask this evaluation for: the parts, and the bodies that a match, an application or a let goes on
with. A part is listed even where an earlier part fails, so the list may be too long, but it is
complete: evaluations that agree on it make the same level (`evalWith_congr`).

`Visits` follows the calls to any depth, and `Arises` collects the values that are bound or returned
on the way. A lawful discipline holds wherever a run comes by (`Discipline.Lawful.visits`) and of
every value that arises in it (`Discipline.Lawful.arises`), not only at its end.
-/

namespace MiniMl

/-- The body that an application to an argument goes on with, and its environment. -/
inductive Enters (site : Env) (arg : Value) : Value → Expr → Env → Prop
  | function {rules : List Rule} {captured matched : Env} {rule : Rule}
      (hfirst : FirstMatch captured arg rules rule matched) :
      Enters site arg (.function rules captured) rule.body matched
  | openFunction {rules : List Rule} {matched : Env} {rule : Rule}
      (hfirst : FirstMatch site arg rules rule matched) :
      Enters site arg (.openFunction rules) rule.body matched
  | closure {param : Pattern} {body : Expr} {captured matched : Env} {recursive : Bool}
      (hparam : param.match? captured arg = some matched) :
      Enters site arg (.closure param body captured recursive) body matched

/-- The expressions and environments that a level may evaluate. -/
inductive Calls (evaluation : Evaluation) : Expr → Env → Expr → Env → Prop
  | part {e part : Expr} {env : Env} (hpart : part ∈ e.parts) : Calls evaluation e env part env
  | rule {scrutinee : Expr} {rules : List Rule} {env matched : Env} {value : Value} {rule : Rule}
      (hvalue : (evaluation scrutinee env).outcome = .ok value)
      (hfirst : FirstMatch env value rules rule matched) :
      Calls evaluation (.matchWith scrutinee rules) env rule.body matched
  | body {func arg body : Expr} {env matched : Env} {funcValue argValue : Value}
      (hgeneric : func.appliedOperator? = none)
      (hfunc : (evaluation func env).outcome = .ok funcValue)
      (harg : (evaluation arg env).outcome = .ok argValue)
      (henters : Enters env argValue funcValue body matched) :
      Calls evaluation (.apply func arg) env body matched
  | letBody {recursive : Bool} {bindings : List Binding} {body : Expr} {env extended : Env}
      (hbind : (bindWith evaluation env recursive bindings).outcome = .ok extended) :
      Calls evaluation (.letIn recursive bindings body) env body extended

/-! ### The calls decide a level -/

section Congruence

variable {settings : Settings} {evaluation evaluation' : Evaluation}

private theorem evalAll_congr {env : Env} {es : List Expr}
    (h : ∀ e ∈ es, evaluation e env = evaluation' e env) :
    evalAll evaluation env es = evalAll evaluation' env es := by
  induction es with
  | nil => rfl
  | cons e rest ih =>
      have hrest := ih fun other hother => h other (List.mem_cons_of_mem e hother)
      rw [evalAll, evalAll, h e List.mem_cons_self, hrest]

theorem dispatchWith_congr {env : Env} {value : Value} {rules : List Rule}
    (h : ∀ rule matched, FirstMatch env value rules rule matched →
      evaluation rule.body matched = evaluation' rule.body matched) :
    dispatchWith settings evaluation env value rules
      = dispatchWith settings evaluation' env value rules := by
  rw [dispatchWith, dispatchWith]
  cases hselect : selectRule env value rules with
  | error e => rfl
  | ok selected =>
      refine Run.bind_congr_of_ok fun other hother => ?_
      cases hother
      have hbody := h selected.1 selected.2 (selectRule_eq_ok hselect)
      exact congrArg (settings.traceEvent (.matched value.kind selected.1.pattern) >>= ·)
        (funext fun _ => hbody)

private theorem applyWith_congr {func arg : Value} {site : Env}
    (h : ∀ body matched, Enters site arg func body matched →
      evaluation body matched = evaluation' body matched) :
    applyWith settings evaluation func arg site
      = applyWith settings evaluation' func arg site := by
  cases func with
  | function rules captured =>
      exact dispatchWith_congr fun rule matched hfirst => h _ _ (.function hfirst)
  | openFunction rules =>
      exact dispatchWith_congr fun rule matched hfirst => h _ _ (.openFunction hfirst)
  | closure param body captured recursive =>
      simp only [applyWith]
      cases hparam : param.match? captured arg with
      | none => rfl
      | some matched =>
          simp only
          rw [h body matched (.closure hparam)]
  | _ => rfl

theorem bindWith_congr {env : Env} {recursive : Bool} {bindings : List Binding}
    (h : recursive = false → ∀ e ∈ bindings.map Clause.body,
      evaluation e env = evaluation' e env) :
    bindWith evaluation env recursive bindings = bindWith evaluation' env recursive bindings := by
  cases recursive with
  | true => rfl
  | false => rw [bindWith, bindWith, evalAll_congr (h rfl)]

/-- A level does not look at the evaluation of the parts but for its calls. -/
theorem evalWith_congr {e : Expr} {env : Env}
    (h : ∀ e' env', Calls evaluation e env e' env' → evaluation e' env' = evaluation' e' env') :
    evalWith settings evaluation e env = evalWith settings evaluation' e env := by
  have hparts : ∀ part ∈ e.parts, evaluation part env = evaluation' part env :=
    fun part hpart => h part env (.part hpart)
  cases e with
  | typed inner ty => exact hparts inner List.mem_cons_self
  | list items =>
      have hitems : evalAll evaluation env items = evalAll evaluation' env items :=
        evalAll_congr hparts
      simp only [evalWith]
      rw [hitems]
  | tuple items =>
      have hitems : evalAll evaluation env items = evalAll evaluation' env items :=
        evalAll_congr hparts
      simp only [evalWith]
      rw [hitems]
  | ifThen cond yes =>
      simp only [evalWith]
      rw [hparts cond (by simp [Expr.parts]), hparts yes (by simp [Expr.parts])]
  | ifThenElse cond yes no =>
      simp only [evalWith]
      rw [hparts cond (by simp [Expr.parts]), hparts yes (by simp [Expr.parts]),
        hparts no (by simp [Expr.parts])]
  | optSome inner =>
      simp only [evalWith]
      rw [hparts inner (by simp [Expr.parts])]
  | matchWith scrutinee rules =>
      simp only [evalWith]
      rw [← hparts scrutinee (by simp [Expr.parts])]
      refine Run.bind_congr_of_ok fun value hvalue => ?_
      exact dispatchWith_congr fun rule matched hfirst => h _ _ (.rule hvalue hfirst)
  | apply func arg =>
      simp only [evalWith]
      cases hoperator : func.appliedOperator? with
      | some operation =>
          simp only
          rw [hparts operation.2 (by simp [Expr.parts, hoperator]),
            hparts arg (by simp [Expr.parts, hoperator])]
      | none =>
          -- The body is only called once both parts have a value.
          simp only
          rw [← hparts func (by simp [Expr.parts, hoperator]),
            ← hparts arg (by simp [Expr.parts, hoperator])]
          refine Run.bind_congr_of_ok fun funcValue hfunc => ?_
          refine Run.bind_congr_of_ok fun argValue harg => ?_
          exact applyWith_congr fun body matched henters =>
            h _ _ (.body hoperator hfunc harg henters)
  | letIn recursive bindings body =>
      have hbodies : recursive = false → ∀ e ∈ bindings.map Clause.body,
          evaluation e env = evaluation' e env := by
        rintro rfl
        exact hparts
      simp only [evalWith]
      rw [← bindWith_congr hbodies]
      exact Run.bind_congr_of_ok fun extended hbind => h _ _ (.letBody hbind)
  | _ => rfl

end Congruence

/-! ### Disciplines along the calls -/

namespace Discipline.Lawful

variable {d : Discipline} {settings : Settings} {fails : Failure → Prop}
  {logs : Event → Prop} (hd : d.Lawful settings fails logs)

include hd

theorem enters {func arg : Value} (hfunc : func.Obeys d) (harg : arg.Obeys d) {site : Env}
    (hsite : site.Obeys d) {body : Expr} {matched : Env} (h : Enters site arg func body matched) :
    matched.Obeys d ∧ d.code matched body := by
  cases h with
  | function hfirst =>
      have hmatch := hfirst.match?_eq
      exact ⟨hfunc.2.matched harg hmatch, hd.rule hfunc.1 hfirst.mem hmatch⟩
  | openFunction hfirst =>
      have hmatch := hfirst.match?_eq
      exact ⟨hsite.matched harg hmatch, hd.rule (hd.closeRules hfunc) hfirst.mem hmatch⟩
  | closure hparam => exact ⟨hfunc.2.matched harg hparam, hd.body hfunc.1 hparam⟩

/-- What a level calls obeys, if the values that it has got so far do. -/
theorem calls {evaluation : Evaluation} (hparts : d.Keeps fails logs evaluation) {e e' : Expr}
    {env env' : Env} (henv : env.Obeys d) (hcode : d.code env e)
    (h : Calls evaluation e env e' env') : env'.Obeys d ∧ d.code env' e' := by
  cases h with
  | part hpart => exact ⟨henv, hd.part hcode hpart⟩
  | @rule scrutinee rules _ _ _ rule hvalue hfirst =>
      have hscrutinee := hparts scrutinee env henv (hd.part hcode List.mem_cons_self)
      have hmatch := hfirst.match?_eq
      exact ⟨henv.matched (hscrutinee.ok hvalue) hmatch,
        hd.rule (hd.rules hcode) hfirst.mem hmatch⟩
  | @body func arg _ _ _ _ _ hgeneric hfunc harg henters =>
      have hpart : ∀ part ∈ [func, arg], d.code env part := fun part hpart =>
        hd.part hcode (by simpa [Expr.parts, hgeneric] using hpart)
      have hfuncValue := hparts func env henv (hpart func (by simp))
      have hargValue := hparts arg env henv (hpart arg (by simp))
      exact hd.enters (hfuncValue.ok hfunc) (hargValue.ok harg) henv henters
  | letBody hbind => exact (bindWith_stays hd hparts henv hcode).ok hbind

end Discipline.Lawful

/-! ### All evaluations of a run -/

/-- The evaluations that an evaluation within a budget comes by, each with the budget left to it. -/
inductive Visits (settings : Settings) : Nat → Expr → Env → Nat → Expr → Env → Prop
  | self (budget : Nat) (e : Expr) (env : Env) : Visits settings budget e env budget e env
  | call {budget budget' : Nat} {e next e' : Expr} {env entered env' : Env}
      (hcall : Calls (eval settings budget) e env next entered)
      (hrest : Visits settings budget next entered budget' e' env') :
      Visits settings (budget + 1) e env budget' e' env'

/-- Wherever the evaluation of obeying code comes by, there is obeying code. -/
theorem Discipline.Lawful.visits {d : Discipline} {settings : Settings} {fails : Failure → Prop}
    {logs : Event → Prop} (hd : d.Lawful settings fails logs) {budget budget' : Nat}
    {e e' : Expr} {env env' : Env}
    (h : Visits settings budget e env budget' e' env') (henv : env.Obeys d)
    (hcode : d.code env e) : env'.Obeys d ∧ d.code env' e' := by
  induction h with
  | self => exact ⟨henv, hcode⟩
  | call hcall _ ih =>
      obtain ⟨hentered, hnext⟩ := hd.calls (hd.eval_stays _) henv hcode hcall
      exact ih hentered hnext

/-! ### All values of a run -/

/-- The values in the frames of an environment, also those that newer frames hide. -/
def Env.boundValues : Env → List Value
  | .empty => []
  | .extend parent _ value => value :: parent.boundValues
  | .recursive parent _ => parent.boundValues

/-- The values directly in a value. -/
def Value.contents : Value → List Value
  | .list items => items
  | .tuple items => items
  | .optSome inner => [inner]
  | .closure _ _ env _ => env.boundValues
  | .function _ env => env.boundValues
  | _ => []

/-- The values of a run: those bound where it comes by, those returned there, and what they hold.
What an application applies and what it passes were returned by its two parts. -/
inductive Arises (settings : Settings) (budget : Nat) (e : Expr) (env : Env) : Value → Prop
  | bound {budget' : Nat} {e' : Expr} {env' : Env} {value : Value}
      (hvisits : Visits settings budget e env budget' e' env') (hvalue : value ∈ env'.boundValues) :
      Arises settings budget e env value
  | returned {budget' : Nat} {e' : Expr} {env' : Env} {value : Value}
      (hvisits : Visits settings budget e env budget' e' env')
      (hvalue : (eval settings budget' e' env').outcome = .ok value) :
      Arises settings budget e env value
  | content {whole value : Value} (hwhole : Arises settings budget e env whole)
      (hvalue : value ∈ whole.contents) : Arises settings budget e env value

theorem Env.Obeys.boundValues {d : Discipline} {env : Env} (henv : env.Obeys d) {value : Value}
    (hvalue : value ∈ env.boundValues) : value.Obeys d := by
  cases env with
  | empty => cases hvalue
  | extend parent key own =>
      rcases List.mem_cons.mp hvalue with rfl | hvalue
      · exact henv.2
      · exact boundValues henv.1 hvalue
  | recursive parent definitions => exact boundValues henv.1 hvalue

theorem Value.Obeys.contents {d : Discipline} {whole value : Value} (hwhole : whole.Obeys d)
    (hvalue : value ∈ whole.contents) : value.Obeys d := by
  cases whole with
  | list items => exact Value.inherited_obeys.list items hwhole value hvalue
  | tuple items => exact Value.inherited_obeys.tuple items hwhole value hvalue
  | optSome inner =>
      rw [List.mem_singleton.mp hvalue]
      exact hwhole
  | closure param body env recursive => exact hwhole.2.boundValues hvalue
  | function rules env => exact hwhole.2.boundValues hvalue
  | _ => cases hvalue

theorem Discipline.Lawful.arises {d : Discipline} {settings : Settings} {fails : Failure → Prop}
    {logs : Event → Prop} (hd : d.Lawful settings fails logs) {budget : Nat} {e : Expr} {env : Env}
    {value : Value}
    (h : Arises settings budget e env value) (henv : env.Obeys d) (hcode : d.code env e) :
    value.Obeys d := by
  induction h with
  | bound hvisits hvalue => exact (hd.visits hvisits henv hcode).1.boundValues hvalue
  | @returned budget' e' env' _ hvisits hvalue =>
      obtain ⟨henv', hcode'⟩ := hd.visits hvisits henv hcode
      exact (hd.eval_stays budget' e' env' henv' hcode').ok hvalue
  | content _ hvalue ih => exact ih.contents hvalue

end MiniMl
