import Mathlib.Data.List.Forall2
import MiniMl.Eval.Evaluator
import MiniMl.Proofs.MachineRelation
import MiniMl.Proofs.Report
/-!
# The counter of an evaluator comes back

From a count `depth` on, an evaluator does what evaluation within the budget that is left does, and
its count is `depth` again at the end, in a failure as in a result. That is one statement, `Does`,
about every function of the evaluator: it goes through sequences because the next computation finds
the count that the one before it found. The induction is on the budget that is left.

So an evaluator is as good as new after any request.
-/

namespace MiniMl

private theorem EvaluatorState.enter_mk (depth : Int) (log : List Event) :
    EvaluatorState.enter ⟨depth, log⟩ = ⟨depth + 1, log⟩ := rfl

private theorem EvaluatorState.leave_mk (depth : Int) (log : List Event) :
    EvaluatorState.leave ⟨depth + 1, log⟩ = ⟨depth, log⟩ := by
  rw [EvaluatorState.leave, Int.add_sub_cancel]

namespace Stateful

variable {α β : Type}

private theorem bind_apply_ok {x : Stateful α} {state reached : EvaluatorState} {a : α}
    (h : x state = some (.ok a, reached)) (next : α → Stateful β) :
    (x >>= next) state = next a reached := by
  change Option.bind (x state) _ = _
  rw [h]
  rfl

private theorem bind_apply_error {x : Stateful α} {state reached : EvaluatorState}
    {failure : Failure} (h : x state = some (.error failure, reached)) (next : α → Stateful β) :
    (x >>= next) state = some (.error failure, reached) := by
  change Option.bind (x state) _ = _
  rw [h]
  rfl

private theorem tryCatch_apply_ok {x : Stateful α} {state reached : EvaluatorState} {a : α}
    (h : x state = some (.ok a, reached)) (handle : Failure → Stateful α) :
    (tryCatch x handle : Stateful α) state = some (.ok a, reached) := by
  change Option.bind (x state) _ = _
  rw [h]
  rfl

private theorem tryCatch_apply_error {x : Stateful α} {state reached : EvaluatorState}
    {failure : Failure} (h : x state = some (.error failure, reached))
    (handle : Failure → Stateful α) :
    (tryCatch x handle : Stateful α) state = handle failure reached := by
  change Option.bind (x state) _ = _
  rw [h]
  rfl

/-- Started with this count, the computation ends as the run does, with the messages of the run and
with the same count. -/
def Does (x : Stateful α) (depth : Int) (r : Run α) : Prop :=
  ∀ log, x ⟨depth, log⟩ = some (r.outcome, ⟨depth, log ++ r.log⟩)

namespace Does

variable {depth : Int}

theorem ofRun (r : Run α) : (Stateful.ofRun r).Does depth r :=
  fun _ => rfl

theorem pure (a : α) : (Pure.pure a : Stateful α).Does depth (Pure.pure a) := by
  intro log
  rw [Run.pure_def, List.append_nil]
  rfl

theorem fail (failure : Failure) : (throw failure : Stateful α).Does depth (Run.fail failure) := by
  intro log
  rw [Run.fail, Run.ofOutcome, List.append_nil]
  rfl

theorem bind {x : Stateful α} {r : Run α} {next : α → Stateful β} {next' : α → Run β}
    (hx : x.Does depth r) (hnext : ∀ a, (next a).Does depth (next' a)) :
    (x >>= next).Does depth (r >>= next') := by
  intro log
  cases houtcome : r.outcome with
  | ok a =>
      have hfirst : x ⟨depth, log⟩ = some (.ok a, ⟨depth, log ++ r.log⟩) := houtcome ▸ hx log
      rw [bind_apply_ok hfirst, hnext a, Run.bind_of_ok houtcome, List.append_assoc]
  | error failure =>
      have hfirst : x ⟨depth, log⟩ = some (.error failure, ⟨depth, log ++ r.log⟩) :=
        houtcome ▸ hx log
      rw [bind_apply_error hfirst, Run.bind_of_error houtcome]

theorem map {x : Stateful α} {r : Run α} (hx : x.Does depth r) (f : α → β) :
    (f <$> x).Does depth (f <$> r) := by
  rw [← bind_pure_comp, ← bind_pure_comp]
  exact hx.bind fun a => .pure (f a)

/-- An error is logged and goes on, and the count is not touched. -/
theorem reporting {x : Stateful α} {r : Run α} (hx : x.Does depth r)
    (event : EvalError → Event) : (x.reporting event).Does depth (r.reporting event) := by
  intro log
  rw [Run.reporting_eq, ← List.append_assoc]
  cases houtcome : r.outcome with
  | ok a =>
      have hfirst : x ⟨depth, log⟩ = some (.ok a, ⟨depth, log ++ r.log⟩) := houtcome ▸ hx log
      rw [Stateful.reporting, tryCatch_apply_ok hfirst]
      exact pure a (log ++ r.log)
  | error failure =>
      have hfirst : x ⟨depth, log⟩ = some (.error failure, ⟨depth, log ++ r.log⟩) :=
        houtcome ▸ hx log
      rw [Stateful.reporting, tryCatch_apply_error hfirst]
      cases failure with
      | error e => rfl
      | malformed m => exact fail (.malformed m) (log ++ r.log)
      | tooDeep limit => exact fail (.tooDeep limit) (log ++ r.log)

end Does

end Stateful

/-- With a count, an evaluator does what it does without, and keeps the count. -/
def doesRelation (settings : Settings) (depth : Int) :
    MachineRelation Stateful Run settings settings where
  Related x r := x.Does depth r
  pure := .pure
  outcome _ := .ofRun _
  bind := .bind
  after _ h := h
  call h := h
  message {event} _ := by
    cases htrace : settings.trace with
    | true =>
        rw [Settings.traceEvent, Settings.traceEvent, htrace]
        exact .ofRun (Run.emit event)
    | false =>
        rw [Settings.traceEvent, Settings.traceEvent, htrace]
        exact .pure ()
  capture := .refl settings

/-! ### All levels -/

section Evaluations

open Stateful

variable (settings : Settings)

/-- Above the limit an evaluation fails, after it has counted down again. -/
private theorem evaluate_does_of_limit_lt {depth : Int} (hlimit : settings.maxDepth < depth + 1)
    (e : Expr) (env : Env) :
    (Evaluator.evaluate settings e env).Does depth (Run.fail (.tooDeep settings.maxDepth)) := by
  intro log
  rw [Evaluator.evaluate, Evaluator.descend, EvaluatorState.enter_mk, if_pos hlimit,
    EvaluatorState.leave_mk]
  exact Does.fail _ log

/-- Below it, an evaluation does a level with the count one higher, and counts down what it has
counted up. The evaluations of the parts find the higher count, as the count comes back after each
of them. -/
private theorem evaluate_does_of_parts {depth : Int} (hlimit : ¬ settings.maxDepth < depth + 1)
    {evaluation : Evaluation}
    (hparts : ∀ e env, (Evaluator.evaluate settings e env).Does (depth + 1) (evaluation e env))
    (e : Expr) (env : Env) :
    (Evaluator.evaluate settings e env).Does depth (evalWith settings evaluation e env) := by
  intro log
  let counted (part : Expr) (site : Env) : Stateful Value := fun now =>
    if depth < now.depth then Evaluator.descend settings part site now else none
  have hcounted : ∀ part site, (counted part site).Does (depth + 1) (evaluation part site) := by
    intro part site messages
    have hdeeper : depth < depth + 1 := by omega
    exact (if_pos hdeeper).trans (hparts part site messages)
  have hlevel := (doesRelation settings (depth + 1)).evalWith_related hcounted e env log
  rw [Evaluator.evaluate, Evaluator.descend, EvaluatorState.enter_mk, if_neg hlimit]
  refine (congrArg (Option.bind · fun ended => some (ended.1, ended.2.leave)) hlevel).trans ?_
  exact congrArg (fun state => some (_, state)) (EvaluatorState.leave_mk depth _)

/-- With a count, the evaluator does what the budget allows that the count leaves. -/
theorem evaluate_does (depth : Int) (e : Expr) (env : Env) :
    (Evaluator.evaluate settings e env).Does depth
      (eval settings (settings.maxDepth - depth).toNat e env) := by
  generalize hbudget : (settings.maxDepth - depth).toNat = budget
  induction budget generalizing depth e env with
  | zero => exact evaluate_does_of_limit_lt settings (by omega) e env
  | succ budget ih =>
      have hparts : ∀ part site, (Evaluator.evaluate settings part site).Does (depth + 1)
          (eval settings budget part site) := fun part site => ih (depth + 1) part site (by omega)
      exact evaluate_does_of_parts settings (by omega) hparts e env

/-- The count of a new evaluator leaves the whole budget. -/
private theorem evaluate_does_zero (e : Expr) (env : Env) :
    (Evaluator.evaluate settings e env).Does 0 (evaluate settings e env) := by
  have hdoes := evaluate_does settings 0 e env
  rw [Int.sub_zero] at hdoes
  exact hdoes

end Evaluations

/-! ### Sessions -/

/-- A request as a run of its own. -/
def Evaluator.Request.direct (settings : Settings) : Request → Run (Value ⊕ Env)
  | .evaluate e env => .inl <$> MiniMl.evaluate settings e env
  | .run e env => .inl <$> MiniMl.run settings e env
  | .interpret program env => .inr <$> MiniMl.interpret settings program env
  | .declare decl env => .inr <$> MiniMl.declare settings decl env
  | .bindLet env recursive bindings => .inr <$> MiniMl.bindLet settings env recursive bindings
  | .applyValue func arg env => .inl <$> MiniMl.applyValue settings func arg env
  | .dispatch env value rules => .inl <$> MiniMl.dispatch settings env value rules

namespace Evaluator

open Stateful (Does)

variable (settings : Settings) (effect : Effect)

theorem Request.perform_does_zero (request : Request) :
    (request.perform settings).Does 0 (request.direct settings) := by
  have hparts := evaluate_does_zero settings
  let r := doesRelation settings 0
  cases request with
  | evaluate e env => exact (hparts e env).map _
  | run e env => exact ((hparts e env).reporting .runFailed).map _
  | interpret program env =>
      exact (r.interpretWith_related hparts (fun _ => Does.ofRun _)
        (fun event h => Does.reporting h event) program env).map _
  | declare decl env => exact (r.declareWith_related hparts decl env).map _
  | bindLet env recursive bindings => exact (r.bindWith_related hparts env recursive bindings).map _
  | applyValue func arg env => exact (r.applyWith_related hparts func arg env).map _
  | dispatch env value rules => exact (r.dispatchWith_related hparts env value rules).map _

/-- A new evaluator answers a request as a run of its own, and is as new afterwards. -/
private theorem answer_zero (request : Request) :
    answer settings effect request 0
      = some ((request.effect effect).answer (request.direct settings), 0) := by
  rw [answer, request.perform_does_zero settings []]
  rfl

/-- So none of the answers depends on the requests before it. -/
theorem session_zero (requests : List Request) :
    session settings effect requests 0 = some (requests.map fun request =>
      (request.effect effect).answer (request.direct settings), 0) := by
  induction requests with
  | nil => rfl
  | cons request rest ih =>
      simp only [session, answer_zero, ih, Option.bind_eq_bind, Option.bind_some, List.map_cons]

end Evaluator

/-- The computation comes to an end, adds to the log, and leaves the count as it was. -/
def Stateful.Restores {α : Type} (x : Stateful α) : Prop :=
  ∀ state, ∃ outcome messages, x state = some (outcome, ⟨state.depth, state.log ++ messages⟩)

theorem Stateful.Restores.of_does {α : Type} {x : Stateful α} {run : Int → Run α}
    (h : ∀ depth, x.Does depth (run depth)) : x.Restores :=
  fun state => ⟨_, _, h state.depth state.log⟩

/-- Whatever the count is when an evaluator is asked, it is the same at the end, whether the
evaluator succeeds or fails. So in a session every request is answered as by a new evaluator, which
is how the functions without a counter answer it, whatever was asked before. -/
theorem evaluator_reusable (settings : Settings) (effect : Effect) :
    (∀ e env, (Evaluator.evaluate settings e env).Restores)
    ∧ (∀ env value rules, (Evaluator.dispatch settings env value rules).Restores)
    ∧ (∀ func arg env, (Evaluator.applyValue settings func arg env).Restores)
    ∧ (∀ env recursive bindings, (Evaluator.bindLet settings env recursive bindings).Restores)
    ∧ (∀ decl env, (Evaluator.declare settings decl env).Restores)
    ∧ ∀ requests, ∃ answers, Evaluator.session settings effect requests 0 = some (answers, 0)
      ∧ List.Forall₂ (fun request answer =>
          Evaluator.answer settings effect request 0 = some (answer, 0)
            ∧ answer = (request.effect effect).answer (request.direct settings))
        requests answers := by
  have hparts := evaluate_does settings
  refine ⟨fun e env => ?_, fun env value rules => ?_, fun func arg env => ?_,
    fun env recursive bindings => ?_, fun decl env => ?_, fun requests => ?_⟩
  · exact .of_does fun depth => hparts depth e env
  · exact .of_does fun depth =>
      (doesRelation settings depth).dispatchWith_related (hparts depth) env value rules
  · exact .of_does fun depth =>
      (doesRelation settings depth).applyWith_related (hparts depth) func arg env
  · exact .of_does fun depth =>
      (doesRelation settings depth).bindWith_related (hparts depth) env recursive bindings
  · exact .of_does fun depth =>
      (doesRelation settings depth).declareWith_related (hparts depth) decl env
  · refine ⟨_, Evaluator.session_zero settings effect requests, ?_⟩
    rw [List.forall₂_map_right_iff]
    refine List.forall₂_same.mpr fun request _ => ⟨?_, rfl⟩
    exact Evaluator.answer_zero settings effect request

end MiniMl
