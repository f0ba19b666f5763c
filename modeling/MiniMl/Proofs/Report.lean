import MiniMl.Eval.Program
import MiniMl.Proofs.Run
/-!
# Messages around evaluations

A program announces itself before its declarations, and a run or a program reports after its last
step what has become of it. `interpret_eq` separates these messages from what the declarations do.
-/

namespace MiniMl

/-- The messages after an outcome: an evaluation error is reported. -/
def reports {α : Type} (event : EvalError → Event) : Except Failure α → List Event
  | .error (.error e) => [event e]
  | _ => []

/-- The messages after the outcome of a program. -/
def programReports : Except Failure Env → List Event
  | .ok final => [.programDone final.names.length]
  | outcome => reports .programFailed outcome

theorem Run.reporting_eq {α : Type} (x : Run α) (event : EvalError → Event) :
    x.reporting event = ⟨x.outcome, x.log ++ reports event x.outcome⟩ := by
  obtain ⟨outcome, log⟩ := x
  match outcome with
  | .error (.error e) => rfl
  | .ok a | .error (.malformed m) | .error (.tooDeep limit) => simp [Run.reporting, reports]

/-- A program announces itself, does its declarations, and reports. -/
theorem interpret_eq (settings : Settings) (program : List Decl) (env : Env) :
    interpret settings program env
      = ⟨(declareAll settings program env).outcome, [.programStarted program.length]
        ++ ((declareAll settings program env).log
          ++ programReports (declareAll settings program env).outcome)⟩ := by
  rw [interpret_eq_bind, Run.bind_of_ok rfl, Run.reporting_eq]
  cases houtcome : (declareAll settings program env).outcome with
  | ok final => simp [Run.bind_ok, Run.pure_def, Run.emit, reports, programReports]
  | error failure => rfl

theorem outcome_interpret (settings : Settings) (program : List Decl) (env : Env) :
    (interpret settings program env).outcome = (declareAll settings program env).outcome := by
  rw [interpret_eq]

/-! ### None of them is a debug message -/

theorem level_of_mem_reports {α : Type} {event : EvalError → Event}
    (hlevel : ∀ e, (event e).level ≠ .debug) {outcome : Except Failure α} {message : Event}
    (hmem : message ∈ reports event outcome) : message.level ≠ .debug := by
  match outcome with
  | .error (.error e) =>
      rw [List.mem_singleton.mp hmem]
      exact hlevel e
  | .ok a => cases hmem
  | .error (.malformed m) => cases hmem
  | .error (.tooDeep limit) => cases hmem

theorem level_of_mem_programReports {outcome : Except Failure Env} {message : Event}
    (hmem : message ∈ programReports outcome) : message.level ≠ .debug := by
  cases outcome with
  | ok final =>
      rw [List.mem_singleton.mp hmem]
      simp [Event.level]
  | error failure => exact level_of_mem_reports (by simp [Event.level]) hmem

end MiniMl
