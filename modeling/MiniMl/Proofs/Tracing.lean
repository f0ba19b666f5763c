import MiniMl.Proofs.Lookup
import MiniMl.Proofs.MachineRelation
import MiniMl.Proofs.Report
/-!
# Tracing and the log

The messages about matches and calls are debug messages, and nothing reads the log. So an evaluation
that traces ends as one that does not, and logs debug messages where the other logs nothing
(`evaluate_traces`). All other messages stand around evaluations: a program announces itself before
its declarations, and a run or a program reports after its last step what has become of it.
-/

namespace MiniMl

/-! ### Evaluations with and without tracing -/

namespace Run

/-- The runs end alike. The first logs nothing but debug messages, the second nothing at all. -/
structure Traces {α : Type} (x y : Run α) : Prop where
  outcome : x.outcome = y.outcome
  debug : ∀ event ∈ x.log, event.level = .debug
  silent : y.log = []

namespace Traces

variable {α β : Type}

theorem ofOutcome (outcome : Except Failure α) :
    (Run.ofOutcome outcome).Traces (Run.ofOutcome outcome) :=
  ⟨rfl, fun _ hmem => (List.not_mem_nil hmem).elim, rfl⟩

theorem bind {x y : Run α} {next next' : α → Run β} (h : x.Traces y)
    (hnext : ∀ a, (next a).Traces (next' a)) : (x >>= next).Traces (y >>= next') := by
  cases hx : x.outcome with
  | error failure =>
      have hy : y.outcome = .error failure := h.outcome ▸ hx
      rw [bind_of_error hx, bind_of_error hy]
      exact ⟨rfl, h.debug, h.silent⟩
  | ok a =>
      have hy : y.outcome = .ok a := h.outcome ▸ hx
      have ha := hnext a
      rw [bind_of_ok hx, bind_of_ok hy]
      refine ⟨ha.outcome, fun event hmem => ?_, ?_⟩
      · exact (List.mem_append.mp hmem).elim (h.debug event) (ha.debug event)
      · rw [h.silent, ha.silent, List.nil_append]

private theorem debug_of_mem {computation : Bool → Run α}
    (h : (computation true).Traces (computation false)) (trace : Bool) {event : Event}
    (hmem : event ∈ (computation trace).log) : event.level = .debug := by
  cases trace with
  | true => exact h.debug event hmem
  | false =>
      rw [h.silent] at hmem
      cases hmem

end Traces

end Run

/-- Two evaluators of which only the first one traces. -/
def tracesRelation (settings : Settings) :
    MachineRelation Run Run { settings with trace := true } { settings with trace := false } where
  Related := Run.Traces
  pure a := .ofOutcome (.ok a)
  outcome := Run.Traces.ofOutcome
  bind := Run.Traces.bind
  after _ h := h
  call h := h
  message hlevel := ⟨rfl, fun _ hmem => by rw [List.mem_singleton.mp hmem, hlevel], rfl⟩
  capture := rfl

section Evaluations

variable (settings : Settings)

theorem eval_traces (budget : Nat) (e : Expr) (env : Env) :
    (eval { settings with trace := true } budget e env).Traces
      (eval { settings with trace := false } budget e env) := by
  induction budget generalizing e env with
  | zero => exact .ofOutcome _
  | succ budget ih =>
      rw [eval_succ, eval_succ]
      exact (tracesRelation settings).evalWith_related ih e env

theorem evaluate_traces (e : Expr) (env : Env) :
    (evaluate { settings with trace := true } e env).Traces
      (evaluate { settings with trace := false } e env) :=
  eval_traces settings settings.budget e env

theorem declareAll_traces (program : List Decl) (env : Env) :
    (declareAll { settings with trace := true } program env).Traces
      (declareAll { settings with trace := false } program env) :=
  (tracesRelation settings).declareAllWith_related (evaluate_traces settings) program env

end Evaluations

private theorem filter_debug {first steps last : List Event}
    (hfirst : ∀ event ∈ first, event.level ≠ .debug)
    (hsteps : ∀ event ∈ steps, event.level = .debug)
    (hlast : ∀ event ∈ last, event.level ≠ .debug) :
    (first ++ (steps ++ last)).filter (fun event => event.level ≠ .debug) = first ++ last := by
  have hnone : steps.filter (fun event => event.level ≠ .debug) = [] := by
    rw [List.filter_eq_nil_iff]
    exact fun event hmem => by simp [hsteps event hmem]
  rw [List.filter_append, List.filter_append, hnone, List.nil_append,
    List.filter_eq_self.mpr fun event hmem => by simp [hfirst event hmem],
    List.filter_eq_self.mpr fun event hmem => by simp [hlast event hmem]]

/-! ### What the caller sees -/

/-- Whether an evaluator traces shows to its caller in debug messages only. -/
structure TraceTransparent {α : Type} (effect : Effect) (computation : Bool → Run α) : Prop where
  reply : (effect.answer (computation true)).reply = (effect.answer (computation false)).reply
  log : (effect.answer (computation false)).log
    = (effect.answer (computation true)).log.filter fun event => event.level ≠ .debug

section Around

variable {α : Type} {first : List Event} {last : Except Failure α → List Event}
  {inner outer : Bool → Run α}
  (houter : ∀ trace, outer trace = ⟨(inner trace).outcome,
    first ++ ((inner trace).log ++ last (inner trace).outcome)⟩)
  (htraces : (inner true).Traces (inner false))

include houter htraces

/-- If tracing shows in debug messages inside of other messages, it shows in debug messages. -/
private theorem TraceTransparent.of_inner (effect : Effect)
    (hfirst : ∀ event ∈ first, event.level ≠ .debug)
    (hlast : ∀ outcome, ∀ event ∈ last outcome, event.level ≠ .debug) :
    TraceTransparent effect outer where
  reply := by rw [houter, houter, Effect.answer, Effect.answer, htraces.outcome]
  log := by
    rw [houter, houter, Effect.answer, Effect.answer, filter_debug hfirst htraces.debug (hlast _),
      htraces.silent, htraces.outcome, List.nil_append]

private theorem exists_debug_steps (effect : Effect) (trace : Bool) :
    ∃ steps, (∀ event ∈ steps, event.level = .debug) ∧ (effect.answer (outer trace)).log
      = first ++ (steps ++ last (outer trace).outcome) := by
  refine ⟨(inner trace).log, fun event => htraces.debug_of_mem trace, ?_⟩
  rw [Effect.answer, houter]

end Around

/-- The names that an environment counts are different, and they are those that can be found. -/
theorem Env.names_visible (env : Env) :
    env.names.Nodup
      ∧ ∀ name, name ∈ env.names ↔ env.find name ≠ .error (.error (.unbound name)) := by
  refine ⟨env.pairwise_names.imp fun hlt heq => ?_, fun name => ?_⟩
  · subst heq
    exact String.lt_irrefl _ hlt
  · rw [Env.mem_names, Ne, Env.find_eq_error_iff]
    simp

/-- Tracing changes nothing but the debug messages in the log. These come in one piece: a run has
them before the report of an evaluation error, and a program between the announcement of its length
and the report of the names it leaves or of its error. That is so under both effects. -/
theorem tracing_transparent (settings : Settings) (effect : Effect) (env : Env) :
    (∀ e : Expr,
      TraceTransparent effect (fun trace => run { settings with trace := trace } e env)
        ∧ ∃ steps, (∀ event ∈ steps, event.level = .debug)
          ∧ (effect.answer (run settings e env)).log
            = steps ++ reports .runFailed (run settings e env).outcome)
    ∧ ∀ program : List Decl,
      TraceTransparent effect (fun trace => interpret { settings with trace := trace } program env)
        ∧ (∃ steps, (∀ event ∈ steps, event.level = .debug)
          ∧ (effect.answer (interpret settings program env)).log
            = .programStarted program.length ::
              (steps ++ programReports (interpret settings program env).outcome))
        ∧ ∀ final : Env, final.names.Nodup
          ∧ ∀ name, name ∈ final.names ↔ final.find name ≠ .error (.error (.unbound name)) := by
  have hrun : ∀ e trace, run { settings with trace := trace } e env
      = ⟨(evaluate { settings with trace := trace } e env).outcome,
        [] ++ ((evaluate { settings with trace := trace } e env).log
          ++ reports .runFailed (evaluate { settings with trace := trace } e env).outcome)⟩ :=
    fun e trace => Run.reporting_eq _ _
  have hinterpret := fun program trace => interpret_eq { settings with trace := trace } program env
  refine ⟨fun e => ⟨?_, ?_⟩, fun program => ⟨?_, ?_, Env.names_visible⟩⟩
  · refine .of_inner (hrun e) (evaluate_traces settings e env) effect (by simp) fun _ _ => ?_
    exact level_of_mem_reports (by simp [Event.level])
  · exact exists_debug_steps (hrun e) (evaluate_traces settings e env) effect settings.trace
  · refine .of_inner (hinterpret program) (declareAll_traces settings program env) effect ?_
      fun _ _ => level_of_mem_programReports
    simp [Event.level]
  · exact exists_debug_steps (hinterpret program) (declareAll_traces settings program env) effect
      settings.trace

end MiniMl
