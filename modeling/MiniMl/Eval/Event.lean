import MiniMl.Error
import MiniMl.Log.Level
/-!
# What the evaluator logs
-/

namespace MiniMl

/-- A message of the evaluator. -/
inductive Event where
  /-- A rule was selected for a value of this kind. -/
  | matched (kind : String) (pattern : Pattern)
  /-- A closure was applied to an argument of this kind. -/
  | applied (param : Pattern) (kind : String)
  | runFailed (e : EvalError)
  | programStarted (declarations : Nat)
  | programDone (bindings : Nat)
  | programFailed (e : EvalError)

namespace Event

def level : Event → Level
  | .matched _ _ | .applied _ _ => .debug
  | .programStarted _ | .programDone _ => .info
  | .runFailed _ | .programFailed _ => .warning

/-- The words about an error that end a message. -/
def aboutError (e : EvalError) : String :=
  " kind=" ++ e.kind.label ++ " error=" ++ e.message

def message : Event → String
  | .matched kind pattern =>
    "evaluator.dispatch.matched value=" ++ kind ++ " pattern=" ++ pattern.display
  | .applied param kind => "evaluator.apply.closure pattern=" ++ param.display ++ " arg=" ++ kind
  | .runFailed e => "evaluator.run.failed" ++ aboutError e
  | .programStarted declarations =>
    "evaluator.program.start declarations=" ++ toString declarations
  | .programDone bindings => "evaluator.program.done bindings=" ++ toString bindings
  | .programFailed e => "evaluator.program.failed" ++ aboutError e

/-- The integers of a program that the message shows. An error is in words by then, and a count is
never long. -/
def integers : Event → List Int
  | .matched _ pattern => pattern.integers
  | .applied param _ => param.integers
  | .runFailed _ | .programStarted _ | .programDone _ | .programFailed _ => []

end Event

end MiniMl
