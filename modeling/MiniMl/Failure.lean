import MiniMl.Error
import MiniMl.Malformed
/-!
# How a computation can fail
-/

namespace MiniMl

/-- A failure of the evaluator. Only an evaluation error can be handed to the caller as a result;
the other two end everything. -/
inductive Failure where
  | error (e : EvalError)
  | malformed (m : Malformed)
  | tooDeep (limit : Int)

def Failure.message : Failure → String
  | .error e => e.message
  | .malformed m => m.message
  | .tooDeep limit => "evaluation exceeded max_depth=" ++ toString limit

/-- The integers that the message shows. -/
def Failure.integers : Failure → List Int
  | .error e => e.integers
  | .malformed m => m.integers
  | .tooDeep limit => [limit]

end MiniMl
