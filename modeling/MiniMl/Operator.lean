import MiniMl.Error
import MiniMl.Value.Basic
/-!
# Built-in operators

A closed table of binary operators on evaluated operands. Integers and floats are never mixed: an
operator is undefined for every pair of operands that the table does not list.
-/

namespace MiniMl

/-- The operations of arithmetic, which exist for integers and for floats. -/
inductive Arithmetic where
  | add
  | sub
  | mul
  | div
  deriving DecidableEq, Repr

/-- The comparisons of two integers or two floats. -/
inductive Comparison where
  | le
  | lt
  | ge
  | gt
  | eq
  | ne
  deriving DecidableEq, Repr

/-- The connectives of two truth values. -/
inductive Connective where
  | and
  | or
  deriving DecidableEq, Repr

/-- A built-in operator. -/
inductive Operator where
  | int (op : Arithmetic)
  | float (op : Arithmetic)
  | compare (op : Comparison)
  | connect (op : Connective)
  | cons
  deriving DecidableEq, Repr

namespace Operator

/-- The operators by their symbols. -/
def table : List (String × Operator) :=
  [("+", .int .add), ("-", .int .sub), ("*", .int .mul), ("/", .int .div),
    ("+.", .float .add), ("-.", .float .sub), ("*.", .float .mul), ("/.", .float .div),
    ("<=", .compare .le), ("<", .compare .lt), (">=", .compare .ge), (">", .compare .gt),
    ("=", .compare .eq), ("<>", .compare .ne),
    ("&&", .connect .and), ("||", .connect .or), ("::", .cons)]

/-- The operator that a symbol stands for. -/
def ofSymbol? (symbol : String) : Option Operator :=
  table.lookup symbol

/-- The symbol of a built-in operator. -/
def isSymbol (symbol : String) : Bool :=
  (ofSymbol? symbol).isSome

end Operator

/-- The quotient of the magnitudes, with a sign when the signs of the operands differ: division that
truncates toward zero. -/
def truncatedQuotient (x y : Int) : Int :=
  let quotient : Int := (x.natAbs / y.natAbs : Nat)
  if decide (x < 0) = decide (y < 0) then quotient else -quotient

namespace Arithmetic

/-- Exact arithmetic on integers. -/
def onInts : Arithmetic → Int → Int → Except EvalError Int
  | .add, x, y => .ok (x + y)
  | .sub, x, y => .ok (x - y)
  | .mul, x, y => .ok (x * y)
  | .div, x, y => if y = 0 then .error .intDivisionByZero else .ok (truncatedQuotient x y)

/-- Arithmetic on floats. A zero divisor of either sign is refused. -/
def onFloats : Arithmetic → Float → Float → Except EvalError Float
  | .add, x, y => .ok (x + y)
  | .sub, x, y => .ok (x - y)
  | .mul, x, y => .ok (x * y)
  | .div, x, y => if y == 0.0 then .error .floatDivisionByZero else .ok (x / y)

end Arithmetic

namespace Comparison

def onInts : Comparison → Int → Int → Bool
  | .le, x, y => decide (x ≤ y)
  | .lt, x, y => decide (x < y)
  | .ge, x, y => decide (y ≤ x)
  | .gt, x, y => decide (y < x)
  | .eq, x, y => x == y
  | .ne, x, y => x != y

/-- Comparison of floats as numbers: a NaN differs from everything and is in no order. -/
def onFloats : Comparison → Float → Float → Bool
  | .le, x, y => decide (x ≤ y)
  | .lt, x, y => decide (x < y)
  | .ge, x, y => decide (y ≤ x)
  | .gt, x, y => decide (y < x)
  | .eq, x, y => x == y
  | .ne, x, y => x != y

end Comparison

def Connective.onBools : Connective → Bool → Bool → Bool
  | .and, a, b => a && b
  | .or, a, b => a || b

/-- The value of an operator on two operands, where the table has an entry for their kinds. -/
def Operator.compute? : Operator → Value → Value → Option (Except EvalError Value)
  | .int op, .int x, .int y => some ((op.onInts x y).map .int)
  | .float op, .float x, .float y => some ((op.onFloats x y).map .float)
  | .compare op, .int x, .int y => some (.ok (.bool (op.onInts x y)))
  | .compare op, .float x, .float y => some (.ok (.bool (op.onFloats x y)))
  | .connect op, .bool a, .bool b => some (.ok (.bool (op.onBools a b)))
  | .cons, head, .list items => some (.ok (.list (head :: items)))
  | _, _, _ => none

/-- Applies the operator of a symbol to two operands. -/
def applyOperator (symbol : String) (left right : Value) : Except EvalError Value :=
  ((Operator.ofSymbol? symbol).bind fun op => op.compute? left right).getD
    (.error (.undefinedOperator symbol left.kind right.kind))

end MiniMl
