/-!
# The fewest decimal digits that read back

A positive binary64 value stands for an interval of reals: those that round to it. Among the
decimals in that interval the one with the fewest digits is chosen, and among those the nearest.
Everything is exact arithmetic on naturals.
-/

namespace MiniMl.Decimal

/-- A power as a factor. One with a negative exponent is a factor of the other side instead, and
here it is one. -/
def power (base : Nat) (exponent : Int) : Nat :=
  Nat.pow base exponent.toNat

/-- The value `significand * 2 ^ exponent`. -/
structure Binary where
  significand : Nat
  exponent : Int
  /-- The next value below is half as far away as the next one above. -/
  narrowBelow : Bool
  deriving DecidableEq, Repr

/-- The value `digits * 10 ^ exponent`. -/
structure Scientific where
  digits : Nat
  exponent : Int
  deriving DecidableEq, Repr

namespace Binary

/-- The magnitude that the bits of a finite binary64 value encode. -/
def ofBits (bits : UInt64) : Binary :=
  let biased := ((bits >>> 52) &&& 0x7FF).toNat
  let fraction := (bits &&& 0xFFFFFFFFFFFFF).toNat
  if biased = 0 then
    { significand := fraction, exponent := -1074, narrowBelow := false }
  else
    { significand := power 2 52 + fraction
      exponent := (biased : Int) - 1075
      narrowBelow := fraction == 0 && biased > 1 }

/-- Compares `a * 10 ^ i` with `b * 2 ^ j`. -/
def compareScaled (a : Nat) (i : Int) (b : Nat) (j : Int) : Ordering :=
  compare (a * power 10 i * power 2 (-j)) (b * power 2 j * power 10 (-i))

/-- The decimal is among the reals that round to `x`. The two ends of the interval lie halfway to
the neighbours of `x`; they belong to it when the significand is even. -/
def readsBack (x : Binary) (d : Scientific) : Bool :=
  let low := if x.narrowBelow then 4 * x.significand - 1 else 4 * x.significand - 2
  let high := 4 * x.significand + 2
  let atLow := compareScaled d.digits d.exponent low (x.exponent - 2)
  let atHigh := compareScaled d.digits d.exponent high (x.exponent - 2)
  let closed := x.significand % 2 == 0
  (atLow == .gt || (closed && atLow == .eq)) && (atHigh == .lt || (closed && atHigh == .eq))

/-- The least `k` with `x < 10 ^ k`. The binary logarithm gives it up to two steps. -/
def scale (x : Binary) : Int :=
  let start := ((x.significand.log2 : Int) + x.exponent) * 30103 / 100000
  let above (k : Int) : Bool := compareScaled 1 k x.significand x.exponent == .gt
  if above start then start else if above (start + 1) then start + 1 else start + 2

/-- The multiple of `10 ^ grid` nearest to `x` that reads back as `x`, if one does. Halfway between
two of them the even one is taken. -/
def nearestOn (x : Binary) (grid : Int) : Option Scientific :=
  let num := x.significand * power 2 x.exponent * power 10 (-grid)
  let den := power 2 (-x.exponent) * power 10 grid
  let below : Scientific := ⟨num / den, grid⟩
  let above : Scientific := ⟨num / den + 1, grid⟩
  match x.readsBack below, x.readsBack above with
  | true, true =>
    match compare (2 * num) ((2 * below.digits + 1) * den) with
    | .lt => some below
    | .gt => some above
    | .eq => some (if below.digits % 2 = 0 then below else above)
  | true, false => some below
  | false, true => some above
  | false, false => none

/-- The exact value of `x` as a decimal. -/
def exact (x : Binary) : Scientific :=
  if 0 ≤ x.exponent then
    ⟨x.significand * power 2 x.exponent, 0⟩
  else
    ⟨x.significand * power 5 (-x.exponent), x.exponent⟩

/-- The shortest decimal that reads back as the nonzero value `x`: grids are tried from the coarsest
to the one with seventeen digits, which always suffices. -/
def shortest (x : Binary) : Scientific :=
  let top := x.scale
  ((List.range 17).findSome? fun n => x.nearestOn (top - (n + 1 : Nat))).getD x.exact

end Binary

end MiniMl.Decimal
