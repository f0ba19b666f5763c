import MiniMl.Decimal.Shortest
/-!
# How floats are written

The shortest digits, positionally when the leading digit stands at a power from `10 ^ -4` to
`10 ^ 15`, with at least one decimal. Otherwise in scientific form with a signed exponent of at
least two digits.
-/

namespace MiniMl.Decimal

/-- Powers of ten of the leading digit that are written positionally. -/
def isPositional (power : Int) : Bool :=
  -4 ≤ power && power < 16

/-- Digits with the point after the digit of the units. -/
def positional (digits : List Char) (power : Int) : List Char :=
  if power < 0 then
    '0' :: '.' :: (List.replicate (-power - 1).toNat '0' ++ digits)
  else
    let units := power.toNat + 1
    let fraction := digits.drop units
    digits.take units ++ List.replicate (units - digits.length) '0'
      ++ '.' :: (if fraction.isEmpty then ['0'] else fraction)

/-- The exponent with its sign and at least two digits. -/
def exponentText (power : Int) : List Char :=
  let digits := Nat.toDigits 10 power.natAbs
  (if power < 0 then '-' else '+') :: (List.replicate (2 - digits.length) '0' ++ digits)

/-- One digit, the others after a point, and the exponent. -/
def scientific (digits : List Char) (power : Int) : List Char :=
  let rest := digits.drop 1
  digits.take 1 ++ (if rest.isEmpty then [] else '.' :: rest) ++ 'e' :: exponentText power

/-- The text of a positive decimal, without trailing zeros among its digits. -/
def Scientific.layout (d : Scientific) : List Char :=
  let digits := Nat.toDigits 10 d.digits
  let power := d.exponent + digits.length - 1
  let digits := (digits.reverse.dropWhile (· == '0')).reverse
  if isPositional power then positional digits power else scientific digits power

/-- The text of a float. -/
def text (x : Float) : String :=
  if x.isNaN then
    "nan"
  else
    let bits := x.toBits
    let sign := if bits >>> 63 == 1 then "-" else ""
    let magnitude :=
      if x.isInf then "inf"
      else if x == 0.0 then "0.0"
      else String.ofList (Binary.ofBits bits).shortest.layout
    sign ++ magnitude

end MiniMl.Decimal
