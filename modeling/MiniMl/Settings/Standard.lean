import MiniMl.Decimal.Shortest
import MiniMl.Settings.File
import MiniMl.Settings.Source
import MiniMl.Text.Case
import MiniMl.Text.Integer
/-!
# A library for settings

A library that reads names in ASCII letters, files by the grammar of `SettingsFile`, and entries in
a lax way: an integer may be a text, a float without a fraction or a truth value, and a truth value
may be a word, one or zero.
-/

namespace MiniMl

namespace Entry

/-- A truth value in one of its spellings, in letters of either case. -/
def readBool (text : String) : Option Bool :=
  let word := LetterCase.ascii.lowerText text
  if ["1", "true", "t", "yes", "y", "on"].contains word then some true
  else if ["0", "false", "f", "no", "n", "off"].contains word then some false
  else none

/-- The bound of integers of 64 bits. -/
def wordBound : Int := Decimal.power 2 63

/-- The integer that a float is. It has to be less than the bound of 64 bits in magnitude. -/
def floatInt (x : Float) : Except Problem Int :=
  if x.isNaN || x.isInf then
    .error .intInfinite
  else
    let bits := x.toBits
    let magnitude := Decimal.Binary.ofBits bits
    let num := magnitude.significand * Decimal.power 2 magnitude.exponent
    let den := Decimal.power 2 (-magnitude.exponent)
    let n : Int := (num / den : Nat)
    if num % den ≠ 0 then .error .intFraction
    else if wordBound ≤ n then .error .intSize
    else .ok (if bits >>> 63 == 1 then -n else n)

/-- The problem of a text that is no integer. -/
def textProblem : Text.IntegerFault → Problem
  | .notInteger => .intText
  | .tooLong => .intSize

/-- The integer that an entry gives. -/
def toInt : Entry → Except Problem Int
  | .text s => (Text.readInteger s).mapError textProblem
  | .int n => .ok n
  | .float x => floatInt x
  | .bool b => .ok (if b then 1 else 0)
  | .other => .error .intType

/-- Zero and one as truth values. Only an integer of 64 bits is looked at. -/
def intBool (n : Int) : Except Problem Bool :=
  if n = 1 then .ok true
  else if n = 0 then .ok false
  else if -wordBound ≤ n ∧ n < wordBound then .error .boolText
  else .error .boolType

/-- The truth value that an entry gives. -/
def toBool : Entry → Except Problem Bool
  | .text s => (readBool s).elim (.error .boolText) .ok
  | .int n => intBool n
  | .float x =>
    match floatInt x with
    | .ok n => intBool n
    | .error _ => .error .boolType
  | .bool b => .ok b
  | .other => .error .boolType

end Entry

/-- Overrides with an underscore in front are for the library itself. -/
def isReservedName (name : String) : Bool :=
  name.toList.head? == some '_'

def SettingsReader.standard : SettingsReader where
  fold := LetterCase.ascii.lowerText
  assignments := SettingsFile.assignments
  substitute := SettingsFile.substitute
  toInt := Entry.toInt
  toBool := Entry.toBool

def SettingsLibrary.standard : SettingsLibrary where
  toSettingsReader := .standard
  reserved := isReservedName
  construct := SettingsReader.standard.load

end MiniMl
