import MiniMl.Text.Blank
import MiniMl.Text.Pieces
/-!
# Integers in text

An integer may stand in white space and have leading zeros, single underscores between its digits,
and a point with zeros at its end. The sign comes first; a minus sign may also stand after the
leading zeros. What is left when all this is dropped is a plain literal, and its length is limited.
-/

namespace MiniMl.Text

/-- Why a text is no integer. -/
inductive IntegerFault where
  | notInteger
  | tooLong
  deriving DecidableEq, Repr

/-- The greatest length of a plain literal, its sign included. -/
def literalLimit : Nat := 4300

/-- A digit with which a plain literal other than zero starts. -/
def isLeadingDigit (c : Char) : Bool :=
  c.isDigit && c != '0'

/-- The text after leading zeros and the underscores among them. The character before the text is
needed where nothing follows but a point or the end. -/
def afterZeros (before : Char) : List Char → Option (List Char)
  | [] => some [before]
  | c :: rest =>
    if c == '0' || c == '_' then afterZeros c rest
    else if isLeadingDigit c || c == '-' then some (c :: rest)
    else if c == '.' then some (before :: c :: rest)
    else none

/-- The text from the first digit that counts. -/
def dropLeadingZeros : List Char → Option (List Char)
  | [] => none
  | c :: rest =>
    if c == '0' then afterZeros c rest else if isLeadingDigit c then some (c :: rest) else none

/-- The text without a point and zeros at its end. -/
def dropPointZeros (text : List Char) : List Char :=
  match cut '.' text with
  | none => text
  | some (whole, zeros) => if !zeros.isEmpty && zeros.all (· == '0') then whole else text

/-- The text without its underscores, if each of them stands alone between characters. -/
def dropUnderscores (text : List Char) : List Char :=
  if (split '_' text).all fun piece => !piece.isEmpty then text.filter (· != '_') else text

/-- The digits of a literal whose sign has a given length. Too long a row of digits is refused
whatever follows it. -/
def readDigits (signLength : Nat) (text : List Char) : Except IntegerFault Nat :=
  let digits := text.takeWhile Char.isDigit
  if digits.head?.any isLeadingDigit && literalLimit < signLength + digits.length then
    .error .tooLong
  else if digits == ['0'] || digits.head?.any isLeadingDigit then
    if digits.length = text.length then .ok (Nat.ofDigitChars 10 digits 0) else .error .notInteger
  else
    .error .notInteger

/-- A plain literal: digits without leading zeros after an optional minus sign. -/
def readLiteral : List Char → Except IntegerFault Int
  | '-' :: digits => (readDigits 1 digits).map fun n => -(n : Int)
  | digits => (readDigits 0 digits).map fun n => (n : Int)

/-- The plain literal that an integer without a sign in front comes down to. -/
def plain (text : List Char) : Option (List Char) :=
  (dropLeadingZeros text).map fun rest => dropUnderscores (dropPointZeros rest)

/-- Reads an integer. -/
def readInteger (text : String) : Except IntegerFault Int :=
  let literal? := match trim isWhite text.toList with
    | '+' :: rest => plain rest
    | '-' :: rest => (plain rest).map ('-' :: ·)
    | rest => plain rest
  match literal? with
  | some literal => readLiteral literal
  | none => .error .notInteger

end MiniMl.Text
