/-!
# Letter case

Which letters a text has in lower or upper case is a matter of a character set, and of a language at
times. It is a parameter (`LetterCase`); the letter case of ASCII is the one that is built in.
-/

namespace MiniMl

/-- Texts in lower and in upper case. -/
structure LetterCase where
  lower : List Char → List Char
  upper : List Char → List Char

namespace LetterCase

/-- Only the ASCII letters have another case. -/
def ascii : LetterCase where
  lower := List.map Char.toLower
  upper := List.map Char.toUpper

variable (letters : LetterCase)

def lowerText (text : String) : String :=
  String.ofList (letters.lower text.toList)

def upperText (text : String) : String :=
  String.ofList (letters.upper text.toList)

end LetterCase

end MiniMl
