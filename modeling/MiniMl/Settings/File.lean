import MiniMl.Settings.Source
import MiniMl.Text.Blank
import MiniMl.Text.Pieces
/-!
# Settings files

A settings file is a text of assignments, each on a line of its own: a key, an equals sign and a
value. A key without an equals sign has no value. Keys and values may be quoted, a number sign
starts a comment, and a line that cannot be read is passed over. A value may refer to a key before
it, or to a variable, by a name in braces after a dollar sign.
-/

namespace MiniMl.SettingsFile

/-- A blank that does not end a line. -/
def isSpace (c : Char) : Bool :=
  Text.isBlank c && c != '\n'

def dropByteOrderMark : List Char → List Char
  | '\uFEFF' :: rest => rest
  | text => text

/-- The text after the end of the line. -/
def dropLine (text : List Char) : List Char :=
  (text.dropWhile (· != '\n')).drop 1

/-! ### Quoted text -/

/-- The text up to the closing quote and the text after it. A quote after a backslash does not
close, unless no other one does. -/
def quoted? (quote : Char) : List Char → Option (List Char × List Char)
  | [] => none
  | [c] => if c == quote then some ([], []) else none
  | c :: d :: rest =>
    if c == quote then
      some ([], d :: rest)
    else if c == '\\' && d == quote then
      match quoted? quote rest with
      | some (inside, after) => some (c :: d :: inside, after)
      | none => some ([c], rest)
    else
      (quoted? quote (d :: rest)).map fun (inside, after) => (c :: inside, after)

/-- What a character stands for after a backslash between single quotes. -/
def singleEscape? : Char → Option Char
  | '\\' => some '\\'
  | '\'' => some '\''
  | _ => none

/-- What a character stands for after a backslash between double quotes. -/
def doubleEscape? : Char → Option Char
  | '\\' => some '\\'
  | '\'' => some '\''
  | '"' => some '"'
  | 'a' => some '\x07'
  | 'b' => some '\x08'
  | 'f' => some '\x0c'
  | 'n' => some '\n'
  | 'r' => some '\r'
  | 't' => some '\t'
  | 'v' => some '\x0b'
  | _ => none

/-- The text with its escapes replaced. A backslash before any other character stands for itself. -/
def unescape (escape? : Char → Option Char) : List Char → List Char
  | [] => []
  | [c] => [c]
  | c :: d :: rest =>
    if c == '\\' then
      match escape? d with
      | some e => e :: unescape escape? rest
      | none => c :: unescape escape? (d :: rest)
    else
      c :: unescape escape? (d :: rest)

/-! ### Assignments

What is read comes with the text after it; a failure tells the place. -/

/-- The text after the word `export` and the spaces behind it. -/
def dropExport (text : List Char) : List Char :=
  let rest := text.drop 6
  if text.take 6 = "export".toList && rest.head?.any isSpace then rest.dropWhile isSpace else text

/-- The key of an assignment. A comment has none. -/
def readKey (text : List Char) : Except (List Char) (Option (List Char) × List Char) :=
  match text with
  | '#' :: _ => .ok (none, text)
  | '\'' :: rest =>
    match Text.cut '\'' rest with
    | some (key, after) => if key.isEmpty then .error text else .ok (some key, after)
    | none => .error text
  | _ =>
    let isKeyChar (c : Char) : Bool := !Text.isBlank c && c != '=' && c != '#'
    let key := text.takeWhile isKeyChar
    if key.isEmpty then .error text else .ok (some key, text.dropWhile isKeyChar)

/-- The text up to a blank with a number sign after it. -/
def dropComment : List Char → List Char
  | [] => []
  | c :: rest =>
    if Text.isBlank c && rest.head? == some '#' then [] else c :: dropComment rest

/-- A value without quotes: the rest of the line without its comment and the blanks at its end. -/
def bareValue (line : List Char) : List Char :=
  ((dropComment line).reverse.dropWhile Text.isBlank).reverse

/-- The value after an equals sign and spaces. -/
def readValue (text : List Char) : Except (List Char) (List Char × List Char) :=
  match text with
  | '\'' :: rest =>
    match quoted? '\'' rest with
    | some (inside, after) => .ok (unescape singleEscape? inside, after)
    | none => .error text
  | '"' :: rest =>
    match quoted? '"' rest with
    | some (inside, after) => .ok (unescape doubleEscape? inside, after)
    | none => .error text
  | _ => .ok (bareValue (text.takeWhile (· != '\n')), text.dropWhile (· != '\n'))

/-- The value of a key, where an equals sign follows it. -/
def readAssigned (text : List Char) : Except (List Char) (Option (List Char) × List Char) :=
  match text.dropWhile isSpace with
  | '=' :: rest =>
    (readValue (rest.dropWhile isSpace)).map fun (value, after) => (some value, after)
  | rest => .ok (none, rest)

/-- The text after a comment and the end of the line, which have to come next. -/
def readLineEnd (text : List Char) : Except (List Char) (List Char) :=
  let spaced := text.dropWhile isSpace
  let rest := if spaced.head? == some '#' then spaced.dropWhile (· != '\n') else spaced
  match rest with
  | [] => .ok []
  | '\n' :: after => .ok after
  | _ => .error text

/-- The assignment with which a text starts. -/
def readAssignment (text : List Char) :
    Except (List Char) (Option Assignment × List Char) := do
  let (key?, afterKey) ← readKey (dropExport text)
  let (value?, afterValue) ← readAssigned afterKey
  let after ← readLineEnd afterValue
  .ok (key?.map fun key => (String.ofList key, value?.map String.ofList), after)

/-- The assignments of a text. Each of them takes a character at least, so that the length of the
text bounds their number. -/
def readAll : Nat → List Char → List Assignment
  | 0, _ => []
  | bound + 1, text =>
    match text.dropWhile Text.isBlank with
    | [] => []
    | start =>
      match readAssignment start with
      | .ok (assignment?, after) => assignment?.toList ++ readAll bound after
      | .error place => readAll bound (dropLine place)

/-- The assignments of a file, in order. -/
def assignments (file : String) : List Assignment :=
  let text := Text.unifyBreaks (dropByteOrderMark file.toList)
  readAll text.length text

/-! ### References -/

/-- The name and the fallback of a reference, from the text after its opening brace. -/
def reference? (text : List Char) : Option ((List Char × List Char) × List Char) :=
  let isNameChar (c : Char) : Bool := c != '\x7d' && c != ':'
  let name := text.takeWhile isNameChar
  match text.dropWhile isNameChar with
  | '\x7d' :: after => some ((name, []), after)
  | ':' :: '-' :: rest =>
    (Text.cut '\x7d' rest).map fun (fallback, after) => ((name, fallback), after)
  | _ => none

/-- The text with its references replaced. Each step takes a character at least, so that the length
of the text bounds the work. -/
def expand (value : String → String → String) : Nat → List Char → List Char
  | 0, text => text
  | _, [] => []
  | bound + 1, c :: rest =>
    match c, rest with
    | '$', '\x7b' :: inside =>
      match reference? inside with
      | some ((name, fallback), after) =>
        (value (String.ofList name) (String.ofList fallback)).toList ++ expand value bound after
      | none => c :: expand value bound rest
    | _, _ => c :: expand value bound rest

/-- The value with its references replaced. -/
def substitute (value : String → String → String) (text : String) : String :=
  String.ofList (expand value text.length text.toList)

end MiniMl.SettingsFile
