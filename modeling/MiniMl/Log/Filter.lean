import MiniMl.Assoc
import MiniMl.Text.Blank
import MiniMl.Text.Case
import MiniMl.Text.Pieces
/-!
# Log filters

A filter is a text of parts between commas. A part with an equals sign sets the level of a module,
or hides the module; any other part sets the level for everything. Later parts win, and blank parts
do not matter.
-/

namespace MiniMl

/-- One part of a filter. -/
inductive Directive where
  /-- The level for everything. -/
  | general (level : String)
  /-- The level of a module, or none to hide it. -/
  | forModule (name : String) (level : Option String)
  deriving DecidableEq, Repr

/-- A filter as it is written: the names of its levels are not checked. -/
structure Filter where
  level : String := "info"
  modules : List (String × Option String) := []
  deriving DecidableEq, Repr

namespace Directive

variable (letters : LetterCase)

/-- Reads a part without blanks at its ends. -/
def ofPart (part : List Char) : Directive :=
  match Text.cut '=' part with
  | none => .general (String.ofList part)
  | some (name, level) =>
    let level := Text.trim Text.isBlank level
    .forModule (String.ofList (Text.trim Text.isBlank name))
      (if level = "false".toList then none else some (String.ofList (letters.upper level)))

/-- The parts of a filter text in lower case. -/
def parse (text : List Char) : List Directive :=
  let parts := (Text.split ',' (letters.lower text)).map (Text.trim Text.isBlank)
  (parts.filter fun part => !part.isEmpty).map (ofPart letters)

end Directive

namespace Filter

/-- Follows one part of a filter. -/
def follow (filter : Filter) : Directive → Filter
  | .general level => { filter with level := level }
  | .forModule name level => { filter with modules := Assoc.put name level filter.modules }

/-- The filter of a text. -/
def parse (letters : LetterCase) (text : String) : Filter :=
  (Directive.parse letters text.toList).foldl follow {}

/-- The filter of the text that is given, or else of the one that was set before, or else the
plainest one. -/
def choose (letters : LetterCase) (given preset : Option String) : Filter :=
  parse letters ((given <|> preset).getD "info")

end Filter

end MiniMl
