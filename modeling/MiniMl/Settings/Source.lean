import MiniMl.Assoc
import MiniMl.Settings.Basic
/-!
# Where settings come from

The settings are a class of a library: the class declares its fields, with their defaults and the
range of the depth, and the library fills them from its sources. A field is decided by the first
source that supplies it: an override, a variable, a line of the settings file, the default. Only the
entry that decides is checked.

The library is a parameter (`SettingsLibrary`). How it reads names, files and entries is left to it
(`SettingsReader`), and what its documentation says of the rest is said here in terms of that
(`SettingsReader.load`).
-/

namespace MiniMl

/-! ### The class -/

inductive Field where
  | maxDepth
  | trace
  | captureFunctionEnv
  deriving DecidableEq, Repr

namespace Field

def name : Field → String
  | .maxDepth => "max_depth"
  | .trace => "trace"
  | .captureFunctionEnv => "capture_function_env"

/-- The name of a field among the variables and in the file. -/
def variableName (field : Field) : String :=
  "MLINTERP_" ++ field.name

end Field

/-- A value that is supplied for a field. -/
inductive Entry where
  | text (s : String)
  | int (n : Int)
  | float (x : Float)
  | bool (b : Bool)
  /-- A missing value, a list or a record: nothing a field can hold. -/
  | other

inductive Problem where
  | intText
  | intSize
  | intFraction
  | intInfinite
  | intType
  | tooSmall
  | tooLarge
  | boolText
  | boolType
  deriving DecidableEq, Repr

namespace Problem

def label : Problem → String
  | .intText => "int_parsing"
  | .intSize => "int_parsing_size"
  | .intFraction => "int_from_float"
  | .intInfinite => "finite_number"
  | .intType => "int_type"
  | .tooSmall => "greater_than_equal"
  | .tooLarge => "less_than_equal"
  | .boolText => "bool_parsing"
  | .boolType => "bool_type"

def message : Problem → String
  | .intText => "Input should be a valid integer, unable to parse string as an integer"
  | .intSize => "Unable to parse input string as an integer, exceeded maximum size"
  | .intFraction => "Input should be a valid integer, got a number with a fractional part"
  | .intInfinite => "Input should be a finite number"
  | .intType => "Input should be a valid integer"
  | .tooSmall => "Input should be greater than or equal to 1"
  | .tooLarge => "Input should be less than or equal to 100000"
  | .boolText => "Input should be a valid boolean, unable to interpret input"
  | .boolType => "Input should be a valid boolean"

end Problem

/-- All that settings can be loaded from. -/
structure Sources where
  overrides : List (String × Entry) := []
  vars : List (String × String) := []
  file : String := ""

/-- A key of a settings file with its value, if it has one. -/
abbrev SettingsFile.Assignment := String × Option String

/-! ### The library -/

/-- How a library reads names, files and entries. -/
structure SettingsReader where
  /-- A name without regard to letter case. -/
  fold : String → String
  /-- The assignments of a file, in order. -/
  assignments : String → List SettingsFile.Assignment
  /-- A value with its references replaced. A reference has a name and a fallback. -/
  substitute : (String → String → String) → String → String
  /-- The integer that an entry gives. -/
  toInt : Entry → Except Problem Int
  /-- The truth value that an entry gives. -/
  toBool : Entry → Except Problem Bool

/-- A library that fills the class. -/
structure SettingsLibrary extends SettingsReader where
  /-- The names of overrides that configure the library itself. -/
  reserved : String → Bool
  /-- The settings from some sources, or what is wrong. -/
  construct : Sources → Except (List (Field × Problem)) Settings

/-- Loads the settings, or lists the problems. -/
def Sources.load (library : SettingsLibrary) (sources : Sources) :
    Except (List (Field × Problem)) Settings :=
  library.construct sources

/-! ### Files

The values of a file are a table by keys: a key stands where it is first assigned, with the value
that it is assigned last. -/

namespace SettingsFile

/-- What a reference stands for: the value of a key before it, or else of a variable, or else its
fallback. A key without a value stands for nothing. -/
def resolve (vars : List (String × String)) (table : List Assignment) (name fallback : String) :
    String :=
  match table.lookup name with
  | some value? => value?.getD ""
  | none => (vars.lookup name).getD fallback

end SettingsFile

namespace SettingsReader

variable (reader : SettingsReader)

/-- Adds an assignment to the table of those before it. -/
def assign (vars : List (String × String)) (table : List SettingsFile.Assignment)
    (assignment : SettingsFile.Assignment) : List SettingsFile.Assignment :=
  let value? := assignment.2.map (reader.substitute (SettingsFile.resolve vars table))
  Assoc.put assignment.1 value? table

/-- The values of assignments by their keys. -/
def tableOf (vars : List (String × String)) (assignments : List SettingsFile.Assignment) :
    List SettingsFile.Assignment :=
  assignments.foldl (reader.assign vars) []

/-! ### The order of the sources -/

/-- The last entry of a name, in letters of either case. -/
def lastOf {β : Type} (name : String) (entries : List (String × β)) : Option β :=
  (entries.reverse.find? fun entry => reader.fold entry.1 == reader.fold name).map Prod.snd

/-- The entry that decides a field. -/
def winner (sources : Sources) (field : Field) : Option Entry :=
  match sources.overrides.lookup field.name with
  | some entry => some entry
  | none =>
    match reader.lastOf field.variableName sources.vars with
    | some text => some (.text text)
    | none =>
      let table := reader.tableOf sources.vars (reader.assignments sources.file)
      (reader.lastOf field.variableName table).join.map .text

/-- The nesting that an entry gives, from one to the limit. -/
def toDepth (entry : Entry) : Except Problem Int := do
  let n ← reader.toInt entry
  if n < 1 then .error .tooSmall
  else if Settings.depthLimit < n then .error .tooLarge
  else .ok n

/-- The checked value of a field, or its default. -/
def fieldValue {α : Type} (sources : Sources) (field : Field) (check : Entry → Except Problem α)
    (fallback : α) : Except Problem α :=
  match reader.winner sources field with
  | some entry => check entry
  | none => .ok fallback

/-- The problem of a field in a list, if it has one. -/
def problemOf {α : Type} (field : Field) : Except Problem α → List (Field × Problem)
  | .ok _ => []
  | .error problem => [(field, problem)]

/-- Loads the settings, or lists the problems in the order of the fields. -/
def load (sources : Sources) : Except (List (Field × Problem)) Settings :=
  let defaults : Settings := {}
  match reader.fieldValue sources .maxDepth reader.toDepth defaults.maxDepth,
    reader.fieldValue sources .trace reader.toBool defaults.trace,
    reader.fieldValue sources .captureFunctionEnv reader.toBool defaults.captureFunctionEnv with
  | .ok maxDepth, .ok trace, .ok captureFunctionEnv => .ok ⟨maxDepth, trace, captureFunctionEnv⟩
  | maxDepth, trace, captureFunctionEnv =>
    .error (problemOf .maxDepth maxDepth ++ problemOf .trace trace
      ++ problemOf .captureFunctionEnv captureFunctionEnv)

end SettingsReader

end MiniMl
