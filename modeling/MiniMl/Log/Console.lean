import MiniMl.Eval.Event
import MiniMl.Log.Filter
/-!
# The console

Messages are written by sinks. A console starts without any; a call that puts a profile in force
installs one, forwards the records of the host program to it, and lets the package speak. A call
that fails has removed the sink that was there. A sink is refused if it names a level that is not
known. The levels that are known and the letter case of their names are parameters (`LogSystem`).
-/

namespace MiniMl

/-- A form of lines. -/
inductive Profile where
  | default
  | compact
  deriving DecidableEq, Repr

namespace Profile

def name : Profile → String
  | .default => "default"
  | .compact => "compact"

def ofName? (name : String) : Option Profile :=
  [Profile.default, Profile.compact].find? fun profile => profile.name == name

theorem ofName?_name (profile : Profile) : ofName? profile.name = some profile := by
  cases profile <;> decide

end Profile

/-- What logging rests on. -/
structure LogSystem where
  letters : LetterCase
  /-- The levels that are known by name. -/
  levels : List Level

/-- The system as long as no level is added, for texts in ASCII. -/
def LogSystem.standard : LogSystem where
  letters := .ascii
  levels := Level.standard

/-- A message on its way to the sinks. -/
structure Record where
  label : String
  number : Int
  moduleName : String
  message : String
  deriving DecidableEq, Repr

/-- A place where messages are written. -/
structure Sink where
  profile : Profile
  threshold : Level
  modules : List (String × Option Level)
  deriving DecidableEq, Repr

/-- The state of logging. -/
structure Console where
  sinks : List Sink := []
  inForce : Option Profile := none
  /-- How many handlers forward the records of the host program. -/
  intercepts : Nat := 0
  /-- Whether the messages of this package are let through. -/
  enabled : Bool := false
  deriving DecidableEq, Repr

/-- Why a profile cannot be put in force. -/
inductive ConsoleError where
  | unknownProfile (name : String)
  | unknownModuleLevel (moduleName level : String)
  | unknownLevel (level : String)
  deriving DecidableEq, Repr

/-- The reason in words. An unknown profile is named and nothing else. -/
def ConsoleError.message : ConsoleError → String
  | .unknownProfile name => name
  | .unknownModuleLevel moduleName level =>
    "The filter dict contains a module '" ++ moduleName
      ++ "' associated to a level name which does not exist: '" ++ level ++ "'"
  | .unknownLevel level => "Level '" ++ level ++ "' does not exist"

namespace Filter

variable (system : LogSystem)

/-- The levels of the modules by name, up to the first name that is none. -/
def moduleLevels :
    List (String × Option String) → Except ConsoleError (List (String × Option Level))
  | [] => .ok []
  | (name, none) :: rest => do
    let levels ← moduleLevels rest
    .ok ((name, none) :: levels)
  | (name, some levelName) :: rest =>
    match Level.ofName? system.levels levelName with
    | none => .error (.unknownModuleLevel name levelName)
    | some level => do
      let levels ← moduleLevels rest
      .ok ((name, some level) :: levels)

/-- The level for everything. -/
def threshold (filter : Filter) : Except ConsoleError Level :=
  let name := system.letters.upperText filter.level
  (Level.ofName? system.levels name).elim (.error (.unknownLevel name)) .ok

end Filter

namespace Sink

/-- The sink of a profile and a filter. -/
def make (system : LogSystem) (profile : Profile) (filter : Filter) :
    Except ConsoleError Sink := do
  let modules ← Filter.moduleLevels system filter.modules
  let threshold ← filter.threshold system
  .ok ⟨profile, threshold, modules⟩

/-- A module and the modules around it, ending in the one without a name. -/
def scopes (moduleName : String) : List String :=
  let parts := (Text.split '.' moduleName.toList).map String.ofList
  (List.range (parts.length + 1)).reverse.map fun n => ".".intercalate (parts.take n)

/-- The innermost scope that has an entry decides about a record. -/
def passes (sink : Sink) (record : Record) : Bool :=
  match (scopes record.moduleName).findSome? fun scope => sink.modules.lookup scope with
  | none => true
  | some none => false
  | some (some level) => level.number ≤ record.number

/-- The sink writes the record. -/
def admits (sink : Sink) (record : Record) : Bool :=
  sink.threshold.number ≤ record.number && sink.passes record

def render (sink : Sink) (record : Record) : String :=
  match sink.profile with
  | .compact => record.label ++ " | " ++ record.message
  | .default =>
    let padding := String.ofList (List.replicate (6 - record.label.length) ' ')
    record.label ++ padding ++ " | " ++ record.moduleName ++ " | " ++ record.message

end Sink

namespace Console

/-- The lines of a text that is written with a line feed at its end. Nothing but a line feed ends a
line. -/
def lines (text : String) : List String :=
  (Text.split '\n' text.toList).map String.ofList

/-- Puts a profile in force. Nothing happens if it is the one in force. Otherwise the sinks are
removed first, whatever comes of it. -/
def configure (console : Console) (system : LogSystem) (profileName : String) (filter : Filter) :
    Console × Except ConsoleError Unit :=
  let profile? := Profile.ofName? profileName
  if profile?.isSome && profile? == console.inForce then
    (console, .ok ())
  else
    let cleared := { console with sinks := [] }
    match profile? with
    | none => (cleared, .error (.unknownProfile profileName))
    | some profile =>
      match Sink.make system profile filter with
      | .error e => (cleared, .error e)
      | .ok sink =>
        ({ sinks := [sink]
           inForce := some profile
           intercepts := max 1 console.intercepts
           enabled := true }, .ok ())

/-- The lines that the sinks write for a record. -/
def write (console : Console) (record : Record) : List String :=
  (console.sinks.filter (·.admits record)).flatMap fun sink => lines (sink.render record)

/-- The module under which the evaluator logs. -/
def evaluatorModule : String := "mlinterp.eval.machine"

/-- The lines for a message of the evaluator. -/
def writeEvent (console : Console) (event : Event) : List String :=
  if console.enabled then
    console.write ⟨event.level.name, event.level.number, evaluatorModule, event.message⟩
  else
    []

/-- The name under which a level number is shown. -/
def levelLabel (system : LogSystem) (number : Int) : String :=
  match system.levels.find? fun level => level.number == number with
  | some level => level.name
  | none => "Level " ++ toString number

/-- The lines for a record of the host program, which has to be a warning at least. Each handler
forwards it under the module of the caller; without one the bare message is written. -/
def writeHost (console : Console) (system : LogSystem) (caller : String) (number : Int)
    (message : String) : List String :=
  if number < Level.warning.number then
    []
  else if console.intercepts = 0 then
    lines message
  else
    let record : Record := ⟨levelLabel system number, number, caller, message⟩
    (List.replicate console.intercepts record).flatMap console.write

end Console

end MiniMl
