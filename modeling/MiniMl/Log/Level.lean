/-!
# Levels of log messages

A level has a name and the number by which it is compared. Messages are written at some levels. The
names that can be used for a threshold depend on the levels that are known, which are a parameter.
-/

namespace MiniMl

structure Level where
  name : String
  /-- The number by which levels are compared. -/
  number : Int
  deriving DecidableEq, Repr

namespace Level

def debug : Level := ⟨"DEBUG", 10⟩
def info : Level := ⟨"INFO", 20⟩
def warning : Level := ⟨"WARNING", 30⟩

@[simp] theorem info_ne_debug : info ≠ debug := by decide

@[simp] theorem warning_ne_debug : warning ≠ debug := by decide

/-- The levels that are known as long as none is added. -/
def standard : List Level :=
  [⟨"TRACE", 5⟩, debug, info, ⟨"SUCCESS", 25⟩, warning, ⟨"ERROR", 40⟩, ⟨"CRITICAL", 50⟩]

/-- The level of a name among those that are known. -/
def ofName? (known : List Level) (name : String) : Option Level :=
  known.find? fun level => level.name == name

end Level

end MiniMl
