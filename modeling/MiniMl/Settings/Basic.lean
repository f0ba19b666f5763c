/-!
# Settings of the evaluator

A limit on the nesting of evaluations takes room for the calls that they make. The evaluator asks
its host for this room, but for no more than the greatest limit that can be set would take: a higher
limit, which only a program can make up, does not go with more room.
-/

namespace MiniMl

/-- What a user can set. -/
structure Settings where
  /-- How many evaluations may be nested. -/
  maxDepth : Int := 5000
  /-- Whether matches and calls are logged. -/
  trace : Bool := false
  /-- Whether a function by rules keeps the environment in which it is made. -/
  captureFunctionEnv : Bool := true
  deriving DecidableEq, Repr

/-- The nesting that the settings allow. A limit below one allows none. -/
def Settings.budget (settings : Settings) : Nat :=
  settings.maxDepth.toNat

/-- The greatest nesting that can be set. -/
def Settings.depthLimit : Int := 100000

/-- How many calls there are at most from one evaluation to the next one in it. -/
def Settings.framesPerLevel : Int := 5

/-- Room for other calls. -/
def Settings.stackMargin : Int := 200

/-- How many calls an evaluation may nest. -/
def Settings.stackNeeded (settings : Settings) : Int :=
  min (settings.maxDepth * framesPerLevel + stackMargin) (depthLimit * framesPerLevel + stackMargin)

end MiniMl
