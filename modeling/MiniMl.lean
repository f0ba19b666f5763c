import MiniMl.Eval.Evaluator
import MiniMl.Eval.Host
import MiniMl.Log.Console
import MiniMl.Node
import MiniMl.Settings.Standard
import MiniMl.Proofs.Alternatives
import MiniMl.Proofs.BoundNames
import MiniMl.Proofs.Console
import MiniMl.Proofs.Counter
import MiniMl.Proofs.Depth
import MiniMl.Proofs.Lookup
import MiniMl.Proofs.NestedLets
import MiniMl.Proofs.Tracing
import MiniMl.Proofs.Semantics.Rules
import MiniMl.Proofs.Semantics.Agreement
import MiniMl.Proofs.Safety.Discipline
import MiniMl.Proofs.Safety.WellFormed
import MiniMl.Proofs.FreeNames
import MiniMl.Proofs.Safety.Scope
import MiniMl.Proofs.Safety.Calls
import MiniMl.Proofs.Safety.Everywhere
import MiniMl.Proofs.Safety.Lexical
import MiniMl.Proofs.Safety.CaptureSwitch
import MiniMl.Proofs.Safety.Exhaustive
import MiniMl.Proofs.Simulation.Lockstep
import MiniMl.Proofs.Simulation.Unused
import MiniMl.Proofs.Simulation.CodeMap
import MiniMl.Proofs.Simulation.Erasure
import MiniMl.Proofs.Simulation.Desugar
import MiniMl.Proofs.LetBindings
import MiniMl.Proofs.TupleMatch
import MiniMl.Proofs.RecursiveLets
import MiniMl.Proofs.Literals
import MiniMl.Proofs.Height
import MiniMl.Proofs.Countdown
import MiniMl.Proofs.Tables
import MiniMl.Proofs.Extensions
import MiniMl.Proofs.OperatorTable
import MiniMl.Proofs.FilterText
import MiniMl.Proofs.SettingsFile
import MiniMl.Proofs.PlainFiles
import MiniMl.Proofs.Precedence
import MiniMl.Proofs.Division
import MiniMl.Proofs.Readability
import MiniMl.Proofs.Equality.Number
import MiniMl.Proofs.Equality.Structural
import MiniMl.Proofs.Equality.Tree
