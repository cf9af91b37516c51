import ProtoScript.CommandLine
import ProtoScript.Console
import ProtoScript.Diagnostic
import ProtoScript.Directory
import ProtoScript.Environment
import ProtoScript.Evaluation
import ProtoScript.Event
import ProtoScript.Fault
import ProtoScript.Files
import ProtoScript.FiniteMap
import ProtoScript.Golden
import ProtoScript.Heap
import ProtoScript.Json
import ProtoScript.Json.Read
import ProtoScript.Json.Write
import ProtoScript.Machine
import ProtoScript.Main
import ProtoScript.Operation
import ProtoScript.Position
import ProtoScript.RoutineTable
import ProtoScript.Run
import ProtoScript.Script
import ProtoScript.Store
import ProtoScript.Store.Copy
import ProtoScript.Store.Inspect
import ProtoScript.Store.Prototype
import ProtoScript.Text.Blank
import ProtoScript.Text.Decimal
import ProtoScript.Text.Lines
import ProtoScript.Text.Quoted
import ProtoScript.Text.Shapeless
import ProtoScript.Text.Style
import ProtoScript.Token
import ProtoScript.Token.Scan
import ProtoScript.Tree
import ProtoScript.Tree.Decoding
import ProtoScript.Tree.Encoding
import ProtoScript.Tree.Equality
import ProtoScript.Tree.OfTokens
import ProtoScript.Tree.Operator
import ProtoScript.Tree.Outline
import ProtoScript.Value
import ProtoScript.Proofs.ActivationFrame
import ProtoScript.Proofs.Balance
import ProtoScript.Proofs.Cells
import ProtoScript.Proofs.Contract
import ProtoScript.Proofs.Copying
import ProtoScript.Proofs.Effects
import ProtoScript.Proofs.Isolation
import ProtoScript.Proofs.Moment
import ProtoScript.Proofs.Ownership
import ProtoScript.Proofs.Replay
import ProtoScript.Proofs.RoundTrip
import ProtoScript.Proofs.SnapshotOwnership
import ProtoScript.Proofs.StackDiscipline
import ProtoScript.Proofs.Steps
import ProtoScript.Proofs.Upkeep
import ProtoScript.Proofs.Ancestry
import ProtoScript.Proofs.CopyTermination
import ProtoScript.Proofs.Grammar
import ProtoScript.Proofs.Unambiguity
import ProtoScript.Proofs.Completeness
import ProtoScript.Proofs.Soundness
import ProtoScript.Proofs.Mirror
import ProtoScript.Proofs.Recognition
import ProtoScript.Proofs.Lockstep
import ProtoScript.Proofs.Simulation
import ProtoScript.Proofs.LexicalScope
import ProtoScript.Proofs.TokenPlaces
import ProtoScript.Proofs.EveryStep
import ProtoScript.Proofs.Keeping
import ProtoScript.Proofs.CallStack
import ProtoScript.Proofs.Creation
import ProtoScript.Proofs.Shape
import ProtoScript.Proofs.Lineage
import ProtoScript.Proofs.ClosureIdentity
import ProtoScript.Proofs.Past
import ProtoScript.Proofs.Shift
import ProtoScript.Proofs.Equivariance
import ProtoScript.Proofs.History
import ProtoScript.Proofs.WrittenTokens
import ProtoScript.Proofs.JsonText
import ProtoScript.Proofs.TreeJson
import ProtoScript.Proofs.Assignment
import ProtoScript.Proofs.Duplicate
import ProtoScript.Proofs.SnapshotIsolation
import ProtoScript.Proofs.OperatorRules
import ProtoScript.Proofs.FieldWrites
import ProtoScript.Proofs.Definitions
import ProtoScript.Proofs.OrderOfDefinitions
import ProtoScript.Proofs.Lookahead
import ProtoScript.Proofs.LineBreaks
import ProtoScript.Proofs.GoldenRuns
import ProtoScript.Proofs.GoldenVerdict
import ProtoScript.Proofs.Unwinding
import ProtoScript.Proofs.Dialogue
import ProtoScript.Proofs.IntegerLines
import ProtoScript.Proofs.InputLines
import ProtoScript.Proofs.InputPaths
