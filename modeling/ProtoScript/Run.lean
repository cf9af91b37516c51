import ProtoScript.Evaluation
import ProtoScript.Tree.OfTokens
/-!
# Runs

To run a program is to load its routines and execute the body of `main`.  A
program with two routines of one name and arity is not loaded and leaves the
machine as it was.  Loading starts from an empty store and a new environment, so
nothing of an earlier program is left but the console and the number of closures
created, which goes on.

This is `Interpreter::run`; `Program.transcript` adds the line that `transcript` of
the test runner writes for a failure.
-/

namespace ProtoScript
namespace Machine

/-- The name of the routine that a program starts with (`MAIN_FUNCTION`). -/
def mainName : String := "main"

/-- The machine with a program loaded and nothing executed (the first part of `run`). -/
def load (m : Machine) (routines : RoutineTable) : Machine :=
  { initial m.console with routines, closures := m.closures, events := [.loaded routines.size] }

/-- The machine in the activation of `main`, in the scope in which it is. -/
def enterMain (m : Machine) : Machine := { m with frames := ⟨mainName, 0⟩ :: m.frames }

/-- Executes the body of `main`.  Its activation is left at its end, but not where it fails. -/
def start (fuel : Nat) (main : Routine) : Eval Value := fun m =>
  match perform fuel (.executeAll main.body) m.enterMain with
  | .ok status m => .ok status.value { m with frames := m.frames.tail }
  | .error h m => .error (h.attach m.frames.reverse) m

/-- Runs a program. -/
def run (fuel : Nat) (p : Program) : Eval Value := fun m =>
  match RoutineTable.ofProgram p with
  | .error fault => .error (.failed ⟨fault, []⟩) { m with events := [] }
  | .ok routines =>
      match routines.lookup? mainName 0 with
      | none => .error (.failed ⟨.noMain, []⟩) (m.load routines)
      | some main => start fuel main (m.load routines)

/-- What the program reported, in order. -/
def trace (m : Machine) : List Event := m.events.reverse

end Machine

namespace Halt

/-- The last line of the transcript of a run that halts. -/
def line : Halt → String
  | failed failure => "error: " ++ failure.fault.kind.word
  | unfinished => "error: Unfinished"

end Halt

namespace Program

/-- What a program prints on the given input, and why it halts if it does. -/
def transcript (fuel : Nat) (p : Program) (input : List String) : List String :=
  match Machine.run fuel p (.initial { pending := input }) with
  | .ok _ m => m.console.lines
  | .error h m => m.console.lines ++ [h.line]

end Program

/-- The transcript of the program that a text denotes: what it prints on the given input, and in a
last line the kind of its failure if it fails. -/
def transcript (fuel : Nat) (source : String) (input : List String) : String :=
  "\n".intercalate
    (match Program.ofText source with
    | .ok p => p.transcript fuel input
    | .error d => ["error: " ++ d.kind.word])

end ProtoScript
