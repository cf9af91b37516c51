import ProtoScript.Directory
import ProtoScript.Run
import ProtoScript.Text.Blank
import ProtoScript.Text.Lines
/-!
# Golden cases

A script of a directory is checked by running it and comparing its transcript
with a recorded one.  The script `name.br` reads the lines of `name.in`, or
none, and its transcript is recorded in `name.out`.  Where nothing is recorded,
or when the records are to be renewed, the transcript is written and the case
passes; otherwise it passes if both texts are equal up to blanks at their end.

Only records are written, so a directory changes in the files `name.out` of its
scripts and in no other.  A folder in the place of one of these files ends the
check; what was recorded before stays.

These are `TestCase`, `TestRunner` and `TestReport` of the interpreter's test tools
(section B9 of the specification).
-/

namespace ProtoScript
namespace Golden

/-- What the name of a script ends with (`SCRIPT_EXTENSION`). -/
def scriptSuffix : List Char := ['.', 'b', 'r']

/-- The name of a script without its suffix, if a name is one of a script: something stands before
the suffix. -/
def stem? (file : String) : Option String :=
  let l := file.toList
  if scriptSuffix.length < l.length ∧ scriptSuffix <:+ l then
    some (String.ofList (l.take (l.length - scriptSuffix.length)))
  else none

/-- A script with the files that belong to it. -/
structure Case where
  /-- The name of the script without its suffix. -/
  name : String
deriving DecidableEq, Repr

namespace Case

/-- The file that holds the script. -/
def script (c : Case) : String := c.name ++ ".br"

/-- The file with the given suffix that belongs to the script.  Nothing belongs to `..br`: what is
left of its name without the suffix is `..`, which takes no other. -/
def companion (c : Case) (suffix : String) : String :=
  if c.name = "." then Directory.around else c.name ++ suffix

/-- The file that holds the recorded transcript (`expected_path`). -/
def expected (c : Case) : String := c.companion ".out"

/-- The file that holds the input (`input_path`). -/
def input (c : Case) : String := c.companion ".in"

end Case

/-- The cases of a directory, in the order of the names of their scripts (`collect`). -/
def cases (d : Directory) : List Case :=
  (d.keys.mergeSort fun a b => decide (a ≤ b)).filterMap fun file => (stem? file).map Case.mk

/-- The verdict on a case. -/
structure Result where
  /-- The name of the case. -/
  name : String
  /-- How the transcripts differ, if they do. -/
  message : Option String
deriving DecidableEq, Repr

namespace Result

/-- Whether the case passed. -/
def passed (r : Result) : Bool := r.message.isNone

end Result

/-- The text without the blanks at its end. -/
def settled (text : String) : String := String.ofList (Text.trimEnd text.toList)

/-- How two transcripts differ, if they do. -/
def difference (expected actual : String) : Option String :=
  if settled actual = settled expected then none
  else some ("Expected:\n" ++ settled expected ++ "\nGot:\n" ++ settled actual)

/-- The transcript of the script of a case, on the input that belongs to it. -/
def actual (fuel : Nat) (d : Directory) (c : Case) : Except FileProblem String := do
  let source ← d.read c.script
  let input ← d.find? c.input
  return transcript fuel source ((input.map Text.recordedLines).getD [])

/-- What is to be compared with the transcript of a case, unless it is to be recorded. -/
def recorded? (update : Bool) (d : Directory) (c : Case) : Except FileProblem (Option String) :=
  if update then .ok none else d.find? c.expected

/-- Checks a case: the verdict, and the directory afterwards (`run_case`). -/
def check (fuel : Nat) (update : Bool) (d : Directory) (c : Case) :
    Except FileProblem (Result × Directory) := do
  let text ← actual fuel d c
  match ← recorded? update d c with
  | some expected => return (⟨c.name, difference expected text⟩, d)
  | none => return (⟨c.name, none⟩, ← d.write c.expected (text ++ "\n"))

/-- Checks cases in turn, up to the first that cannot be checked: the verdicts if there is none, and
the directory afterwards (the loop of `run_dir`). -/
def checkAll (fuel : Nat) (update : Bool) :
    List Case → Directory → Except FileProblem (List Result) × Directory
  | [], d => (.ok [], d)
  | c :: l, d =>
      match check fuel update d c with
      | .error problem => (.error problem, d)
      | .ok (result, d) =>
          let (results, d) := checkAll fuel update l d
          (results.map (result :: ·), d)

/-- Checks all cases of a directory (`run_dir`). -/
def run (fuel : Nat) (update : Bool) (d : Directory) :
    Except FileProblem (List Result) × Directory :=
  checkAll fuel update (cases d) d

/-- The number of cases that passed. -/
def passed (results : List Result) : Nat := results.countP Result.passed

/-- The number of cases that failed. -/
def failed (results : List Result) : Nat := results.countP fun r => !r.passed

/-- The exit code of a check: 0 if no case failed (`exit_code`). -/
def exitCode (results : List Result) : Nat := if failed results = 0 then 0 else 1

end Golden
end ProtoScript
