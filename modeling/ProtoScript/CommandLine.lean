import ProtoScript.Files
import ProtoScript.Golden
import ProtoScript.Tree.Decoding
import ProtoScript.Tree.Encoding
/-!
# The command line

Three commands: `run` runs a program, given as a text or as the JSON form of its
tree; `parse` prints the JSON form of a program; `test` checks the scripts of a
folder.  What a command does is a function of the files, the standard input and
whether colours are on; the outcome is an exit code, two texts and the files
afterwards.

These are the `Commands` of the interpreter's command line (section B7 of its
specification), with its functions `read_file`, `load_program` and `report`.
-/

namespace ProtoScript

/-- A command with its options. -/
inductive Command where
  /-- Runs the program in a file; `tree` if the file holds the JSON form of the tree. -/
  | run (file : String) (tree : Bool)
  /-- Prints the JSON form of the program in a file. -/
  | parse (file : String)
  /-- Checks the scripts in a folder. -/
  | test (folder : String) (update verbose : Bool)
deriving DecidableEq, Repr

namespace Command

/-- The folder that is checked if none is named. -/
def defaultFolder : String := "tests/scripts"

/-- Splits arguments into options and values; after `--` there are values only. -/
def split : List String → List String × List String
  | [] => ([], [])
  | "--" :: l => ([], l)
  | a :: l =>
      let (options, values) := split l
      if a.toList.head? = some '-' ∧ a ≠ "-" then (a :: options, values)
      else (options, a :: values)

/-- The command that arguments denote; an option may stand anywhere after the name of the command,
and only once. -/
def ofArguments? : List String → Option Command
  | "run" :: l =>
      match split l with
      | ([], [file]) => some (.run file false)
      | (["--ast"], [file]) => some (.run file true)
      | _ => none
  | "parse" :: l =>
      match split l with
      | ([], [file]) => some (.parse file)
      | _ => none
  | "test" :: l =>
      let (options, values) := split l
      let update := options.count "--update"
      let verbose := options.count "--verbose" + options.count "-v"
      let known := options.all fun o => o == "--update" || o == "--verbose" || o == "-v"
      if known = true ∧ update ≤ 1 ∧ verbose ≤ 1 then
        match values with
        | [] => some (.test defaultFolder (update == 1) (verbose == 1))
        | [folder] => some (.test folder (update == 1) (verbose == 1))
        | _ => none
      else none
  | _ => none

/-- What is printed for arguments that are no command. -/
def usage : String :=
  "usage: run FILE [--ast] | parse FILE | test [DIR] [--update] [-v|--verbose]\n"

end Command

/-- What a command leaves behind besides files. -/
structure Report where
  /-- The exit code. -/
  code : Nat
  /-- What is printed. -/
  stdout : String
  /-- What is printed about failures. -/
  stderr : String
deriving DecidableEq, Repr

namespace Report

/-- Lines, each ended. -/
def ended (lines : List String) : String := String.join (lines.map (· ++ "\n"))

/-- Only output. -/
def success (stdout : String) : Report := ⟨0, stdout, ""⟩

/-- Output followed by a failure. -/
def failure (stdout stderr : String) : Report := ⟨1, stdout, stderr⟩

/-- Output followed by a diagnostic for a file and an empty line (`report`). -/
def diagnosed (stdout : String) (file : String) (colour : Bool) (d : Diagnostic) : Report :=
  failure stdout ((d.inFile file).render colour ++ "\n")

/-- A file that cannot be read (`read_file`). -/
def unreadable (file : String) (problem : String) : Report :=
  failure "" ("Failed to read " ++ file ++ ": " ++ problem ++ "\n")

/-- A folder that cannot be checked. -/
def uncheckable (folder : String) (problem : String) : Report :=
  failure "" ("Failed to run tests in " ++ folder ++ ": " ++ problem ++ "\n")

/-- How a run ends: what it printed, and its diagnostic if it fails. -/
def ofRun (file : String) (colour : Bool) : EStateM.Result Halt Machine Value → Report
  | .ok _ m => success (ended m.console.lines)
  | .error (.failed f) m => diagnosed (ended m.console.lines) file colour f.diagnostic
  | .error .unfinished m => failure (ended m.console.lines) ""

/-- What is printed for a case, with its duration. -/
def caseLines (colour verbose : Bool) (r : Golden.Result) (milliseconds : Nat) : List String :=
  match r.message with
  | none =>
      if verbose then
        ["  " ++ Style.boldGreen.paint colour "✓" ++ " " ++ Style.green.paint colour r.name
          ++ s!" ({milliseconds}ms)"]
      else []
  | some message =>
      ["  " ++ Style.boldRed.paint colour "✗" ++ " " ++ Style.red.paint colour r.name
          ++ s!" ({milliseconds}ms)",
        Style.dimmed.paint colour message]

/-- The report of a check: the cases with their durations, the counts and the whole duration
(`TestReport::print`). -/
def ofCheck (colour verbose : Bool) (results : List (Golden.Result × Nat))
    (milliseconds : Nat) : Report :=
  let verdicts := results.map Prod.fst
  let passed := Style.boldGreen.paint colour (toString (Golden.passed verdicts))
  let failed := Style.boldRed.paint colour (toString (Golden.failed verdicts))
  { code := Golden.exitCode verdicts
    stdout := ended (results.flatMap (fun r => caseLines colour verbose r.1 r.2)
      ++ [s!"Tests: {verdicts.length} total, {passed} passed, {failed} failed",
        s!"Time:  {milliseconds}ms"])
    stderr := "" }

end Report

/-- What a reader of JSON says of a text that is no JSON form of a program. -/
structure Refusal where
  /-- Why it is none. -/
  reason : String
  /-- Where this was seen. -/
  position : Position
deriving DecidableEq, Repr

namespace Refusal

/-- The diagnostic. -/
def diagnostic (r : Refusal) : Diagnostic where
  kind := .parse
  message := "Invalid AST JSON: " ++ r.reason
  position := r.position

/-- What is said without looking for the reason. -/
def plain (_ : String) : Refusal := ⟨"not the tree of a program", .unknown⟩

end Refusal

namespace Program

/-- The program that a file holds, as a text or as the JSON form of its tree (`load_program`).  What
is said of a text that is no JSON form is up to the reader of JSON. -/
def ofFile (refusal : String → Refusal) (text : String) (tree : Bool) :
    Except Diagnostic Program :=
  if tree then
    match ofJsonText? text with
    | some p => .ok p
    | none => .error (refusal text).diagnostic
  else ofText text

end Program

namespace Command

/-- Runs a program that is given as a text or as the JSON form of its tree. -/
def runText (refusal : String → Refusal) (fuel : Nat) (file : String) (tree : Bool) (text : String)
    (input : List String) (colour : Bool) : Report :=
  match Program.ofFile refusal text tree with
  | .error d => .diagnosed "" file colour d
  | .ok p => .ofRun file colour (Machine.run fuel p (.initial { pending := input }))

/-- Prints the JSON form of a program. -/
def parseText (file : String) (text : String) (colour : Bool) : Report :=
  match Program.ofText text with
  | .error d => .diagnosed "" file colour d
  | .ok p => .success (p.toJson.writeIndented ++ "\n")

/-- Executes a command on files, with a reader of JSON that speaks as given; every duration is taken
to be zero. -/
def executeWith (refusal : String → Refusal) (fuel : Nat) (files : Files) (stdin : String)
    (colour : Bool) (command : Command) : Report × Files :=
  match command with
  | .run file tree =>
      match files.read file with
      | .error problem => (.unreadable file problem.message, files)
      | .ok text => (runText refusal fuel file tree text (Text.typedLines stdin) colour, files)
  | .parse file =>
      match files.read file with
      | .error problem => (.unreadable file problem.message, files)
      | .ok text => (parseText file text colour, files)
  | .test folder update verbose =>
      match files.directory folder with
      | .error problem => (.uncheckable folder problem.message, files)
      | .ok (path, directory) =>
          let (results, after) := Golden.run fuel update directory
          let report := match results with
            | .ok results => Report.ofCheck colour verbose (results.map fun r => (r, 0)) 0
            | .error problem => .uncheckable folder problem.message
          (report, files.writeAll path after)

/-- Executes a command on files. -/
def execute : Nat → Files → String → Bool → Command → Report × Files := executeWith Refusal.plain

end Command
end ProtoScript
