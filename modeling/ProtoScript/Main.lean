import ProtoScript.CommandLine
/-!
# The program

The commands on the files of the machine.  A run starts without input and is
repeated with further lines while it stops for want of one; since nothing but
its output leaves a run, only the lines not yet shown are printed.  A check
writes each record as soon as its script has run, and measures how long that
takes.
-/

namespace ProtoScript
namespace Main

/-- A bound on the work of a run that no run reaches. -/
def fuel : Nat := 0x1000000000000000

/-- Whether an environment variable is set, and to something else than `0`. -/
def setting (name : String) : IO (Option Bool) := do
  return (← IO.getEnv name).map (· != "0")

/-- Whether colours are on: forced, or not refused and the output is a terminal. -/
def colour : IO Bool := do
  if (← setting "CLICOLOR_FORCE") = some true then return true
  if (← setting "NO_COLOR").isSome then return false
  return (← setting "CLICOLOR").getD true && (← (← IO.getStdout).isTty)

/-- The message of a failure to read. -/
def readMessage : IO.Error → String
  | .noFileOrDirectory .. => FileProblem.missing.message
  | .inappropriateType _ 21 _ => FileProblem.isAFolder.message
  | .inappropriateType .. => FileProblem.notAFolder.message
  | .permissionDenied .. => "Permission denied (os error 13)"
  | .userError _ => "stream did not contain valid UTF-8"
  | e => toString e

/-- A text followed by what is left of a stream. -/
partial def readRest (input : IO.FS.Stream) (text : String) : IO String := do
  let line ← input.getLine
  if line.isEmpty then return text else readRest input (text ++ line)

/-- The next lines of the input: one if it comes from a terminal, all that are left otherwise. -/
def moreLines : IO (List String) := do
  let input ← IO.getStdin
  if ← input.isTty then return Text.typedLines (← input.getLine)
  else return Text.typedLines (← readRest input "")

/-- Runs a program with the input as far as it is known.  The first `shown` lines of the output
have been printed already. -/
partial def converse (file : String) (colour : Bool) (p : Program) (input : List String)
    (shown : Nat) : IO Report := do
  let result := Machine.run fuel p (.initial { pending := input })
  let printed := match result with
    | .ok _ m | .error _ m => m.console.lines
  IO.print (Report.ended (printed.drop shown))
  (← IO.getStdout).flush
  let more ← match result with
    | .error (.failed ⟨.endOfInput _, _⟩) _ => moreLines
    | _ => pure []
  if more.isEmpty then return { Report.ofRun file colour result with stdout := "" }
  else converse file colour p (input ++ more) printed.length

/-- What stands at a path, if anything does. -/
def readNode? (path : String) : IO (Option Node) := do
  try return some (.file (← IO.FS.readFile path))
  catch
    | .noFileOrDirectory .. => return none
    | .inappropriateType .. => return some .folder
    | e => throw e

/-- The scripts in a folder, and what belongs to them. -/
def readFolder (folder : String) : IO Directory := do
  let mut directory : Directory := ∅
  for entry in ← (System.mkFilePath [folder]).readDir do
    if let some name := Golden.stem? entry.fileName then
      let case : Golden.Case := ⟨name⟩
      for file in [case.script, case.expected, case.input] do
        if let some node ← readNode? (folder ++ "/" ++ file) then
          directory := directory.insert file node
  return directory

/-- Checks cases in turn, with the duration of each, and writes their records. -/
def checkAll (folder : String) (update : Bool) :
    List Golden.Case → Directory → IO (Except FileProblem (List (Golden.Result × Nat)))
  | [], _ => return .ok []
  | case :: rest, directory => do
      let start ← IO.monoMsNow
      match Golden.check fuel update directory case with
      | .error problem => return .error problem
      | .ok (result, after) =>
          if let .ok (some record) := after.find? case.expected then
            if update || after.node? case.expected != directory.node? case.expected then
              IO.FS.writeFile (folder ++ "/" ++ case.expected) record
          let duration := (← IO.monoMsNow) - start
          return (← checkAll folder update rest after).map ((result, duration) :: ·)

/-- Executes a command. -/
def execute (colour : Bool) : Command → IO Report
  | .run file tree => do
      try
        let text ← IO.FS.readFile file
        match Program.ofFile Refusal.plain text tree with
        | .error d => return .diagnosed "" file colour d
        | .ok p => converse file colour p [] 0
      catch e => return .unreadable file (readMessage e)
  | .parse file => do
      try return Command.parseText file (← IO.FS.readFile file) colour
      catch e => return .unreadable file (readMessage e)
  | .test folder update verbose => do
      try
        let start ← IO.monoMsNow
        let directory ← readFolder folder
        match ← checkAll folder update (Golden.cases directory) directory with
        | .error problem => return .uncheckable folder problem.message
        | .ok results => return .ofCheck colour verbose results ((← IO.monoMsNow) - start)
      catch e => return .uncheckable folder (readMessage e)

end Main
end ProtoScript

/-- Executes the command that the arguments denote. -/
def main (args : List String) : IO UInt32 := do
  match ProtoScript.Command.ofArguments? args with
  | none =>
      IO.eprint ProtoScript.Command.usage
      return 2
  | some command =>
      let report ← ProtoScript.Main.execute (← ProtoScript.Main.colour) command
      IO.print report.stdout
      IO.eprint report.stderr
      return report.code.toUInt32
