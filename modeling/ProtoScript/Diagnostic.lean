import ProtoScript.Position
import ProtoScript.Text.Style
/-!
# Diagnostics

What a reader is told when a program cannot be read or fails while it runs: the
kind of the failure, a message, where it is, which activations were running,
and sometimes advice.  `render` lays a diagnostic out in lines; the innermost
activation is listed first.

This is `BrewinError` with its `ErrorKind` and its displayed form (section B5 of the
specification).
-/

namespace ProtoScript

/-- The kinds of failure. -/
inductive FailureKind where
  /-- The text is not a program. -/
  | parse
  /-- A name stands for nothing, or for too much. -/
  | name
  /-- A value is of the wrong type for its use. -/
  | type
  /-- A fault in the course of the run. -/
  | fault
deriving DecidableEq, Repr

namespace FailureKind

/-- The kind as the heading of a diagnostic. -/
def title : FailureKind → String
  | .parse => "Parse Error"
  | .name => "Name Error"
  | .type => "Type Error"
  | .fault => "Fault Error"

/-- The kind as one word, as transcripts record it. -/
def word : FailureKind → String
  | .parse => "ParseError"
  | .name => "NameError"
  | .type => "TypeError"
  | .fault => "FaultError"

end FailureKind

/-- A failure as it is reported. -/
structure Diagnostic where
  /-- The kind of failure. -/
  kind : FailureKind
  /-- What went wrong. -/
  message : String
  /-- Where in the text it is, if that is known. -/
  position : Position := .unknown
  /-- The file that holds the text, if it is known. -/
  file : Option String := none
  /-- The activations that were running, the outermost first. -/
  frames : List String := []
  /-- What to do about it. -/
  help : Option String := none
deriving DecidableEq, Repr

namespace Diagnostic

/-- The written form of the place, after the name of the file if it is known. -/
def place (d : Diagnostic) : String :=
  match d.file with
  | some file => s!"{file}:{d.position.text}"
  | none => d.position.text

/-- The line that names the place, if the file or the position is known. -/
def placeLine (d : Diagnostic) (colour : Bool) : List String :=
  if d.position.Known ∨ d.file.isSome then
    [Style.brightBlue.paint colour ("  --> " ++ d.place)]
  else []

/-- The line that names an activation. -/
def frameLine (colour : Bool) (frame : String) : String :=
  "   " ++ Style.brightBlue.paint colour "in" ++ " " ++ frame

/-- The line of advice. -/
def helpLine (colour : Bool) (help : String) : String :=
  "   " ++ Style.brightYellow.paint colour "=" ++ " "
    ++ Style.brightYellow.paint colour ("help: " ++ help)

/-- The lines of a diagnostic. -/
def lines (d : Diagnostic) (colour : Bool) : List String :=
  (Style.boldRed.paint colour d.kind.title ++ ": " ++ Style.bold.paint colour d.message)
    :: (d.placeLine colour
      ++ d.frames.reverse.map (frameLine colour)
      ++ d.help.toList.map (helpLine colour))

/-- The text of a diagnostic; every line of it is ended. -/
def render (d : Diagnostic) (colour : Bool) : String :=
  String.join ((d.lines colour).map (· ++ "\n"))

/-- The diagnostic for a text in the given file. -/
def inFile (d : Diagnostic) (file : String) : Diagnostic := { d with file := some file }

end Diagnostic
end ProtoScript
