/-!
# The console

A program prints whole lines and reads whole lines.  The lines that it printed
are kept in order; the lines that it will read are known beforehand.

These are `CapturedOutput` and `ScriptedInput` of the interpreter, two of the ends
that section B8 of its specification allows (`OutputSink` and `InputSource`).
-/

namespace ProtoScript

/-- The lines that were printed and those that are still to be read. -/
structure Console where
  /-- The lines still to be read. -/
  pending : List String := []
  /-- The lines printed, in order. -/
  printed : Array String := #[]
deriving Repr

namespace Console

instance : Inhabited Console := ⟨{}⟩

/-- Prints a line. -/
def print (c : Console) (line : String) : Console := { c with printed := c.printed.push line }

/-- Reads a line, if there is one. -/
def read? (c : Console) : Option (String × Console) :=
  match c.pending with
  | [] => none
  | line :: rest => some (line, { c with pending := rest })

/-- The lines printed. -/
def lines (c : Console) : List String := c.printed.toList

/-- The lines printed, with a line feed between them. -/
def text (c : Console) : String := "\n".intercalate c.lines

end Console
end ProtoScript
