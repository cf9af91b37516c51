import ProtoScript.Json
import ProtoScript.Text.Decimal
/-!
# Writing JSON

A value has two written forms.  The compact one has no blanks.  The indented
one puts each element and each member on a line of its own, two spaces further
in than the bracket that holds it; empty brackets stay together.  In a string
the quote, the backslash and the control characters below U+0020 are escaped,
five of them by a letter, and every other character stands for itself.

Both writers take the text that follows, which makes writing linear and lets a
reader be told apart what was written from what comes after it.
-/

namespace ProtoScript
namespace Json

/-- The hexadecimal digit with the value `d % 16`. -/
def hexDigit (d : Nat) : Char :=
  if d % 16 < 10 then Char.ofNat ('0'.toNat + d % 16) else Char.ofNat ('a'.toNat + (d % 16 - 10))

/-- The written form of a character of a string. -/
def escape (c : Char) : List Char :=
  if c = '"' then ['\\', '"']
  else if c = '\\' then ['\\', '\\']
  else if c = '\n' then ['\\', 'n']
  else if c = '\r' then ['\\', 'r']
  else if c = '\t' then ['\\', 't']
  else if c = '\x08' then ['\\', 'b']
  else if c = '\x0c' then ['\\', 'f']
  else if c.toNat < 0x20 then ['\\', 'u', '0', '0', hexDigit (c.toNat / 16), hexDigit c.toNat]
  else [c]

/-- The characters of a string, escaped and closed by a quote, before `rest`. -/
def quotedTail (l : List Char) (rest : List Char) : List Char :=
  l.foldr (fun c r => escape c ++ r) ('"' :: rest)

/-- A string before `rest`; one without a text is written as a lone surrogate. -/
def quoted (s : Option String) (rest : List Char) : List Char :=
  match s with
  | some s => '"' :: quotedTail s.toList rest
  | none => '"' :: '\\' :: 'u' :: 'd' :: '8' :: '0' :: '0' :: '"' :: rest

/-- A value without parts before `rest`. -/
def leaf : Json → List Char → List Char
  | .null, rest => 'n' :: 'u' :: 'l' :: 'l' :: rest
  | .bool true, rest => 't' :: 'r' :: 'u' :: 'e' :: rest
  | .bool false, rest => 'f' :: 'a' :: 'l' :: 's' :: 'e' :: rest
  | .int n, rest => Decimal.chars n ++ rest
  | .real l, rest => l.toList ++ rest
  | .str s, rest => quoted s rest
  | .arr _, rest => rest
  | .obj _, rest => rest

mutual

/-- A value in compact form before `rest`. -/
def compact : Json → List Char → List Char
  | .arr [], rest => '[' :: ']' :: rest
  | .arr (j :: l), rest => '[' :: compact j (compactElements l rest)
  | .obj [], rest => '\x7b' :: '\x7d' :: rest
  | .obj ((k, j) :: l), rest =>
      '\x7b' :: quoted k (':' :: compact j (compactMembers l rest))
  | .null, rest => leaf .null rest
  | .bool b, rest => leaf (.bool b) rest
  | .int n, rest => leaf (.int n) rest
  | .real l, rest => leaf (.real l) rest
  | .str s, rest => leaf (.str s) rest

/-- The further elements of an array in compact form, and its end, before `rest`. -/
def compactElements : List Json → List Char → List Char
  | [], rest => ']' :: rest
  | j :: l, rest => ',' :: compact j (compactElements l rest)

/-- The further members of an object in compact form, and its end, before `rest`. -/
def compactMembers : List (Option String × Json) → List Char → List Char
  | [], rest => '\x7d' :: rest
  | (k, j) :: l, rest => ',' :: quoted k (':' :: compact j (compactMembers l rest))

end

/-- A new line that starts at the given level of indentation, before `rest`. -/
def newline (level : Nat) (rest : List Char) : List Char :=
  '\n' :: (List.replicate (2 * level) ' ' ++ rest)

mutual

/-- A value in indented form, its brackets at the given level, before `rest`. -/
def indented (level : Nat) : Json → List Char → List Char
  | .arr [], rest => '[' :: ']' :: rest
  | .arr (j :: l), rest =>
      '[' :: newline (level + 1) (indented (level + 1) j (indentedElements level l rest))
  | .obj [], rest => '\x7b' :: '\x7d' :: rest
  | .obj ((k, j) :: l), rest =>
      '\x7b' :: newline (level + 1)
        (quoted k (':' :: ' ' :: indented (level + 1) j (indentedMembers level l rest)))
  | .null, rest => leaf .null rest
  | .bool b, rest => leaf (.bool b) rest
  | .int n, rest => leaf (.int n) rest
  | .real l, rest => leaf (.real l) rest
  | .str s, rest => leaf (.str s) rest

/-- The further elements of an array in indented form, and its end, before `rest`. -/
def indentedElements (level : Nat) : List Json → List Char → List Char
  | [], rest => newline level (']' :: rest)
  | j :: l, rest =>
      ',' :: newline (level + 1) (indented (level + 1) j (indentedElements level l rest))

/-- The further members of an object in indented form, and its end, before `rest`. -/
def indentedMembers (level : Nat) : List (Option String × Json) → List Char → List Char
  | [], rest => newline level ('\x7d' :: rest)
  | (k, j) :: l, rest =>
      ',' :: newline (level + 1)
        (quoted k (':' :: ' ' :: indented (level + 1) j (indentedMembers level l rest)))

end

/-- The compact text of a value. -/
def write (j : Json) : String := String.ofList (compact j [])

/-- The indented text of a value. -/
def writeIndented (j : Json) : String := String.ofList (indented 0 j [])

end Json
end ProtoScript
