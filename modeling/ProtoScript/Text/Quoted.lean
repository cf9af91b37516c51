import ProtoScript.Text.Shapeless
/-!
# Quoted text

A text between double quotes in which every character can be seen: the quote,
the backslash, the tab, the two line ends and the character zero are written by
a backslash and a letter, other characters without a shape of their own by
their number in hexadecimal, and the rest as they are.
-/

namespace ProtoScript
namespace Text

/-- The hexadecimal digits of a number, at least one. -/
def hexDigits (n : Nat) : String := String.ofList (Nat.toDigits 16 n)

/-- The written form of a character in a quoted text. -/
def visible (c : Char) : String :=
  if c = '\x00' then "\\0"
  else if c = '\t' then "\\t"
  else if c = '\r' then "\\r"
  else if c = '\n' then "\\n"
  else if c = '"' then "\\\""
  else if c = '\\' then "\\\\"
  else if isShapeless c then "\\u" ++ "\x7b" ++ hexDigits c.toNat ++ "\x7d"
  else c.toString

/-- A text in quotes. -/
def quoted (s : String) : String := "\"" ++ String.join (s.toList.map visible) ++ "\""

end Text
end ProtoScript
