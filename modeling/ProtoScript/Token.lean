import ProtoScript.Position
import ProtoScript.Text.Decimal
/-!
# Tokens

A token is a lexeme and the position of its first character.  Operators,
keywords and marks carry their own text, so that a list of tokens can hold
symbols that the language does not use; such a token is only ever reported.

These are `Token` and `TokenKind` of the interpreter with the table `KEYWORDS`;
the surface syntax is section B2 of its specification.
-/

namespace ProtoScript

/-- The smallest parts of a program text that mean something. -/
inductive Lexeme where
  /-- A name. -/
  | identifier (name : String)
  /-- An integer literal. -/
  | integer (value : Int64)
  /-- A string literal, without its quotes and escapes. -/
  | text (value : String)
  /-- One of the two truth values. -/
  | truth (value : Bool)
  /-- An operator. -/
  | operator (symbol : String)
  /-- A bracket, comma, semicolon or point. -/
  | mark (symbol : Char)
  /-- A reserved word. -/
  | keyword (word : String)
  /-- The end of the text. -/
  | finish
deriving DecidableEq, Repr

instance : Inhabited Lexeme := ⟨.finish⟩

/-- A lexeme where it stands in the text. -/
abbrev Token := Located Lexeme

namespace Lexeme

/-- The reserved words that are no truth value (`KEYWORDS`). -/
def keywords : List String :=
  ["func", "return", "if", "else", "while", "lambda", "ref", "nil"]

/-- The operators. -/
def operators : List String :=
  ["+", "-", "*", "/", "%", "=", "==", "!=", "<", "<=", ">", ">=", "&&", "||", "!", "@"]

/-- The marks. -/
def marks : List Char := ['(', ')', '\x7b', '\x7d', ',', ';', '.']

/-- The lexeme that a word is. -/
def ofWord (word : String) : Lexeme :=
  if word = "true" then .truth true
  else if word = "false" then .truth false
  else if word ∈ keywords then .keyword word
  else .identifier word

/-- The lexeme as a reader of a message would call it (`describe`). -/
def describe : Lexeme → String
  | .identifier name => s!"identifier '{name}'"
  | .integer value => "integer " ++ Decimal.text value
  | .text value => "string \"" ++ value ++ "\""
  | .truth true => "'true'"
  | .truth false => "'false'"
  | .operator symbol => s!"'{symbol}'"
  | .mark symbol => s!"'{symbol}'"
  | .keyword word => s!"keyword '{word}'"
  | .finish => "end of input"

end Lexeme
end ProtoScript
