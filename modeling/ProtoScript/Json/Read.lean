import ProtoScript.Json
import ProtoScript.Text.Decimal
/-!
# Reading JSON

The strict grammar: blanks are space, tab, carriage return and line feed;
integers have no leading zero; a string holds no raw control character below
U+0020; nothing follows the value but blanks.  An integer literal is any
number without fraction and exponent except `-0`, which is no integer.

Each reader takes the text and gives what it read and the rest.
-/

namespace ProtoScript
namespace Json

/-- Whether a character may stand between the parts of a value. -/
def isBlank (c : Char) : Bool := c == ' ' || c == '\t' || c == '\r' || c == '\n'

/-- The text after the blanks at its start. -/
def skip (l : List Char) : List Char := l.dropWhile isBlank

/-- The value of a hexadecimal digit. -/
def hexValue? (c : Char) : Option Nat :=
  if Decimal.isDigit c then some (Decimal.digitValue c)
  else if 'a'.toNat ≤ c.toNat ∧ c.toNat ≤ 'f'.toNat then some (c.toNat - 'a'.toNat + 10)
  else if 'A'.toNat ≤ c.toNat ∧ c.toNat ≤ 'F'.toNat then some (c.toNat - 'A'.toNat + 10)
  else none

/-- The value of four hexadecimal digits. -/
def hexValue4? (a b c d : Char) : Option Nat := do
  return ((← hexValue? a) * 16 + (← hexValue? b)) * 256 + (← hexValue? c) * 16 + (← hexValue? d)

/-- The character that a letter after a backslash stands for. -/
def escaped? : Char → Option Char
  | '"' => some '"'
  | '\\' => some '\\'
  | '/' => some '/'
  | 'b' => some '\x08'
  | 'f' => some '\x0c'
  | 'n' => some '\n'
  | 'r' => some '\r'
  | 't' => some '\t'
  | _ => none

/-- The code units of a string up to its closing quote: characters, and the units that are written
as four hexadecimal digits. -/
def units : List Char → Option (List (Char ⊕ Nat) × List Char)
  | '"' :: r => some ([], r)
  | '\\' :: 'u' :: a :: b :: c :: d :: r => do
      let u ← hexValue4? a b c d
      let (l, r) ← units r
      return (.inr u :: l, r)
  | '\\' :: e :: r => do
      let c ← escaped? e
      let (l, r) ← units r
      return (.inl c :: l, r)
  | c :: r =>
      if c.toNat < 0x20 ∨ c = '\\' then none
      else do
        let (l, r) ← units r
        return (.inl c :: l, r)
  | [] => none

/-- Whether a unit is the first of a surrogate pair. -/
abbrev IsHigh (u : Nat) : Prop := 0xD800 ≤ u ∧ u ≤ 0xDBFF

/-- Whether a unit is the second of a surrogate pair. -/
abbrev IsLow (u : Nat) : Prop := 0xDC00 ≤ u ∧ u ≤ 0xDFFF

/-- The characters that units denote; a surrogate denotes one only in a pair. -/
def characters? : List (Char ⊕ Nat) → Option (List Char)
  | [] => some []
  | .inl c :: l => (characters? l).map (c :: ·)
  | .inr u :: .inr v :: l =>
      if IsHigh u ∧ IsLow v then
        (characters? l).map (Char.ofNat (0x10000 + (u - 0xD800) * 0x400 + (v - 0xDC00)) :: ·)
      else if IsHigh u ∨ IsLow u then none
      else (characters? (.inr v :: l)).map (Char.ofNat u :: ·)
  | .inr u :: l =>
      if IsHigh u ∨ IsLow u then none
      else (characters? l).map (Char.ofNat u :: ·)

/-- Reads a string after its opening quote. -/
def stringTail (l : List Char) : Option (Option String × List Char) :=
  (units l).map fun (us, r) => ((characters? us).map String.ofList, r)

/-- The digits at the start of a text, at least one, and the rest. -/
def digits1 (l : List Char) : Option (List Char × List Char) :=
  match l.span Decimal.isDigit with
  | ([], _) => none
  | (ds, r) => some (ds, r)

/-- Reads the part of a number before its fraction. -/
def wholePart : List Char → Option (List Char × List Char)
  | '0' :: r => some (['0'], r)
  | l => digits1 l

/-- Reads a fraction, if there is one. -/
def fraction : List Char → Option (List Char × List Char)
  | '.' :: r => (digits1 r).map fun (ds, r) => ('.' :: ds, r)
  | l => some ([], l)

/-- Reads an exponent, if there is one. -/
def exponent : List Char → Option (List Char × List Char)
  | c :: l =>
      if c = 'e' ∨ c = 'E' then
        match l with
        | s :: r =>
            if s = '+' ∨ s = '-' then (digits1 r).map fun (ds, r) => (c :: s :: ds, r)
            else (digits1 (s :: r)).map fun (ds, r) => (c :: ds, r)
        | [] => none
      else some ([], c :: l)
  | [] => some ([], [])

/-- The number that its sign and its parts are. -/
def numberOf (negative : Bool) (whole fraction exponent : List Char) : Json :=
  if fraction = [] ∧ exponent = [] ∧ ¬ (negative = true ∧ whole = ['0']) then
    let n := Int.ofNat (Decimal.value whole)
    .int (if negative then -n else n)
  else
    .real (String.ofList ((if negative then ['-'] else []) ++ whole ++ fraction ++ exponent))

/-- Reads a number after its sign. -/
def unsigned (negative : Bool) (l : List Char) : Option (Json × List Char) := do
  let (whole, r) ← wholePart l
  let (fraction, r) ← fraction r
  let (exponent, r) ← exponent r
  return (numberOf negative whole fraction exponent, r)

/-- Reads a number. -/
def number : List Char → Option (Json × List Char)
  | '-' :: r => unsigned true r
  | l => unsigned false l

mutual

/-- Reads a value that starts at once.  The first argument bounds the number of parts. -/
def value : Nat → List Char → Option (Json × List Char)
  | 0, _ => none
  | n + 1, l =>
      match l with
      | 'n' :: 'u' :: 'l' :: 'l' :: r => some (.null, r)
      | 't' :: 'r' :: 'u' :: 'e' :: r => some (.bool true, r)
      | 'f' :: 'a' :: 'l' :: 's' :: 'e' :: r => some (.bool false, r)
      | '"' :: r => (stringTail r).map fun (s, r) => (.str s, r)
      | '[' :: r =>
          match skip r with
          | ']' :: r => some (.arr [], r)
          | r => (elements n r).map fun (l, r) => (.arr l, r)
      | '\x7b' :: r =>
          match skip r with
          | '\x7d' :: r => some (.obj [], r)
          | r => (members n r).map fun (l, r) => (.obj l, r)
      | l => number l

/-- Reads the elements of an array, at least one, and the closing bracket. -/
def elements : Nat → List Char → Option (List Json × List Char)
  | 0, _ => none
  | n + 1, l => do
      let (j, r) ← value n l
      match skip r with
      | ']' :: r => some ([j], r)
      | ',' :: r => (elements n (skip r)).map fun (l, r) => (j :: l, r)
      | _ => none

/-- Reads the members of an object, at least one, and the closing brace. -/
def members : Nat → List Char → Option (List (Option String × Json) × List Char)
  | 0, _ => none
  | n + 1, l => do
      match l with
      | '"' :: r =>
          let (k, r) ← stringTail r
          match skip r with
          | ':' :: r =>
              let (j, r) ← value n (skip r)
              match skip r with
              | '\x7d' :: r => some ([(k, j)], r)
              | ',' :: r => (members n (skip r)).map fun (l, r) => ((k, j) :: l, r)
              | _ => none
          | _ => none
      | _ => none

end

/-- The value that a text denotes.  Every part takes a character, so the length bounds their
number. -/
def ofChars? (l : List Char) : Option Json :=
  match value (l.length + 1) (skip l) with
  | some (j, r) => if skip r = [] then some j else none
  | none => none

/-- Reads a text as JSON. -/
def read? (s : String) : Option Json := ofChars? s.toList

end Json
end ProtoScript
