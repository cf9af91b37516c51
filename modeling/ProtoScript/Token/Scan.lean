import ProtoScript.Token
/-!
# Scanning a text

The scanner reads one character at a time.  What it has read of an unfinished
lexeme is its pending part; a character either extends the pending part or ends
it and starts the next one, so each lexeme is as long as it can be.  Since the
whole state is the pending part, the position and the tokens found, scanning a
text is a fold over its characters, and scanning two texts in a row is scanning
one and then the other.

A position moves on by one column for each character and to the next line for a
line feed, with one exception: a line feed that is escaped inside a string
counts as a column.

This is `tokenize` of the interpreter, which reads a whole lexeme in one round of
its loop.  A pending part is what that round has read: `Pending.comment` stands
for the skipping of a comment, `Pending.text` and `Pending.escape` for the two
levels of the loop over a string literal, and `Pending.symbol` for the look at
the next character that tells `<` from `<=`.
-/

namespace ProtoScript

/-- Why a text has no tokens. -/
inductive ScanProblem where
  /-- A string is not closed on its line. -/
  | unterminatedText
  /-- An integer literal does not fit into 64 bits. -/
  | integerOutOfRange (digits : String)
  /-- A character that only means something when it is doubled. -/
  | undoubled (symbol : Char)
  /-- A character that starts no lexeme. -/
  | unexpected (symbol : Char)
deriving DecidableEq, Repr

namespace ScanProblem

/-- The message of the diagnostic. -/
def message : ScanProblem → String
  | .unterminatedText => "unterminated string literal"
  | .integerOutOfRange digits => s!"integer literal {digits} is out of range"
  | .undoubled c => s!"unexpected character '{c}', did you mean '{c}{c}'?"
  | .unexpected c => s!"unexpected character '{c}'"

end ScanProblem

/-- The part of a lexeme, or of what lies between lexemes, that was read. -/
inductive Pending where
  /-- Between two lexemes. -/
  | blank
  /-- In a word; its characters so far, the last one first. -/
  | word (start : Position) (reversed : List Char)
  /-- In an integer literal; its digits so far, the last one first. -/
  | number (start : Position) (reversed : List Char)
  /-- In a string literal; its characters so far, the last one first. -/
  | text (start : Position) (reversed : List Char)
  /-- After a backslash in a string literal. -/
  | escape (start : Position) (reversed : List Char)
  /-- After a symbol that may be the first half of a longer one. -/
  | symbol (start : Position) (first : Char)
  /-- In a comment. -/
  | comment
deriving DecidableEq, Repr

/-- The state of a scan. -/
structure Scanner where
  /-- The position of the next character. -/
  position : Position
  /-- The unfinished lexeme. -/
  pending : Pending
  /-- The tokens found, the last one first. -/
  found : List Token
deriving DecidableEq, Repr

namespace Scanner

/-- A scan that has not read anything. -/
def initial : Scanner := ⟨.start, .blank, []⟩

/-- Whether a character can start a word. -/
def isWordStart (c : Char) : Bool := c.isAlpha || c == '_'

/-- Whether a character can continue a word. -/
def isWordPart (c : Char) : Bool := isWordStart c || Decimal.isDigit c

/-- The character that an escaped character stands for. -/
def unescape : Char → Char
  | 'n' => '\n'
  | 't' => '\t'
  | c => c

/-- The symbols that another one may extend. -/
def openSymbols : List Char := ['/', '=', '!', '<', '>', '&', '|']

/-- The symbols that are operators by themselves. -/
def closedSymbols : List Char := ['+', '-', '*', '%', '@']

/-- The operator that two symbols make together. -/
def pair? (first second : Char) : Option String :=
  match first, second with
  | '=', '=' => some "=="
  | '!', '=' => some "!="
  | '<', '=' => some "<="
  | '>', '=' => some ">="
  | '&', '&' => some "&&"
  | '|', '|' => some "||"
  | _, _ => none

/-- The lexeme that a symbol is by itself; `&` and `|` are none. -/
def single (symbol : Char) : Except ScanProblem Lexeme :=
  if symbol = '&' ∨ symbol = '|' then .error (.undoubled symbol)
  else .ok (.operator symbol.toString)

/-- The lexeme that a sequence of digits is. -/
def numeral (digits : List Char) : Except ScanProblem Lexeme :=
  match Decimal.ofInt? (Decimal.value digits) with
  | some value => .ok (.integer value)
  | none => .error (.integerOutOfRange (String.ofList digits))

/-- Attaches a position to a lexeme or to the reason why there is none. -/
def locate (position : Position) : Except ScanProblem Lexeme → Except (Located ScanProblem) Token
  | .ok lexeme => .ok ⟨lexeme, position⟩
  | .error problem => .error ⟨problem, position⟩

/-- The tokens found once the pending part is ended by what follows it. -/
def flush (s : Scanner) : Except (Located ScanProblem) (List Token) :=
  match s.pending with
  | .blank | .comment => .ok s.found
  | .word start l => .ok (⟨.ofWord (String.ofList l.reverse), start⟩ :: s.found)
  | .number start l => (locate start (numeral l.reverse)).map (· :: s.found)
  | .symbol start c => (locate start (single c)).map (· :: s.found)
  | .text start _ | .escape start _ => .error ⟨.unterminatedText, start⟩

/-- Reads a character that does not extend a lexeme; `found` are the tokens before it. -/
def enter (position : Position) (found : List Token) (c : Char) :
    Except (Located ScanProblem) Scanner :=
  let next := position.advance c
  if c = ' ' ∨ c = '\t' ∨ c = '\r' ∨ c = '\n' then .ok ⟨next, .blank, found⟩
  else if c = '"' then .ok ⟨next, .text position [], found⟩
  else if Decimal.isDigit c then .ok ⟨next, .number position [c], found⟩
  else if isWordStart c then .ok ⟨next, .word position [c], found⟩
  else if c ∈ openSymbols then .ok ⟨next, .symbol position c, found⟩
  else if c ∈ closedSymbols then
    .ok ⟨next, .blank, ⟨.operator c.toString, position⟩ :: found⟩
  else if c ∈ Lexeme.marks then .ok ⟨next, .blank, ⟨.mark c, position⟩ :: found⟩
  else .error ⟨.unexpected c, position⟩

/-- Ends the pending part and reads a character after it. -/
def restart (s : Scanner) (c : Char) : Except (Located ScanProblem) Scanner :=
  s.flush.bind fun found => enter s.position found c

/-- Reads a character. -/
def step (s : Scanner) (c : Char) : Except (Located ScanProblem) Scanner :=
  let next := s.position.advance c
  match s.pending with
  | .blank => s.restart c
  | .comment => if c = '\n' then s.restart c else .ok { s with position := next }
  | .word start l =>
      if isWordPart c then .ok ⟨next, .word start (c :: l), s.found⟩ else s.restart c
  | .number start l =>
      if Decimal.isDigit c then .ok ⟨next, .number start (c :: l), s.found⟩ else s.restart c
  | .symbol start first =>
      if first = '/' ∧ c = '/' then .ok ⟨next, .comment, s.found⟩
      else match pair? first c with
        | some symbol => .ok ⟨next, .blank, ⟨.operator symbol, start⟩ :: s.found⟩
        | none => s.restart c
  | .text start l =>
      if c = '"' then .ok ⟨next, .blank, ⟨.text (String.ofList l.reverse), start⟩ :: s.found⟩
      else if c = '\\' then .ok ⟨next, .escape start l, s.found⟩
      else if c = '\n' then .error ⟨.unterminatedText, start⟩
      else .ok ⟨next, .text start (c :: l), s.found⟩
  | .escape start l => .ok ⟨s.position.right, .text start (unescape c :: l), s.found⟩

/-- Reads the characters of a text in turn. -/
def run (s : Scanner) (l : List Char) : Except (Located ScanProblem) Scanner :=
  l.foldlM step s

/-- The tokens of the text that was read, the end of the text last. -/
def finish (s : Scanner) : Except (Located ScanProblem) (List Token) :=
  s.flush.map fun found => (⟨.finish, s.position⟩ :: found).reverse

@[simp] theorem run_nil (s : Scanner) : s.run [] = .ok s := rfl

theorem run_cons (s : Scanner) (c : Char) (l : List Char) :
    s.run (c :: l) = (s.step c).bind fun t => t.run l := rfl

/-- **Scanning goes on where it stopped.** -/
theorem run_append (s : Scanner) (l r : List Char) :
    s.run (l ++ r) = (s.run l).bind fun t => t.run r := by
  induction l generalizing s with
  | nil => rfl
  | cons c l ih =>
      rw [List.cons_append, run_cons, run_cons]
      cases s.step c with
      | error e => rfl
      | ok t => exact ih t

end Scanner

/-- The tokens of a text, each as long as it can be, the end of the text last (`tokenize`). -/
def Token.scan (text : String) : Except (Located ScanProblem) (List Token) :=
  (Scanner.initial.run text.toList).bind Scanner.finish

end ProtoScript
