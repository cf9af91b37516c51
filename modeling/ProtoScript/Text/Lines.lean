/-!
# Lines of a text

A text is cut after each line feed; what follows the last one is a line too,
unless it is empty.  Two readers deliver these lines without their ends.  A
recorded input drops the line feed and one carriage return before it, and
keeps an unended last line as it is (`recorded`).  A terminal drops every line
feed and carriage return at the end of a line, ended or not (`typed`).

The first reader is the interpreter's `run_case`, which takes the lines of a file;
the second is `read_line` of its `StdinSource`.
-/

namespace ProtoScript
namespace Text

/-- A line of a text and whether a line feed ends it. -/
structure Line where
  /-- The characters before the end of the line. -/
  text : List Char
  /-- Whether a line feed follows. -/
  ended : Bool
deriving DecidableEq, Repr

/-- The lines of a text, in order. -/
def lines : List Char → List Line
  | [] => []
  | c :: l =>
      if c = '\n' then ⟨[], true⟩ :: lines l
      else match lines l with
        | [] => [⟨[c], false⟩]
        | first :: rest => { first with text := c :: first.text } :: rest

namespace Line

/-- The characters of the line, its end included. -/
def chars (l : Line) : List Char := if l.ended then l.text ++ ['\n'] else l.text

/-- The text without the carriage return before its line feed, if there are both. -/
def recorded (l : Line) : List Char :=
  if l.ended then
    match l.text.reverse with
    | '\r' :: r => r.reverse
    | _ => l.text
  else l.text

/-- The text without the carriage returns at its end. -/
def typed (l : Line) : List Char := (l.text.reverse.dropWhile (· = '\r')).reverse

end Line

/-- No line holds a line feed. -/
theorem lf_notMem_of_mem_lines (l : List Char) : ∀ x ∈ lines l, '\n' ∉ x.text := by
  induction l with
  | nil => simp [lines]
  | cons c l ih =>
      rw [lines]
      split
      · simpa using ih
      · next hc =>
        split
        · simpa using fun h => hc h.symm
        · next first rest hl =>
          rw [hl] at ih
          intro x hx
          rcases List.mem_cons.1 hx with rfl | hx
          · have := ih first (List.mem_cons_self ..)
            simp only [List.mem_cons, not_or]
            exact ⟨fun h => hc h.symm, this⟩
          · exact ih x (List.mem_cons_of_mem _ hx)

/-- The lines of a recorded input. -/
def recordedLines (text : String) : List String :=
  (lines text.toList).map fun l => String.ofList l.recorded

/-- The lines that a terminal delivers for a text. -/
def typedLines (text : String) : List String :=
  (lines text.toList).map fun l => String.ofList l.typed

end Text
end ProtoScript
