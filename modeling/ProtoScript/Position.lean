/-!
# Positions in a text

Lines and columns count from 1, and columns count characters.  A line feed ends
its line.  Line 0 stands for no position at all, which is where an error that
has no place in the text is reported.

A position is a `SourceLocation` of the interpreter: `Position.unknown` and
`Position.Known` are its `unknown` and `is_known`.
-/

namespace ProtoScript

universe u

/-- A line and a column. -/
structure Position where
  /-- The line, 0 if the position is unknown. -/
  line : Nat
  /-- The column. -/
  column : Nat
deriving DecidableEq, Repr

namespace Position

/-- The position of what stands nowhere in the text. -/
def unknown : Position := ⟨0, 0⟩

/-- The position of the first character of a text. -/
def start : Position := ⟨1, 1⟩

instance : Inhabited Position := ⟨unknown⟩

/-- A position is known if it lies on a line. -/
abbrev Known (p : Position) : Prop := 0 < p.line

/-- The position one column further. -/
def right (p : Position) : Position := { p with column := p.column + 1 }

/-- The position after the character that stands here. -/
def advance (p : Position) (c : Char) : Position :=
  if c = '\n' then ⟨p.line + 1, 1⟩ else p.right

/-- The position after a text that starts here. -/
def after (p : Position) (l : List Char) : Position := l.foldl advance p

/-- The written form. -/
def text (p : Position) : String := s!"{p.line}:{p.column}"

@[simp] theorem after_nil (p : Position) : p.after [] = p := rfl

@[simp] theorem after_cons (p : Position) (c : Char) (l : List Char) :
    p.after (c :: l) = (p.advance c).after l := rfl

end Position

/-- Something that stands at a position of a text. -/
structure Located (α : Type u) where
  /-- What stands there. -/
  item : α
  /-- Where it stands. -/
  position : Position
deriving DecidableEq, Repr

end ProtoScript
