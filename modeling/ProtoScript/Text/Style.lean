/-!
# Coloured text

A style is a list of display attributes of a terminal.  Painted text stands
between the escape sequence that sets the style and the one that resets it; a
reset inside the text is followed by the style again, so the text keeps its
style up to its end.
-/

namespace ProtoScript

/-- The display attributes in use. -/
inductive Style where
  /-- Bold. -/
  | bold
  /-- Faint. -/
  | dimmed
  /-- Bold and red. -/
  | boldRed
  /-- Red. -/
  | red
  /-- Bold and green. -/
  | boldGreen
  /-- Green. -/
  | green
  /-- Bright blue. -/
  | brightBlue
  /-- Bright yellow. -/
  | brightYellow
deriving DecidableEq, Repr

namespace Style

/-- The codes of the attributes, as they stand in the escape sequence. -/
def codes : Style → String
  | .bold => "1"
  | .dimmed => "2"
  | .boldRed => "1;31"
  | .red => "31"
  | .boldGreen => "1;32"
  | .green => "32"
  | .brightBlue => "94"
  | .brightYellow => "93"

/-- The escape sequence that sets the style. -/
def start (s : Style) : List Char := '\x1b' :: '[' :: (s.codes.toList ++ ['m'])

/-- The escape sequence that resets the display. -/
def reset : List Char := ['\x1b', '[', '0', 'm']

/-- The text with the style set again after each reset in it. -/
def resume (s : Style) : List Char → List Char
  | '\x1b' :: '[' :: '0' :: 'm' :: l => reset ++ s.start ++ resume s l
  | c :: l => c :: resume s l
  | [] => []

/-- The text in the style if colours are on, else the text. -/
def paint (s : Style) (colour : Bool) (text : String) : String :=
  if colour then String.ofList (s.start ++ s.resume text.toList ++ reset) else text

end Style
end ProtoScript
