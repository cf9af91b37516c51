import Mathlib.Data.List.DropRight
import ProtoScript.Proofs.Spelling
/-!
# Where tokens stand

A text is cut into pieces, each a gap and the lexeme behind it (`Cuts`).  Every lexeme is
as long as it can be, so there is one way only in which the scanner can have read the
text, and reading the pieces one after the other gives its tokens (`ending_cuts`).  A text
that cannot be cut to its end has a lexeme, behind pieces and a gap, that shows what is
wrong (`exists_cuts`).

The place of what stands behind some characters is counted in them (`Position.behind`):
the line by their line feeds, the column by what stands after the last of these.
`tokenize` counts so too, in its `line` and `col`, except where a string literal has an
escaped line feed: that is one more column and no new line, as if a blank stood there
(`Piece.flat`).  So a place is wrong exactly if an earlier lexeme has a line feed, and the
line is too small by the number of these.
-/

namespace ProtoScript

namespace Position

/-- The place of what follows the characters `l` at the start of a text. -/
def behind (l : List Char) : Position where
  line := 1 + l.count '\n'
  column := 1 + (l.rtakeWhile fun c => c ≠ '\n').length

/-- **Places are counted character by character.** -/
theorem behind_concat (l : List Char) (c : Char) : behind (l ++ [c]) = (behind l).advance c := by
  unfold behind advance
  rw [List.rtakeWhile_concat, List.count_append]
  by_cases hc : c = '\n'
  · subst hc
    simp [Nat.add_assoc]
  · simp [hc, right, Nat.add_assoc]

theorem behind_append (l r : List Char) : behind (l ++ r) = (behind l).after r := by
  induction r using List.reverseRecOn with
  | nil => simp
  | append_singleton r c ih => rw [← List.append_assoc, behind_concat, ih, after_concat]

end Position

/-- A lexeme of a text with its characters, and the gap before it. -/
structure Piece where
  /-- The characters between the lexeme before and this one. -/
  gap : List Char
  /-- The lexeme. -/
  lexeme : Lexeme
  /-- Its characters. -/
  chars : List Char

namespace Piece

/-- The characters of pieces in a row. -/
def text (ps : List Piece) : List Char := ps.flatMap fun p => p.gap ++ p.chars

/-- A lexeme on one line: with a blank for every line feed. -/
def unbroken (l : List Char) : List Char := l.map fun c => if c = '\n' then ' ' else c

/-- The characters of pieces in a row, with every lexeme on one line. -/
def flat (ps : List Piece) : List Char := ps.flatMap fun p => p.gap ++ unbroken p.chars

/-- How many line feeds stand inside lexemes. -/
def lineFeeds (ps : List Piece) : Nat := (ps.flatMap chars).count '\n'

/-- The place that is found for what stands behind pieces and a gap. -/
def place (ps : List Piece) (g : List Char) : Position := .behind (flat ps ++ g)

/-- The tokens of pieces that stand behind earlier ones. -/
def tokens (earlier : List Piece) : List Piece → List Token
  | [] => []
  | p :: ps => ⟨p.lexeme, place earlier p.gap⟩ :: tokens (earlier ++ [p]) ps

end Piece

/-- A text falls into the pieces and what follows them: in each piece the lexeme stands behind a
gap, in one of its spellings, and is as long as it can be. -/
inductive Cuts : List Piece → List Char → Prop where
  /-- No piece. -/
  | nil {rest : List Char} : Cuts [] rest
  /-- A piece first. -/
  | cons {p : Piece} {ps : List Piece} {rest : List Char} (hg : Gap false p.gap)
      (hx : p.lexeme.Spelled p.chars) (hf : p.lexeme ≠ .finish)
      (hd : ∀ d, (Piece.text ps ++ rest).head? = some d → ¬p.lexeme.GoesOn d) (h : Cuts ps rest) :
      Cuts (p :: ps) rest

namespace Piece

variable {ps : List Piece} {g : List Char}

theorem text_cons (p : Piece) (ps : List Piece) : text (p :: ps) = p.gap ++ p.chars ++ text ps :=
  List.flatMap_cons

/-- A lexeme on one line counts as so many columns. -/
theorem after_unbroken (l : List Char) (p : Position) : p.after (unbroken l) = p.along l := by
  induction l generalizing p with
  | nil => rfl
  | cons c l ih =>
      have hc : (if c = '\n' then ' ' else c) ≠ '\n' := by
        split
        · decide
        · assumption
      have happ : p.along (c :: l) = (p.along [c]).along l := Position.along_append p [c] l
      rw [unbroken, List.map_cons, Position.after_cons, Position.advance_of_ne hc, happ]
      exact ih _

/-- Behind a piece the lexeme has been counted as so many columns. -/
theorem place_concat (earlier : List Piece) (p : Piece) (g : List Char) :
    place (earlier ++ [p]) g = ((place earlier p.gap).along p.chars).after g := by
  rw [place, flat, List.flatMap_append, List.flatMap_singleton, ← List.append_assoc,
    Position.behind_append, Position.behind_append, after_unbroken]
  rfl

theorem count_unbroken (l : List Char) : (unbroken l).count '\n' = 0 := by
  rw [List.count_eq_zero]
  intro h
  obtain ⟨c, -, hc⟩ := List.mem_map.1 h
  split at hc
  · simp at hc
  · contradiction

/-- **The line is too small** by the line feeds inside lexemes. -/
theorem line_place (ps : List Piece) (g : List Char) :
    (place ps g).line + lineFeeds ps = (Position.behind (text ps ++ g)).line := by
  have hcount : (flat ps).count '\n' + lineFeeds ps = (text ps).count '\n' := by
    induction ps with
    | nil => rfl
    | cons p ps ih =>
        simp only [flat, lineFeeds, text, List.flatMap_cons, List.count_append,
          count_unbroken] at ih ⊢
        omega
  simp only [place, Position.behind, List.count_append]
  omega

/-- Without line feeds inside lexemes nothing is counted differently. -/
theorem flat_eq_text (h : lineFeeds ps = 0) : flat ps = text ps := by
  refine List.flatMap_congr fun p hp => congrArg (p.gap ++ ·) ?_
  refine (List.map_congr_left (g := id) fun c hc => if_neg ?_).trans (List.map_id _)
  rintro rfl
  exact List.count_eq_zero.1 h (List.mem_flatMap_of_mem hp hc)

/-- **A place is right exactly if no earlier lexeme has a line feed.** -/
theorem place_eq_iff (ps : List Piece) (g : List Char) :
    place ps g = .behind (text ps ++ g) ↔ lineFeeds ps = 0 := by
  constructor
  · intro h
    have hline := line_place ps g
    rw [h] at hline
    omega
  · intro h
    rw [place, flat_eq_text h]

end Piece

namespace Scanner

/-- **The scanner finds the pieces of a text**, each where it has counted to. -/
theorem ending_cuts {ps : List Piece} {rest : List Char} (h : Cuts ps rest) (earlier : List Piece)
    (found : List Token) :
    ending ⟨.behind (Piece.flat earlier), .blank, found⟩ (Piece.text ps ++ rest)
      = ending ⟨.behind (Piece.flat (earlier ++ ps)), .blank,
          (Piece.tokens earlier ps).reverse ++ found⟩ rest := by
  induction h generalizing earlier found with
  | nil => simp [Piece.text, Piece.tokens]
  | @cons p ps rest hg hx hf hd _ ih =>
      have hgap := run_gap hg (.behind (Piece.flat earlier)) found
      rw [← Position.behind_append] at hgap
      have hnext : (Piece.place earlier p.gap).along p.chars
          = .behind (Piece.flat (earlier ++ [p])) := by
        have h := Piece.place_concat earlier p []
        rw [Piece.place, List.append_nil] at h
        exact h.symm
      rw [Piece.text_cons, List.append_assoc, List.append_assoc, ending_of_run hgap]
      refine (ending_spelled hx hf hd _ _).trans ?_
      have happ : earlier ++ p :: ps = earlier ++ [p] ++ ps := by simp
      rw [Piece.tokens, List.reverse_cons, List.append_assoc, List.singleton_append, happ]
      rw [← ih (earlier ++ [p])]
      exact congrArg (fun q => ending ⟨q, .blank, _⟩ _) hnext

/-- The pieces of a text are read, and a gap behind them. -/
theorem scan_eq_ending {text : String} {ps : List Piece} {g rest : List Char} {b : Bool}
    (ht : text.toList = Piece.text ps ++ (g ++ rest)) (h : Cuts ps (g ++ rest)) (hg : Gap b g) :
    Token.scan text = ending ⟨Piece.place ps g, if b then .comment else .blank,
      (Piece.tokens [] ps).reverse⟩ rest := by
  have hgap := run_gap hg (.behind (Piece.flat ps)) (Piece.tokens [] ps).reverse
  change ending initial text.toList = _
  rw [ht]
  refine (ending_cuts h [] []).trans ?_
  rw [List.append_nil, List.nil_append, ending_of_run hgap, ← Position.behind_append, Piece.place]

/-- A text that is cut to its end is scanned. -/
theorem scan_of_cuts {text : String} {ps : List Piece} {g : List Char} {b : Bool}
    (ht : text.toList = Piece.text ps ++ g) (h : Cuts ps g) (hg : Gap b g) :
    Token.scan text = .ok (Piece.tokens [] ps ++ [⟨.finish, Piece.place ps g⟩]) := by
  rw [← List.append_nil g] at ht h
  rw [scan_eq_ending ht h hg]
  cases b <;> simp [ending, Except.bind, finish, flush, Except.map]

/-- A text is refused where it cannot be cut further. -/
theorem scan_of_rejects {text : String} {ps : List Piece} {g rest : List Char}
    {problem : ScanProblem} (ht : text.toList = Piece.text ps ++ (g ++ rest))
    (h : Cuts ps (g ++ rest)) (hg : Gap false g) (hr : problem.Rejects rest) :
    Token.scan text = .error ⟨problem, Piece.place ps g⟩ :=
  (scan_eq_ending ht h hg).trans (ending_rejected hr _ _)

/-- **Every text is cut to its end or up to what is wrong.** -/
theorem exists_cuts (l : List Char) :
    (∃ ps g b, l = Piece.text ps ++ g ∧ Cuts ps g ∧ Gap b g) ∨
      ∃ ps g rest problem, l = Piece.text ps ++ (g ++ rest) ∧ Cuts ps (g ++ rest) ∧ Gap false g ∧
        ScanProblem.Rejects problem rest := by
  induction hn : l.length using Nat.strong_induction_on generalizing l with
  | _ n ih =>
  subst hn
  obtain ⟨b, g, r, rfl, hg, hr⟩ := exists_gap false l
  have hg := hg [] .nil
  rw [List.nil_append] at hg
  cases r with
  | nil => exact .inl ⟨[], g, b, by simp [Piece.text], .nil, hg⟩
  | cons c r =>
      obtain ⟨rfl, hb, hs⟩ := hr c r rfl
      obtain ⟨x, w, r', hw, hx, hf, hd⟩ | ⟨problem, hp⟩ := starts_of_not_gap hb hs
      · -- What follows the lexeme is shorter and is cut the same way.
        have hpos : 0 < w.length := List.length_pos_iff.2 (ne_nil_of_spelled hx hf)
        have hcons : ∀ {ps rest}, r' = Piece.text ps ++ rest → Cuts ps rest →
            g ++ c :: r = Piece.text (⟨g, x, w⟩ :: ps) ++ rest ∧ Cuts (⟨g, x, w⟩ :: ps) rest := by
          rintro ps rest rfl h
          exact ⟨by rw [hw, Piece.text_cons]; simp, .cons hg hx hf hd h⟩
        rw [hw, List.length_append, List.length_append] at ih
        obtain ⟨ps, g', b', hl, h, hg'⟩ | ⟨ps, g', rest, problem, hl, h, hg', hp⟩ :=
          ih r'.length (by omega) r' rfl
        · obtain ⟨hl, h⟩ := hcons hl h
          exact .inl ⟨_, g', b', hl, h, hg'⟩
        · obtain ⟨hl, h⟩ := hcons hl h
          exact .inr ⟨_, g', rest, problem, hl, h, hg', hp⟩
      · exact .inr ⟨[], g, c :: r, problem, by simp [Piece.text], .nil, hg, hp⟩

end Scanner

/-- **Where tokens stand.**  The tokens of a text are those of the pieces that it is cut into, up to
a gap at its end, where the end of the text stands; and a text is refused for the lexeme behind the
pieces and a gap that shows what is wrong.  Each place is counted in the pieces before and the gap
with every lexeme on one line.  So it is the line and column of the first character exactly if no
line feed stands inside an earlier lexeme, where only a string literal can have one, after a
backslash; otherwise its line is too small by the number of these line feeds. -/
theorem scan_places (text : String) :
    (∀ tokens, Token.scan text = .ok tokens ↔ ∃ ps g b, text.toList = Piece.text ps ++ g ∧
      Cuts ps g ∧ Gap b g ∧ tokens = Piece.tokens [] ps ++ [⟨.finish, Piece.place ps g⟩]) ∧
    (∀ e : Located ScanProblem, Token.scan text = .error e ↔ ∃ ps g rest,
      text.toList = Piece.text ps ++ (g ++ rest) ∧ Cuts ps (g ++ rest) ∧ Gap false g ∧
        e.item.Rejects rest ∧ e.position = Piece.place ps g) ∧
    ∀ ps g, (Piece.place ps g).line + Piece.lineFeeds ps
        = (Position.behind (Piece.text ps ++ g)).line ∧
      (Piece.place ps g = .behind (Piece.text ps ++ g) ↔ Piece.lineFeeds ps = 0) := by
  refine ⟨fun tokens => ⟨fun h => ?_, ?_⟩, fun e => ⟨fun h => ?_, ?_⟩,
    fun ps g => ⟨Piece.line_place ps g, Piece.place_eq_iff ps g⟩⟩
  · obtain ⟨ps, g, b, ht, hc, hg⟩ | ⟨ps, g, rest, problem, ht, hc, hg, hp⟩ :=
      Scanner.exists_cuts text.toList
    · rw [Scanner.scan_of_cuts ht hc hg] at h
      exact ⟨ps, g, b, ht, hc, hg, (Except.ok.inj h).symm⟩
    · rw [Scanner.scan_of_rejects ht hc hg hp] at h
      cases h
  · rintro ⟨ps, g, b, ht, hc, hg, rfl⟩
    exact Scanner.scan_of_cuts ht hc hg
  · obtain ⟨ps, g, b, ht, hc, hg⟩ | ⟨ps, g, rest, problem, ht, hc, hg, hp⟩ :=
      Scanner.exists_cuts text.toList
    · rw [Scanner.scan_of_cuts ht hc hg] at h
      cases h
    · rw [Scanner.scan_of_rejects ht hc hg hp] at h
      cases h
      exact ⟨ps, g, rest, ht, hc, hg, hp, rfl⟩
  · obtain ⟨problem, position⟩ := e
    rintro ⟨ps, g, rest, ht, hc, hg, hp, rfl⟩
    exact Scanner.scan_of_rejects ht hc hg hp

/-- An escaped line feed moves what follows: the name stands in the third column of the second line,
and it is found in the sixth column of the first. -/
theorem scan_escaped_line_feed :
    Token.scan "\"\\\n\" x"
      = .ok [⟨.text "\n", ⟨1, 1⟩⟩, ⟨.identifier "x", ⟨1, 6⟩⟩, ⟨.finish, ⟨1, 7⟩⟩] ∧
      "\"\\\n\" x".toList = "\"\\\n\" ".toList ++ "x".toList ∧
        Position.behind "\"\\\n\" ".toList = ⟨2, 3⟩ :=
  ⟨rfl, rfl, rfl⟩

end ProtoScript
