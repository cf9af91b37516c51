import ProtoScript.Proofs.TokenPlaces
/-!
# Scanning what was written

A list of lexemes is written by writing each of them in its usual form, with a
separator after it: a blank, and then blanks and comments as they come
(`Written`).  Scanning gives the lexemes back.

The usual form of a lexeme is one of its spellings, and since a blank belongs to no
lexeme but a string literal, a lexeme before a separator is as long as it can be.  So
what is written is cut into its lexemes, with the separators as gaps (`Written.cuts`),
and the scanner reads it as it reads any text that is cut.
-/

namespace ProtoScript

/-- The usual form of a character of a string literal. -/
def Lexeme.escape (c : Char) : List Char :=
  if c = '"' ∨ c = '\\' then ['\\', c] else if c = '\n' then ['\\', 'n'] else [c]

/-- The usual form of a lexeme: an integer in decimal, a string between quotes, with its quotes,
backslashes and line feeds escaped and every other character as it is. -/
def Lexeme.chars : Lexeme → List Char
  | .identifier name => name.toList
  | .integer value => Decimal.chars value.toInt
  | .text value => '"' :: value.toList.flatMap escape ++ ['"']
  | .truth true => "true".toList
  | .truth false => "false".toList
  | .operator symbol => symbol.toList
  | .mark symbol => [symbol]
  | .keyword word => word.toList
  | .finish => []

/-- A name: it starts like a word, goes on like a word and is not reserved. -/
def Lexeme.IsName (name : String) : Prop :=
  (∃ c l, name.toList = c :: l ∧ Scanner.isWordStart c = true ∧
    ∀ d ∈ l, Scanner.isWordPart d = true) ∧
  name ≠ "true" ∧ name ≠ "false" ∧ name ∉ keywords

/-- A lexeme that the language has, the end of a text apart. -/
def Lexeme.Genuine : Lexeme → Prop
  | .identifier name => IsName name
  | .integer value => 0 ≤ value.toInt
  | .text _ | .truth _ => True
  | .operator symbol => symbol ∈ operators
  | .mark symbol => symbol ∈ marks
  | .keyword word => word ∈ keywords
  | .finish => False

/-- A blank, and then blanks and comments that end with their line. -/
def Separator (l : List Char) : Prop :=
  ∃ c g, l = c :: g ∧ c ∈ [' ', '\t', '\r', '\n'] ∧ Gap false g

/-- The characters are the given lexemes in their usual form, each followed by a separator, the last
one perhaps by nothing. -/
inductive Written : List Lexeme → List Char → Prop where
  /-- No lexeme. -/
  | nil : Written [] []
  /-- The last lexeme. -/
  | last {x : Lexeme} (hx : x.Genuine) : Written [x] x.chars
  /-- A lexeme, a separator and what follows. -/
  | cons {x : Lexeme} {g l : List Char} {xs : List Lexeme} (hx : x.Genuine) (hg : Separator g)
      (h : Written xs l) : Written (x :: xs) (x.chars ++ g ++ l)

/-! ### The usual form is a spelling -/

theorem Quotes.append {v w l r : List Char} (h : Quotes v l) (h' : Quotes w r) :
    Quotes (v ++ w) (l ++ r) := by
  induction h' with
  | nil => simpa using h
  | plain _ hq hb hn ih => simpa using ih.plain hq hb hn
  | escaped _ c ih => simpa using ih.escaped c

theorem Quotes.escape (c : Char) : Quotes [c] (Lexeme.escape c) := by
  unfold Lexeme.escape
  split
  · next hc =>
      have hu : Scanner.unescape c = c := by
        obtain rfl | rfl := hc <;> rfl
      have h := Quotes.nil.escaped c
      rwa [hu] at h
  · next hc =>
      split
      · next hn =>
          subst hn
          exact Quotes.nil.escaped 'n'
      · next hn => exact Quotes.nil.plain (fun h => hc (.inl h)) (fun h => hc (.inr h)) hn

/-- A string may stand for itself between quotes once it is escaped. -/
theorem Quotes.flatMap_escape : ∀ v : List Char, Quotes v (v.flatMap Lexeme.escape)
  | [] => .nil
  | c :: v => (Quotes.escape c).append (Quotes.flatMap_escape v)

/-- A reserved word starts like a word and goes on like one. -/
theorem Lexeme.word_of_reserved {word : String} (h : word ∈ "true" :: "false" :: keywords) :
    ∃ c l, word.toList = c :: l ∧ Scanner.isWordStart c = true ∧
      ∀ d ∈ l, Scanner.isWordPart d = true := by
  simp only [keywords, List.mem_cons, List.not_mem_nil, or_false] at h
  rcases h with rfl | rfl | rfl | rfl | rfl | rfl | rfl | rfl | rfl | rfl
  all_goals exact ⟨_, _, rfl, by decide, List.all_eq_true.1 (by decide)⟩

/-- What is written like a word is spelled like one. -/
theorem Lexeme.spelled_ofWord {word : String} (h : ∃ c l, word.toList = c :: l ∧
    Scanner.isWordStart c = true ∧ ∀ d ∈ l, Scanner.isWordPart d = true) :
    (Lexeme.ofWord word).Spelled word.toList := by
  obtain ⟨c, l, hw, hc, hl⟩ := h
  have hs := Spelled.word hc hl
  rwa [← hw, String.ofList_toList] at hs

/-- **Every lexeme of the language is spelled in its usual form.** -/
theorem Lexeme.Genuine.spelled {x : Lexeme} (h : x.Genuine) : x.Spelled x.chars := by
  cases x with
  | identifier name =>
      obtain ⟨hw, ht, hf, hk⟩ := h
      have hs := spelled_ofWord hw
      rwa [ofWord, if_neg ht, if_neg hf, if_neg hk] at hs
  | integer value =>
      obtain ⟨n, hn⟩ := Int.eq_ofNat_of_zero_le h
      have hc : chars (.integer value) = Decimal.digits n := by
        rw [chars, hn]
        rfl
      rw [hc]
      refine .integer (Decimal.digits_ne_nil n) (fun d hd => ?_) ?_
      · exact List.all_eq_true.1 (Decimal.all_isDigit_digits n) d hd
      · rw [Decimal.value_digits, hn]
  | text value =>
      have hs := Spelled.text (Quotes.flatMap_escape value.toList)
      rwa [String.ofList_toList] at hs
  | truth value =>
      cases value with
      | true => exact @spelled_ofWord "true" (word_of_reserved (by decide))
      | false => exact @spelled_ofWord "false" (word_of_reserved (by decide))
  | operator symbol => exact .operator h
  | mark symbol => exact .mark h
  | keyword word =>
      have hs := spelled_ofWord (word_of_reserved (List.mem_cons_of_mem _ (.tail _ h)))
      have hk : word ∈ keywords := h
      have hne : ∀ w ∈ keywords, w ≠ "true" ∧ w ≠ "false" := by decide
      rwa [ofWord, if_neg (hne word hk).1, if_neg (hne word hk).2, if_pos hk] at hs
  | finish => exact h.elim

theorem Lexeme.Genuine.ne_finish {x : Lexeme} (h : x.Genuine) : x ≠ .finish := by
  rintro rfl
  exact h

/-! ### What is written is cut into its lexemes -/

theorem Separator.gap {g : List Char} (h : Separator g) : Gap false g := by
  obtain ⟨c, g, rfl, hc, hg⟩ := h
  exact (Gap.nil.blank hc).append hg

/-- A lexeme does not go on with a blank. -/
theorem Lexeme.not_goesOn_blank {c : Char} (hc : c ∈ [' ', '\t', '\r', '\n']) (x : Lexeme) :
    ¬x.GoesOn c := by
  simp only [List.mem_cons, List.not_mem_nil, or_false] at hc
  cases x with
  | operator symbol =>
      have hlast : ∀ s ∈ operators, ∀ d ∈ s.toList, d ∉ [' ', '\t', '\r', '\n'] := by
        simp [operators]
      rintro (h | ⟨-, rfl⟩)
      · exact hlast _ h c (by simp) (by simpa using hc)
      · simp at hc
  | text value => exact id
  | mark symbol => exact id
  | finish => exact id
  | _ => obtain rfl | rfl | rfl | rfl := hc <;> simp [GoesOn] <;> decide

/-- **What is written behind a gap is cut into its lexemes.** -/
theorem Written.cuts {xs : List Lexeme} {l : List Char} (h : Written xs l) {g : List Char}
    (hg : Gap false g) : ∃ ps g', g ++ l = Piece.text ps ++ g' ∧ Cuts ps g' ∧ Gap false g' ∧
      ps.map Piece.lexeme = xs := by
  induction h generalizing g with
  | nil => exact ⟨[], g, by simp [Piece.text], .nil, hg, rfl⟩
  | @last x hx =>
      refine ⟨[⟨g, x, x.chars⟩], [], by simp [Piece.text], ?_, .nil, rfl⟩
      exact .cons hg hx.spelled hx.ne_finish (by simp [Piece.text]) .nil
  | @cons x s l xs hx hs _ ih =>
      obtain ⟨ps, g', hl, hc, hg', hxs⟩ := ih hs.gap
      refine ⟨⟨g, x, x.chars⟩ :: ps, g', ?_, ?_, hg', congrArg (x :: ·) hxs⟩
      · rw [Piece.text_cons, List.append_assoc _ _ g', ← hl]
        simp
      · refine .cons hg hx.spelled hx.ne_finish (fun d hd => ?_) hc
        -- A separator comes next, and it starts with a blank.
        obtain ⟨c, s, rfl, hblank, -⟩ := hs
        rw [← hl] at hd
        cases hd
        exact x.not_goesOn_blank hblank

theorem Piece.map_item_tokens (earlier ps : List Piece) :
    (tokens earlier ps).map Located.item = ps.map lexeme := by
  induction ps generalizing earlier with
  | nil => rfl
  | cons p ps ih => exact congrArg (p.lexeme :: ·) (ih _)

/-- **Scanning undoes writing.**  A text that consists of lexemes in their usual form, with a
separator after each but perhaps the last, and perhaps with blanks and comments before the first,
is scanned to these lexemes and the end of the text. -/
theorem scan_written {xs : List Lexeme} {g l : List Char} (hg : Gap false g) (h : Written xs l) :
    ∃ tokens, Token.scan (String.ofList (g ++ l)) = .ok tokens ∧
      tokens.map Located.item = xs ++ [.finish] := by
  obtain ⟨ps, g', hl, hc, hg', hxs⟩ := h.cuts hg
  refine ⟨_, Scanner.scan_of_cuts (by rw [String.toList_ofList, hl]) hc hg', ?_⟩
  rw [List.map_append, Piece.map_item_tokens, hxs]
  rfl

/-- Operators that go on like others, a comment that holds an operator, and a string that holds the
start of a comment. -/
theorem scan_written_lookalikes : ∃ tokens,
    Token.scan "\tlambda_ = // ==\n ==\r/ \"\\\"//\\n\" 42" = .ok tokens ∧
      tokens.map Located.item = [.identifier "lambda_", .operator "=", .operator "==",
        .operator "/", .text "\"//\n", .integer 42, .finish] := by
  have hblank : ∀ c ∈ [' ', '\t', '\r', '\n'], Separator [c] := fun c hc => ⟨c, [], rfl, hc, .nil⟩
  have hcomment : Separator " // ==\n ".toList := by
    have hg : Gap false ([] ++ ['/', '/'] ++ [' '] ++ ['='] ++ ['='] ++ ['\n'] ++ [' ']) :=
      .blank (.closed (.comment (.comment (.comment (.opened .nil) (by decide)) (by decide))
        (by decide))) (by decide)
    exact ⟨' ', _, rfl, by decide, hg⟩
  have hname : (Lexeme.identifier "lambda_").Genuine :=
    ⟨⟨_, _, rfl, by decide, List.all_eq_true.1 (by decide)⟩, by decide, by decide, by decide⟩
  have hoperator : ∀ symbol ∈ Lexeme.operators, (Lexeme.operator symbol).Genuine := fun _ h => h
  have htext : (Lexeme.text "\"//\n").Genuine := trivial
  have hinteger : (Lexeme.integer 42).Genuine := by
    change 0 ≤ (42 : Int64).toInt
    decide
  have hw := Written.cons hname (hblank ' ' (by decide)) <|
    .cons (hoperator "=" (by decide)) hcomment <|
    .cons (hoperator "==" (by decide)) (hblank '\r' (by decide)) <|
    .cons (hoperator "/" (by decide)) (hblank ' ' (by decide)) <|
    .cons htext (hblank ' ' (by decide)) <| .last hinteger
  have hg : Gap false ([] ++ ['\t']) := .blank .nil (by decide)
  have h42 : (Lexeme.integer 42).chars = ['4', '2'] := by
    have h : (42 : Int64).toInt = (42 : Nat) := by decide
    rw [Lexeme.chars, h]
    simp [Decimal.chars, Decimal.digits, Decimal.digit]
  rw [h42] at hw
  obtain ⟨tokens, hscan, hitems⟩ := scan_written hg hw
  refine ⟨tokens, ?_, hitems⟩
  rw [← hscan]
  refine congrArg Token.scan (String.toList_injective ?_)
  rw [String.toList_ofList]
  rfl

end ProtoScript
