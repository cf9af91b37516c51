import Mathlib.Data.List.TakeWhile
import Mathlib.Tactic.SplitIfs
import ProtoScript.Token.Scan
/-!
# How lexemes are spelled

A text consists of lexemes and gaps.  A gap is made of blanks and comments (`Gap`),
every lexeme has its spellings (`Lexeme.Spelled`), and a spelling is as long as it can
be: the character after it would not belong to it (`Lexeme.GoesOn`).  In particular `/`
is no operator before another `/`, where a comment starts.  What a text may go on with
instead of a lexeme is said by `ScanProblem.Rejects`.  All this is said of characters
alone; the branches of `tokenize` are one for each kind of gap, lexeme and problem.

The scanner reads a gap, a lexeme or what is wrong in one go: it stands between lexemes
before and after, and counts the characters of the gap as they come and those of the
lexeme as columns of one line (`Position.along`), an escaped line feed in a string
literal too.
-/

namespace ProtoScript

/-! ### Gaps, lexemes and what is neither -/

/-- The characters between two lexemes; inside a comment if the first argument says so. -/
inductive Gap : Bool → List Char → Prop where
  /-- There are none. -/
  | nil : Gap false []
  /-- A blank. -/
  | blank {l : List Char} {c : Char} (h : Gap false l) (hc : c ∈ [' ', '\t', '\r', '\n']) :
      Gap false (l ++ [c])
  /-- The start of a comment. -/
  | opened {l : List Char} (h : Gap false l) : Gap true (l ++ ['/', '/'])
  /-- A character of a comment. -/
  | comment {l : List Char} {c : Char} (h : Gap true l) (hc : c ≠ '\n') : Gap true (l ++ [c])
  /-- The end of the line that ends a comment. -/
  | closed {l : List Char} (h : Gap true l) : Gap false (l ++ ['\n'])

/-- The characters of a string, and what may stand for them between quotes. -/
inductive Quotes : List Char → List Char → Prop where
  /-- There are none. -/
  | nil : Quotes [] []
  /-- A character that stands for itself. -/
  | plain {v l : List Char} {c : Char} (h : Quotes v l) (hq : c ≠ '"') (hb : c ≠ '\\')
      (hn : c ≠ '\n') : Quotes (v ++ [c]) (l ++ [c])
  /-- A character after a backslash. -/
  | escaped {v l : List Char} (h : Quotes v l) (c : Char) :
      Quotes (v ++ [Scanner.unescape c]) (l ++ ['\\', c])

/-- The characters that a lexeme may be made of. -/
inductive Lexeme.Spelled : Lexeme → List Char → Prop where
  /-- A name, a reserved word or a truth value. -/
  | word {c : Char} {l : List Char} (hc : Scanner.isWordStart c = true)
      (hl : ∀ d ∈ l, Scanner.isWordPart d = true) :
      Spelled (.ofWord (String.ofList (c :: l))) (c :: l)
  /-- An integer literal. -/
  | integer {l : List Char} {i : Int64} (hn : l ≠ []) (hl : ∀ d ∈ l, Decimal.isDigit d = true)
      (hi : i.toInt = Decimal.value l) : Spelled (.integer i) l
  /-- A string literal. -/
  | text {v l : List Char} (h : Quotes v l) : Spelled (.text (String.ofList v)) ('"' :: l ++ ['"'])
  /-- An operator. -/
  | operator {symbol : String} (h : symbol ∈ Lexeme.operators) :
      Spelled (.operator symbol) symbol.toList
  /-- A mark. -/
  | mark {c : Char} (h : c ∈ Lexeme.marks) : Spelled (.mark c) [c]
  /-- The end of the text. -/
  | finish : Spelled .finish []

/-- With one more character the lexeme would be another one, or the start of a comment. -/
def Lexeme.GoesOn : Lexeme → Char → Prop
  | .identifier _, d | .truth _, d | .keyword _, d => Scanner.isWordPart d = true
  | .integer _, d => Decimal.isDigit d = true
  | .operator symbol, d => symbol.push d ∈ operators ∨ symbol = "/" ∧ d = '/'
  | .text _, _ | .mark _, _ | .finish, _ => False

/-- What is wrong with the lexeme with which the characters start. -/
inductive ScanProblem.Rejects : ScanProblem → List Char → Prop where
  /-- A string literal ends with its line or with the text. -/
  | unterminatedText {v l r : List Char} (h : Quotes v l)
      (hr : r = [] ∨ r = ['\\'] ∨ r.head? = some '\n') : Rejects .unterminatedText ('"' :: (l ++ r))
  /-- An integer literal does not fit. -/
  | integerOutOfRange {l r : List Char} (hn : l ≠ []) (hl : ∀ d ∈ l, Decimal.isDigit d = true)
      (hr : ∀ d, r.head? = some d → Decimal.isDigit d = false)
      (hi : ¬Decimal.InRange (Decimal.value l)) :
      Rejects (.integerOutOfRange (String.ofList l)) (l ++ r)
  /-- A character is not followed by its like. -/
  | undoubled {c : Char} {r : List Char} (hc : c = '&' ∨ c = '|') (hr : r.head? ≠ some c) :
      Rejects (.undoubled c) (c :: r)
  /-- A character starts neither a lexeme nor a gap. -/
  | unexpected {c : Char} {r : List Char} (hb : ∀ b, ¬Gap b [c])
      (hx : ∀ (x : Lexeme) (l : List Char), ¬x.Spelled (c :: l)) : Rejects (.unexpected c) (c :: r)

theorem Gap.append {b : Bool} {l r : List Char} (h : Gap false l) (h' : Gap b r) :
    Gap b (l ++ r) := by
  generalize hb : b = b' at h'
  induction h' generalizing b with
  | nil => simpa using h
  | blank _ hc ih =>
      rw [← List.append_assoc]
      exact .blank (ih rfl) hc
  | opened _ ih =>
      rw [← List.append_assoc]
      exact .opened (ih rfl)
  | comment _ hc ih =>
      rw [← List.append_assoc]
      exact .comment (ih rfl) hc
  | closed _ ih =>
      rw [← List.append_assoc]
      exact .closed (ih rfl)

/-- A gap of one character is a blank. -/
theorem Gap.mem_blanks {b : Bool} {c : Char} (h : Gap b [c]) : c ∈ [' ', '\t', '\r', '\n'] := by
  have hne : ∀ {l : List Char}, Gap true l → l ≠ [] := by
    rintro l hl rfl
    generalize hl' : ([] : List Char) = l at hl
    cases hl <;> simp at hl'
  generalize hl : [c] = l at h
  cases h with
  | nil => simp at hl
  | @blank l d h hd =>
      rcases List.append_eq_singleton_iff.1 hl.symm with ⟨-, he⟩ | ⟨-, he⟩
      · obtain rfl := List.singleton_inj.1 he
        exact hd
      · simp at he
  | @opened l h =>
      have := congrArg List.length hl
      simp at this
  | @comment l d h hd =>
      rcases List.append_eq_singleton_iff.1 hl.symm with ⟨he, -⟩ | ⟨-, he⟩
      · exact absurd he (hne h)
      · simp at he
  | @closed l h =>
      rcases List.append_eq_singleton_iff.1 hl.symm with ⟨he, -⟩ | ⟨-, he⟩
      · exact absurd he (hne h)
      · simp at he

/-! ### Positions -/

namespace Position

/-- The position after characters that count as columns of one line. -/
def along (p : Position) (l : List Char) : Position := { p with column := p.column + l.length }

theorem along_append (p : Position) (l r : List Char) : p.along (l ++ r) = (p.along l).along r := by
  simp only [along, List.length_append, Nat.add_assoc]

theorem after_concat (p : Position) (l : List Char) (c : Char) :
    p.after (l ++ [c]) = (p.after l).advance c :=
  List.foldl_append

theorem advance_of_ne {c : Char} (h : c ≠ '\n') (p : Position) : p.advance c = p.along [c] :=
  if_neg h

end Position

namespace Scanner

/-- What the scan gives in the end if it goes on with the characters `l`. -/
def ending (s : Scanner) (l : List Char) : Except (Located ScanProblem) (List Token) :=
  (s.run l).bind finish

variable {s t : Scanner} {x : Lexeme} {c : Char} {l r w g : List Char} {p q : Position}
  {found : List Token}

theorem ending_cons (s : Scanner) (c : Char) (l : List Char) :
    s.ending (c :: l) = (s.step c).bind (ending · l) := by
  unfold ending
  rw [run_cons]
  cases s.step c <;> rfl

theorem ending_of_run (h : s.run l = .ok t) (r : List Char) : s.ending (l ++ r) = t.ending r := by
  unfold ending
  rw [run_append, h]
  rfl

/-- A scan that cannot end its pending part fails where this started, whatever comes next. -/
theorem ending_of_flush_error {e : Located ScanProblem} (h : s.flush = .error e)
    (hr : ∀ d, r.head? = some d → s.step d = s.restart d) : s.ending r = .error e := by
  cases r with
  | nil => rw [ending, run_nil, Except.bind, finish, h, Except.map]
  | cons d r => rw [ending_cons, hr d rfl, restart, h, Except.bind, Except.bind]

/-- A scan that ends its pending part goes on between lexemes. -/
theorem ending_of_flush (h : s.flush = .ok found)
    (hr : ∀ d, r.head? = some d → s.step d = s.restart d) :
    s.ending r = ending ⟨s.position, .blank, found⟩ r := by
  cases r with
  | nil =>
      rw [ending, run_nil, Except.bind, finish, h]
      rfl
  | cons d r =>
      rw [ending_cons, hr d rfl, restart, h, Except.bind]
      exact (ending_cons ⟨s.position, .blank, found⟩ d r).symm

/-! ### Gaps -/

/-- **A gap leaves what was found as it is**, and its characters are counted as they come. -/
theorem run_gap {b : Bool} (h : Gap b g) (p : Position) (found : List Token) :
    run ⟨p, .blank, found⟩ g = .ok ⟨p.after g, if b then .comment else .blank, found⟩ := by
  induction h with
  | nil => rfl
  | @blank g c _ hc ih =>
      have hc' : c = ' ' ∨ c = '\t' ∨ c = '\r' ∨ c = '\n' := by simpa using hc
      rw [run_append, ih, Except.bind, run_cons, Position.after_concat]
      simp [step, restart, flush, Except.bind, enter, hc']
  | @opened g _ ih =>
      rw [run_append, ih, List.append_cons, Position.after_concat, Position.after_concat]
      rfl
  | @comment g c _ hc ih =>
      rw [run_append, ih, Except.bind, run_cons, Position.after_concat]
      simp [step, hc, Except.bind]
  | @closed g _ ih =>
      rw [run_append, ih, Position.after_concat]
      rfl

/-! ### Words, numbers, strings and operators -/

/-- The letters come after the digits. -/
theorem le_toNat_of_isAlpha (h : c.isAlpha = true) : 65 ≤ c.toNat := by
  obtain h | h := Bool.or_eq_true_iff.1 h
  · exact (of_decide_eq_true h).1
  · exact Nat.le_trans (by decide : 65 ≤ 97) (of_decide_eq_true (Bool.and_eq_true_iff.1 h).1)

theorem ne_lineFeed_of_isWordPart (h : isWordPart c = true) : c ≠ '\n' := by
  rintro rfl
  revert h
  decide

theorem ne_lineFeed_of_isDigit (h : Decimal.isDigit c = true) : c ≠ '\n' := by
  rintro rfl
  revert h
  decide

/-- A character that can start a word starts nothing else. -/
theorem enter_wordStart (h : isWordStart c = true) :
    enter p found c = .ok ⟨p.along [c], .word p [c], found⟩ := by
  have hb : ¬(c = ' ' ∨ c = '\t' ∨ c = '\r' ∨ c = '\n') := by
    rintro (rfl | rfl | rfl | rfl) <;> revert h <;> decide
  have hq : c ≠ '"' := by
    rintro rfl
    revert h
    decide
  have hd : Decimal.isDigit c = false := by
    have hle : 65 ≤ c.toNat := by
      obtain h | h := Bool.or_eq_true_iff.1 h
      · exact le_toNat_of_isAlpha h
      · rw [beq_iff_eq.1 h]
        decide
    rw [Decimal.isDigit, decide_eq_false_iff_not]
    change ¬(48 ≤ c.toNat ∧ c.toNat ≤ 57)
    omega
  rw [enter, if_neg hb, if_neg hq, if_neg (by simp [hd]), if_pos h,
    Position.advance_of_ne fun hn => hb (.inr (.inr (.inr hn)))]

/-- A digit starts an integer literal. -/
theorem enter_digit (h : Decimal.isDigit c = true) :
    enter p found c = .ok ⟨p.along [c], .number p [c], found⟩ := by
  have hb : ¬(c = ' ' ∨ c = '\t' ∨ c = '\r' ∨ c = '\n') := by
    rintro (rfl | rfl | rfl | rfl) <;> revert h <;> decide
  have hq : c ≠ '"' := by
    rintro rfl
    revert h
    decide
  rw [enter, if_neg hb, if_neg hq, if_pos h,
    Position.advance_of_ne fun hn => hb (.inr (.inr (.inr hn)))]

theorem run_word (h : ∀ d ∈ l, isWordPart d = true) (p : Position) (r : List Char) :
    run ⟨p, .word q r, found⟩ l = .ok ⟨p.along l, .word q (l.reverse ++ r), found⟩ := by
  induction l generalizing p r with
  | nil => rfl
  | cons c l ih =>
      have hc := h c List.mem_cons_self
      have hs : step ⟨p, .word q r, found⟩ c = .ok ⟨p.along [c], .word q (c :: r), found⟩ := by
        simp only [step, if_pos hc, Position.advance_of_ne (ne_lineFeed_of_isWordPart hc)]
      rw [run_cons, hs, Except.bind, ih fun d hd => h d (List.mem_cons_of_mem _ hd),
        ← Position.along_append]
      simp

theorem run_digits (h : ∀ d ∈ l, Decimal.isDigit d = true) (p : Position) (r : List Char) :
    run ⟨p, .number q r, found⟩ l = .ok ⟨p.along l, .number q (l.reverse ++ r), found⟩ := by
  induction l generalizing p r with
  | nil => rfl
  | cons c l ih =>
      have hc := h c List.mem_cons_self
      have hs : step ⟨p, .number q r, found⟩ c = .ok ⟨p.along [c], .number q (c :: r), found⟩ := by
        simp only [step, if_pos hc, Position.advance_of_ne (ne_lineFeed_of_isDigit hc)]
      rw [run_cons, hs, Except.bind, ih fun d hd => h d (List.mem_cons_of_mem _ hd),
        ← Position.along_append]
      simp

/-- The scanner reads the digits of a number, whether or not it fits. -/
theorem run_number (hn : l ≠ []) (h : ∀ d ∈ l, Decimal.isDigit d = true) :
    run ⟨p, .blank, found⟩ l = .ok ⟨p.along l, .number p l.reverse, found⟩ := by
  cases l with
  | nil => exact absurd rfl hn
  | cons c l =>
      have hs : step ⟨p, .blank, found⟩ c = .ok ⟨p.along [c], .number p [c], found⟩ :=
        enter_digit (h c List.mem_cons_self)
      rw [run_cons, hs, Except.bind, run_digits fun d hd => h d (List.mem_cons_of_mem _ hd),
        ← Position.along_append, List.singleton_append, List.reverse_cons]

/-- Between the quotes the scanner collects what the characters stand for, and counts each of them
as a column, an escaped line feed too. -/
theorem run_quotes {v : List Char} (h : Quotes v l) (p q : Position) (found : List Token) :
    run ⟨p, .text q [], found⟩ l = .ok ⟨p.along l, .text q v.reverse, found⟩ := by
  induction h with
  | nil => rfl
  | @plain v l c _ hq hb hn ih =>
      rw [run_append, ih, Except.bind, run_cons, Position.along_append]
      simp [step, hq, hb, hn, Except.bind, Position.advance_of_ne hn]
  | @escaped v l c _ ih =>
      rw [run_append, ih, Except.bind, run_cons, Position.along_append]
      simp [step, run_cons, Except.bind, Position.advance_of_ne, Position.along, Position.right]

theorem push_mem_operators {d : Char} :
    c.toString.push d ∈ Lexeme.operators ↔ (pair? c d).isSome = true := by
  constructor
  · intro h
    have hl : [c, d] ∈ Lexeme.operators.map String.toList := by
      simpa using List.mem_map_of_mem (f := String.toList) h
    simp only [Lexeme.operators, List.map_cons, List.mem_cons] at hl
    simp at hl
    rcases hl with ⟨rfl, rfl⟩ | ⟨rfl, rfl⟩ | ⟨rfl, rfl⟩ | ⟨rfl, rfl⟩ | ⟨rfl, rfl⟩ | ⟨rfl, rfl⟩
    all_goals rfl
  · intro h
    unfold pair? at h
    split at h
    case h_7 => cases h
    all_goals decide

/-- A word goes on with what words are made of. -/
theorem goesOn_ofWord {word : String} {d : Char} :
    (Lexeme.ofWord word).GoesOn d ↔ isWordPart d = true := by
  unfold Lexeme.ofWord
  split_ifs <;> exact Iff.rfl

/-- A symbol goes on where two symbols are an operator or start a comment. -/
theorem goesOn_symbol {d : Char} : (Lexeme.operator c.toString).GoesOn d ↔
    (pair? c d).isSome = true ∨ c = '/' ∧ d = '/' := by
  have hslash : c.toString = "/" ↔ c = '/' := by
    rw [← String.toList_inj]
    simp
  rw [Lexeme.GoesOn, push_mem_operators, hslash]

/-- An operator of two symbols does not go on. -/
theorem not_goesOn_pair {d d' : Char} {symbol : String} (h : pair? c d = some symbol) :
    ¬(Lexeme.operator symbol).GoesOn d' := by
  have hlength : ∀ s ∈ Lexeme.operators, s.toList.length ≤ 2 := by decide
  rintro (hgo | ⟨rfl, -⟩)
  · have := hlength _ hgo
    unfold pair? at h
    split at h
    case h_7 => cases h
    all_goals
      cases h
      simp at this
  · unfold pair? at h
    split at h <;> simp_all

/-- A symbol that does not go on is read by itself. -/
theorem step_symbol {d : Char} {symbol : String} (hs : symbol = c.toString)
    (h : ¬(Lexeme.operator symbol).GoesOn d) :
    step ⟨q, .symbol p c, found⟩ d = restart ⟨q, .symbol p c, found⟩ d := by
  subst hs
  rw [goesOn_symbol, not_or] at h
  have hpair : pair? c d = none := by simpa using h.1
  simp only [step, if_neg h.2, hpair]

/-- **A lexeme is found where it starts**, in whatever way it is spelled, and the scan goes on so
many columns further on. -/
theorem ending_spelled (h : x.Spelled w) (hx : x ≠ .finish)
    (hr : ∀ d, r.head? = some d → ¬x.GoesOn d) (p : Position) (found : List Token) :
    ending ⟨p, .blank, found⟩ (w ++ r) = ending ⟨p.along w, .blank, ⟨x, p⟩ :: found⟩ r := by
  cases h with
  | @word c l hc hl =>
      have hs : step ⟨p, .blank, found⟩ c = .ok ⟨p.along [c], .word p [c], found⟩ :=
        enter_wordStart hc
      have hrun : run ⟨p, .blank, found⟩ (c :: l)
          = .ok ⟨p.along (c :: l), .word p (l.reverse ++ [c]), found⟩ := by
        rw [run_cons, hs, Except.bind, run_word hl, ← Position.along_append]
        rfl
      have hword : (l.reverse ++ [c]).reverse = c :: l := by simp
      rw [ending_of_run hrun, ending_of_flush rfl, hword]
      intro d hd
      have hpart : ¬isWordPart d = true := fun hpart => hr d hd (goesOn_ofWord.2 hpart)
      simp only [step, if_neg hpart]
  | @integer l i hn hl hi =>
      have hnumeral : numeral w.reverse.reverse = .ok (.integer i) := by
        rw [List.reverse_reverse, numeral, Decimal.ofInt?_eq_some_iff.2 hi]
      rw [ending_of_run (run_number hn hl), ending_of_flush]
      · simp only [flush, hnumeral]
        rfl
      · intro d hd
        have hdigit : ¬Decimal.isDigit d = true := hr d hd
        simp only [step, if_neg hdigit]
  | @text v l hv =>
      have hs : step ⟨p, .blank, found⟩ '"' = .ok ⟨p.along ['"'], .text p [], found⟩ := rfl
      have hrun : run ⟨p, .blank, found⟩ ('"' :: l ++ ['"'])
          = .ok ⟨p.along ('"' :: l ++ ['"']), .blank,
              ⟨.text (String.ofList v), p⟩ :: found⟩ := by
        rw [List.cons_append, run_cons, hs, Except.bind, run_append, run_quotes hv, Except.bind,
          ← List.singleton_append (x := '"') (l := l ++ ['"']), Position.along_append,
          Position.along_append, run_cons]
        simp [step, Except.bind, Position.advance_of_ne]
      exact ending_of_run hrun r
  | @operator symbol hs =>
      simp only [Lexeme.operators, List.mem_cons, List.not_mem_nil, or_false] at hs
      rcases hs with rfl | rfl | rfl | rfl | rfl | rfl | rfl | rfl | rfl | rfl | rfl | rfl | rfl |
        rfl | rfl | rfl
      -- An operator of one symbol may wait for the next one.
      all_goals first
        | exact ending_of_run rfl r
        | refine (ending_of_run rfl r).trans (ending_of_flush rfl fun d hd => ?_)
          exact step_symbol rfl (hr d hd)
  | @mark c hc =>
      simp only [Lexeme.marks, List.mem_cons, List.not_mem_nil, or_false] at hc
      rcases hc with rfl | rfl | rfl | rfl | rfl | rfl | rfl
      all_goals exact ending_of_run rfl r
  | finish => exact absurd rfl hx

/-! ### First characters -/

theorem head_of_operator {symbol : String} (h : symbol ∈ Lexeme.operators) :
    ∃ d r, symbol.toList = d :: r ∧ (d ∈ openSymbols ∨ d ∈ closedSymbols) := by
  simp only [Lexeme.operators, List.mem_cons, List.not_mem_nil, or_false] at h
  rcases h with rfl | rfl | rfl | rfl | rfl | rfl | rfl | rfl | rfl | rfl | rfl | rfl | rfl | rfl |
    rfl | rfl
  all_goals exact ⟨_, _, rfl, by decide⟩

/-- The characters with which a lexeme can start. -/
theorem head_of_spelled (h : x.Spelled (c :: l)) :
    c = '"' ∨ Decimal.isDigit c = true ∨ isWordStart c = true ∨ c ∈ openSymbols ∨
      c ∈ closedSymbols ∨ c ∈ Lexeme.marks := by
  generalize hl : c :: l = w at h
  cases h with
  | word hc _ =>
      obtain ⟨rfl, -⟩ := List.cons.inj hl
      exact .inr (.inr (.inl hc))
  | integer _ hd _ => exact .inr (.inl (hd c (hl ▸ List.mem_cons_self)))
  | text _ => exact .inl (List.cons.inj hl).1
  | @operator symbol hs =>
      obtain ⟨d, r, hd, hmem⟩ := head_of_operator hs
      obtain ⟨rfl, -⟩ := List.cons.inj (hl.trans hd)
      rcases hmem with hopen | hclosed
      · exact .inr (.inr (.inr (.inl hopen)))
      · exact .inr (.inr (.inr (.inr (.inl hclosed))))
  | mark hm =>
      obtain ⟨rfl, -⟩ := List.cons.inj hl
      exact .inr (.inr (.inr (.inr (.inr hm))))
  | finish => cases hl

theorem ne_nil_of_spelled (h : x.Spelled w) (hx : x ≠ .finish) : w ≠ [] := by
  cases h with
  | integer hn => exact hn
  | operator hs =>
      obtain ⟨d, r, hd, -⟩ := head_of_operator hs
      simp [hd]
  | finish => exact absurd rfl hx
  | _ => simp

theorem spelled_closed (h : c ∈ closedSymbols) : (Lexeme.operator c.toString).Spelled [c] := by
  simp only [closedSymbols, List.mem_cons, List.not_mem_nil, or_false] at h
  rcases h with rfl | rfl | rfl | rfl | rfl
  all_goals exact .operator (by decide)

theorem spelled_open (h : c ∈ openSymbols) (ha : c ≠ '&') (ho : c ≠ '|') :
    (Lexeme.operator c.toString).Spelled [c] := by
  simp only [openSymbols, List.mem_cons, List.not_mem_nil, or_false] at h
  rcases h with rfl | rfl | rfl | rfl | rfl | rfl | rfl
  all_goals first
    | exact .operator (by decide)
    | exact absurd rfl ha
    | exact absurd rfl ho

theorem spelled_pair {d : Char} {symbol : String} (h : pair? c d = some symbol) :
    (Lexeme.operator symbol).Spelled [c, d] := by
  unfold pair? at h
  split at h
  case h_7 => cases h
  all_goals
    cases h
    exact .operator (by decide)

/-- **A lexeme starts with each of these characters.** -/
theorem spelled_of_head (h : c = '"' ∨ Decimal.isDigit c = true ∨ isWordStart c = true ∨
    c ∈ openSymbols ∨ c ∈ closedSymbols ∨ c ∈ Lexeme.marks) :
    ∃ (x : Lexeme) (l : List Char), x.Spelled (c :: l) := by
  obtain rfl | h | h | h | h | h := h
  · exact ⟨_, _, .text .nil⟩
  · have hr : Decimal.InRange (Decimal.value [c]) := by
      have hc := (of_decide_eq_true h).2
      have hv : Decimal.value [c] ≤ 9 := by
        change 10 * 0 + (c.toNat - 48) ≤ 9
        change c.toNat ≤ 57 at hc
        omega
      constructor
      · exact Int.le_trans (by decide : Int64.minValue.toInt ≤ 0) (Int.natCast_nonneg _)
      · exact Int.le_trans (Int.ofNat_le.2 hv) (by decide)
    refine ⟨.integer (Int64.ofInt (Decimal.value [c])), [],
      .integer (by simp) (by simpa using h) ?_⟩
    exact Decimal.ofInt?_eq_some_iff.1 (if_pos hr)
  · exact ⟨_, [], .word h nofun⟩
  · by_cases hp : c = '&' ∨ c = '|'
    · obtain rfl | rfl := hp
      · exact ⟨_, _, spelled_pair (d := '&') rfl⟩
      · exact ⟨_, _, spelled_pair (d := '|') rfl⟩
    · obtain ⟨ha, ho⟩ := not_or.1 hp
      exact ⟨_, _, spelled_open h ha ho⟩
  · exact ⟨_, _, spelled_closed h⟩
  · exact ⟨_, _, .mark h⟩

/-! ### Problems -/

/-- **What is no lexeme is refused where it starts.** -/
theorem ending_rejected {problem : ScanProblem} (h : problem.Rejects r) (p : Position)
    (found : List Token) : ending ⟨p, .blank, found⟩ r = .error ⟨problem, p⟩ := by
  cases h with
  | @unterminatedText v l r hv hr =>
      have hs : step ⟨p, .blank, found⟩ '"' = .ok ⟨p.along ['"'], .text p [], found⟩ := rfl
      rw [ending_cons, hs, Except.bind, ending_of_run (run_quotes hv _ _ _)]
      rcases hr with rfl | rfl | hr
      · rfl
      · rfl
      · cases r with
        | nil => cases hr
        | cons c r =>
            cases hr
            rfl
  | @integerOutOfRange l r hn hl hr hi =>
      have hnumeral : numeral l.reverse.reverse
          = .error (.integerOutOfRange (String.ofList l)) := by
        rw [List.reverse_reverse, numeral, Decimal.ofInt?, if_neg hi]
      rw [ending_of_run (run_number hn hl), ending_of_flush_error]
      · simp only [flush, hnumeral]
        rfl
      · intro d hd
        have hdigit : ¬Decimal.isDigit d = true := by simp [hr d hd]
        simp only [step, if_neg hdigit]
  | @undoubled c r hc hr =>
      have hs : step ⟨p, .blank, found⟩ c = .ok ⟨p.along [c], .symbol p c, found⟩ := by
        obtain rfl | rfl := hc <;> rfl
      rw [ending_cons, hs, Except.bind, ending_of_flush_error]
      · simp only [flush, single, if_pos hc]
        rfl
      · intro d hd
        refine step_symbol rfl fun hgo => hr ?_
        obtain hpair | ⟨rfl, -⟩ := goesOn_symbol.1 hgo
        · obtain rfl | rfl := hc
          all_goals
            unfold pair? at hpair
            split at hpair <;> simp_all
        · simp at hc
  | @unexpected c r hb hx =>
      have hhead : ¬_ := fun h => (spelled_of_head (c := c) h).elim fun x hx' => hx'.elim (hx x)
      simp only [not_or] at hhead
      obtain ⟨hq, hd, hw, ho, hclosed, hm⟩ := hhead
      have hblank : ¬(c = ' ' ∨ c = '\t' ∨ c = '\r' ∨ c = '\n') := fun h =>
        hb false (Gap.nil.blank (by simpa using h))
      have hs : step ⟨p, .blank, found⟩ c = .error ⟨.unexpected c, p⟩ := by
        change enter p found c = _
        rw [enter, if_neg hblank, if_neg hq, if_neg hd, if_neg hw, if_neg ho, if_neg hclosed,
          if_neg hm]
      rw [ending_cons, hs]
      rfl

/-! ### Every text starts with a gap, and then a lexeme or what is none -/

/-- **A gap is followed by the end of the text or by what is no gap.** -/
theorem exists_gap : ∀ (b : Bool) (l : List Char), ∃ (b' : Bool) (g r : List Char),
    l = g ++ r ∧ (∀ g', Gap b g' → Gap b' (g' ++ g)) ∧
      ∀ c r', r = c :: r' → b' = false ∧ c ∉ [' ', '\t', '\r', '\n'] ∧
        (c = '/' → r'.head? ≠ some '/')
  | b, [] => ⟨b, [], [], rfl, fun g' h => by simpa using h, nofun⟩
  | true, c :: l => by
      by_cases hc : c = '\n'
      · obtain ⟨b', g, r, rfl, hg, hr⟩ := exists_gap false l
        refine ⟨b', c :: g, r, rfl, fun g' h => ?_, hr⟩
        rw [List.append_cons]
        exact hg _ (hc ▸ .closed h)
      · obtain ⟨b', g, r, rfl, hg, hr⟩ := exists_gap true l
        refine ⟨b', c :: g, r, rfl, fun g' h => ?_, hr⟩
        rw [List.append_cons]
        exact hg _ (.comment h hc)
  | false, c :: l => by
      by_cases hc : c ∈ [' ', '\t', '\r', '\n']
      · obtain ⟨b', g, r, rfl, hg, hr⟩ := exists_gap false l
        refine ⟨b', c :: g, r, rfl, fun g' h => ?_, hr⟩
        rw [List.append_cons]
        exact hg _ (.blank h hc)
      · by_cases hs : c = '/' ∧ l.head? = some '/'
        · obtain ⟨rfl, hl⟩ := hs
          obtain ⟨l, rfl⟩ : ∃ l', l = '/' :: l' := by
            cases l with
            | nil => cases hl
            | cons d l => exact ⟨l, congrArg (· :: l) (Option.some.inj hl)⟩
          obtain ⟨b', g, r, rfl, hg, hr⟩ := exists_gap true l
          refine ⟨b', '/' :: '/' :: g, r, rfl, fun g' h => ?_, hr⟩
          have happ : g' ++ '/' :: '/' :: g = g' ++ ['/', '/'] ++ g := by simp
          rw [happ]
          exact hg _ (.opened h)
        · refine ⟨false, [], c :: l, rfl, fun g' h => by simpa using h, ?_⟩
          rintro c' r' ⟨⟩
          exact ⟨rfl, hc, fun h hl => hs ⟨h, hl⟩⟩
termination_by _ l => l.length

/-- Between quotes come characters of a string up to another quote, or to what ends no string. -/
theorem exists_quotes : ∀ (r : List Char) {v l : List Char}, Quotes v l → ∃ v' l' r',
    l ++ r = l' ++ r' ∧ Quotes v' l' ∧
      (r'.head? = some '"' ∨ r' = [] ∨ r' = ['\\'] ∨ r'.head? = some '\n')
  | [], v, l, h => ⟨v, l, [], rfl, h, .inr (.inl rfl)⟩
  | c :: r, v, l, h => by
      by_cases hq : c = '"'
      · exact ⟨v, l, c :: r, rfl, h, .inl (by rw [hq]; rfl)⟩
      by_cases hn : c = '\n'
      · exact ⟨v, l, c :: r, rfl, h, .inr (.inr (.inr (by rw [hn]; rfl)))⟩
      by_cases hb : c = '\\'
      · subst hb
        cases r with
        | nil => exact ⟨v, l, _, rfl, h, .inr (.inr (.inl rfl))⟩
        | cons d r =>
            obtain ⟨v', l', r', hr, hl⟩ := exists_quotes r (h.escaped d)
            exact ⟨v', l', r', by rw [← hr]; simp, hl⟩
      · obtain ⟨v', l', r', hr, hl⟩ := exists_quotes r (h.plain hq hb hn)
        exact ⟨v', l', r', by rw [← hr]; simp, hl⟩
termination_by r => r.length

/-- The characters start with a lexeme, as long as it can be, or with what is refused. -/
def Starts (l : List Char) : Prop :=
  (∃ (x : Lexeme) (w r : List Char), l = w ++ r ∧ x.Spelled w ∧ x ≠ .finish ∧
    ∀ d, r.head? = some d → ¬x.GoesOn d) ∨
  ∃ problem : ScanProblem, problem.Rejects l

theorem eq_false_of_head?_dropWhile {p : Char → Bool} {l : List Char} {d : Char}
    (h : (l.dropWhile p).head? = some d) : p d = false := by
  have hhead := List.head?_dropWhile_not p l
  rw [h] at hhead
  simpa using hhead

theorem starts_quote (r : List Char) : Starts ('"' :: r) := by
  obtain ⟨v, l, r', hl, hv, hr⟩ := exists_quotes r .nil
  rw [List.nil_append] at hl
  subst hl
  obtain hr | hr := hr
  · cases r' with
    | nil => cases hr
    | cons d r' =>
        cases hr
        exact .inl ⟨_, _, r', by simp, .text hv, nofun, fun _ _ hgo => hgo⟩
  · exact .inr ⟨_, .unterminatedText hv hr⟩

theorem starts_digit (h : Decimal.isDigit c = true) : Starts (c :: r) := by
  have hsplit : c :: r = c :: r.takeWhile Decimal.isDigit ++ r.dropWhile Decimal.isDigit := by
    rw [List.cons_append, List.takeWhile_append_dropWhile]
  have hdigits : ∀ d ∈ c :: r.takeWhile Decimal.isDigit, Decimal.isDigit d = true :=
    List.forall_mem_cons.2 ⟨h, fun d hd => List.mem_takeWhile_imp hd⟩
  have hrest : ∀ d, (r.dropWhile Decimal.isDigit).head? = some d → Decimal.isDigit d = false :=
    fun d => eq_false_of_head?_dropWhile
  cases hi : Decimal.ofInt? (Decimal.value (c :: r.takeWhile Decimal.isDigit)) with
  | some i =>
      refine .inl ⟨.integer i, _, _, hsplit, ?_, nofun, fun d hd hgo => ?_⟩
      · exact .integer (by simp) hdigits (Decimal.ofInt?_eq_some_iff.1 hi)
      · exact absurd hgo (by simp [Lexeme.GoesOn, hrest d hd])
  | none =>
      rw [hsplit]
      refine .inr ⟨_, .integerOutOfRange (by simp) hdigits hrest fun hr => ?_⟩
      rw [Decimal.ofInt?, if_pos hr] at hi
      cases hi

theorem starts_word (h : isWordStart c = true) : Starts (c :: r) := by
  refine .inl ⟨_, c :: r.takeWhile isWordPart, r.dropWhile isWordPart, ?_, .word h ?_, ?_, ?_⟩
  · rw [List.cons_append, List.takeWhile_append_dropWhile]
  · exact fun d hd => List.mem_takeWhile_imp hd
  · unfold Lexeme.ofWord
    split_ifs <;> nofun
  · intro d hd hgo
    rw [goesOn_ofWord, eq_false_of_head?_dropWhile hd] at hgo
    cases hgo

/-- Two symbols may be an operator; otherwise the first one is read by itself. -/
theorem starts_symbol (h : c ∈ openSymbols) (hs : c = '/' → r.head? ≠ some '/') :
    Starts (c :: r) := by
  by_cases hpair : ∃ d r' symbol, r = d :: r' ∧ pair? c d = some symbol
  · obtain ⟨d, r', symbol, rfl, hpair⟩ := hpair
    refine .inl ⟨_, [c, d], r', rfl, spelled_pair hpair, nofun, fun d' _ hgo => ?_⟩
    exact not_goesOn_pair hpair hgo
  · have hnext : ∀ d, r.head? = some d → ¬(Lexeme.operator c.toString).GoesOn d := by
      intro d hd hgo
      cases r with
      | nil => cases hd
      | cons d' r =>
          cases hd
          obtain hgo | ⟨rfl, rfl⟩ := goesOn_symbol.1 hgo
          · obtain ⟨symbol, hgo⟩ := Option.isSome_iff_exists.1 hgo
            exact hpair ⟨d, r, symbol, rfl, hgo⟩
          · exact hs rfl rfl
    by_cases hc : c = '&' ∨ c = '|'
    · refine .inr ⟨_, .undoubled hc fun hd => hnext c hd (goesOn_symbol.2 (.inl ?_))⟩
      obtain rfl | rfl := hc <;> rfl
    · obtain ⟨ha, ho⟩ := not_or.1 hc
      exact .inl ⟨_, [c], r, rfl, spelled_open h ha ho, nofun, hnext⟩

theorem starts_closed (h : c ∈ closedSymbols) : Starts (c :: r) := by
  refine .inl ⟨_, [c], r, rfl, spelled_closed h, nofun, fun d _ hgo => ?_⟩
  rw [goesOn_symbol] at hgo
  simp only [closedSymbols, List.mem_cons, List.not_mem_nil, or_false] at h
  rcases h with rfl | rfl | rfl | rfl | rfl <;> simp [pair?] at hgo

theorem starts_mark (h : c ∈ Lexeme.marks) : Starts (c :: r) :=
  .inl ⟨_, [c], r, rfl, .mark h, nofun, fun _ _ hgo => hgo⟩

/-- **What is no gap starts with a lexeme**, as long as it can be, or is refused. -/
theorem starts_of_not_gap (hb : c ∉ [' ', '\t', '\r', '\n'])
    (hs : c = '/' → r.head? ≠ some '/') : Starts (c :: r) := by
  by_cases hhead : c = '"' ∨ Decimal.isDigit c = true ∨ isWordStart c = true ∨ c ∈ openSymbols ∨
    c ∈ closedSymbols ∨ c ∈ Lexeme.marks
  · obtain rfl | h | h | h | h | h := hhead
    · exact starts_quote r
    · exact starts_digit h
    · exact starts_word h
    · exact starts_symbol h hs
    · exact starts_closed h
    · exact starts_mark h
  · refine .inr ⟨_, .unexpected (fun b hg => hb hg.mem_blanks) fun x l hx => hhead ?_⟩
    exact head_of_spelled hx

end Scanner
end ProtoScript
