import Mathlib.Data.Nat.Digits.Defs
import ProtoScript.Proofs.Dialogue
import ProtoScript.Proofs.OperatorRules
/-!
# Integers in lines

A line holds an integer if nothing but blanks stands around an optional sign and
at least one ASCII digit (`Text.Holds`).  What the digits denote is said by their
places, the last of them counting ones, and not by the way in which a reader goes
through them.

A program is told an integer exactly if the line that it is told holds one of 64
bits; every other line is an error, and the line is gone in both cases.  The line
in which an integer is printed holds it, so it can be told again
(`integer_lines`).
-/

namespace ProtoScript
namespace Decimal

/-- What digits denote by their places: the last one counts ones, the one before it tens. -/
def denoted (l : List Char) : Nat := Nat.ofDigits 10 (l.reverse.map digitValue)

/-- An integer in decimal: an optional sign and at least one ASCII digit. -/
inductive Numeral : List Char → Int → Prop where
  /-- There is no sign. -/
  | plain {l : List Char} (hl : l ≠ []) (hd : ∀ c ∈ l, isDigit c = true) :
      Numeral l (denoted l)
  /-- The sign is `+`. -/
  | plus {l : List Char} (hl : l ≠ []) (hd : ∀ c ∈ l, isDigit c = true) :
      Numeral ('+' :: l) (denoted l)
  /-- The sign is `-`. -/
  | minus {l : List Char} (hl : l ≠ []) (hd : ∀ c ∈ l, isDigit c = true) :
      Numeral ('-' :: l) (-denoted l)

/-- **Digits are read as what they denote.** -/
theorem value_eq_denoted (l : List Char) : value l = denoted l := by
  -- The reader takes digits from the front, and the last of them counts ones.
  induction l using List.reverseRecOn with
  | nil => rfl
  | append_singleton l c ih =>
      rw [value_append_digit, ih, denoted, denoted, List.reverse_append, List.reverse_singleton,
        List.singleton_append, List.map_cons, Nat.ofDigits_cons, Nat.add_comm]

theorem unsigned?_eq_some_iff {l : List Char} {n : Nat} :
    unsigned? l = some n ↔ (l ≠ [] ∧ ∀ c ∈ l, isDigit c = true) ∧ n = denoted l := by
  rw [unsigned?, Option.ite_none_right_eq_some, List.all_eq_true, value_eq_denoted,
    Option.some.injEq, eq_comm (a := n)]

theorem ne_sign_of_isDigit {c : Char} (h : isDigit c = true) : c ≠ '+' ∧ c ≠ '-' :=
  ⟨fun hc => absurd (hc ▸ h) (by decide), fun hc => absurd (hc ▸ h) (by decide)⟩

/-- **What is read are the integers in decimal**, and each as what it denotes. -/
theorem signed?_eq_some_iff {l : List Char} {n : Int} : signed? l = some n ↔ Numeral l n := by
  constructor
  · intro h
    fun_cases signed? l with
    | case1 l =>
        obtain ⟨k, hk, rfl⟩ := Option.map_eq_some_iff.1 h
        obtain ⟨⟨hl, hd⟩, rfl⟩ := unsigned?_eq_some_iff.1 hk
        exact .plus hl hd
    | case2 l =>
        obtain ⟨k, hk, rfl⟩ := Option.map_eq_some_iff.1 h
        obtain ⟨⟨hl, hd⟩, rfl⟩ := unsigned?_eq_some_iff.1 hk
        exact .minus hl hd
    | case3 l hplus hminus =>
        rw [signed?.eq_3 l hplus hminus] at h
        obtain ⟨k, hk, rfl⟩ := Option.map_eq_some_iff.1 h
        obtain ⟨⟨hl, hd⟩, rfl⟩ := unsigned?_eq_some_iff.1 hk
        exact .plain hl hd
  · intro h
    cases h with
    | plain hl hd =>
        have hread := unsigned?_eq_some_iff.2 ⟨⟨hl, hd⟩, rfl⟩
        obtain ⟨c, r, rfl⟩ := List.exists_cons_of_ne_nil hl
        have hc := ne_sign_of_isDigit (hd c (List.mem_cons_self ..))
        rw [signed?.eq_3 (c :: r) (fun _ h => hc.1 (List.cons.inj h).1)
          fun _ h => hc.2 (List.cons.inj h).1, hread]
        rfl
    | plus hl hd => rw [signed?, unsigned?_eq_some_iff.2 ⟨⟨hl, hd⟩, rfl⟩]; rfl
    | minus hl hd => rw [signed?, unsigned?_eq_some_iff.2 ⟨⟨hl, hd⟩, rfl⟩]; rfl

theorem Numeral.unique {l : List Char} {n k : Int} (h : Numeral l n) (h' : Numeral l k) :
    n = k :=
  Option.some.inj ((signed?_eq_some_iff.2 h).symm.trans (signed?_eq_some_iff.2 h'))

/-- **An integer in decimal is read if it has 64 bits.** -/
theorem read?_eq_some_iff {l : List Char} {i : Int64} : read? l = some i ↔ Numeral l i.toInt := by
  rw [read?, Option.bind_eq_some_iff]
  constructor
  · rintro ⟨n, hn, hi⟩
    rw [ofInt?_eq_some_iff.1 hi]
    exact signed?_eq_some_iff.1 hn
  · intro h
    exact ⟨i.toInt, signed?_eq_some_iff.2 h, ofInt?_eq_some_iff.2 rfl⟩

/-- **The written form of an integer denotes it.** -/
theorem numeral_chars (n : Int) : Numeral (chars n) n := by
  have hd : ∀ k, ∀ c ∈ digits k, isDigit c = true := fun k =>
    List.all_eq_true.1 (all_isDigit_digits k)
  have hk : ∀ k, denoted (digits k) = k := fun k => by rw [← value_eq_denoted, value_digits]
  cases n with
  | ofNat k =>
      have h := Numeral.plain (digits_ne_nil k) (hd k)
      rwa [hk] at h
  | negSucc k =>
      have h := Numeral.minus (digits_ne_nil (k + 1)) (hd (k + 1))
      rwa [hk] at h

end Decimal

/-! ### Blanks around an integer -/

namespace Text

/-- A text that neither starts nor ends with a blank. -/
def Bare (l : List Char) : Prop :=
  (∀ c ∈ l.head?, isBlank c = false) ∧ ∀ c ∈ l.getLast?, isBlank c = false

/-- **Blanks around a text are removed**, and nothing else. -/
theorem trim_between {before l after : List Char} (hb : ∀ c ∈ before, isBlank c = true)
    (ha : ∀ c ∈ after, isBlank c = true) (hl : Bare l) : trim (before ++ l ++ after) = l := by
  rw [trim, List.append_assoc, trimStart_append_blank hb]
  cases l with
  | nil =>
      have hafter : trimStart after = [] := by
        have h := trimStart_append_blank ha []
        rwa [List.append_nil] at h
      rw [List.nil_append, hafter]
      rfl
  | cons c r =>
      rw [List.cons_append, trimStart_of_not_blank (hl.1 c rfl), ← List.cons_append,
        trimEnd_append_blank _ ha, trimEnd_of_not_blank hl.2]

/-- What is removed from a text are blanks before and after the rest. -/
theorem exists_eq_trim (l : List Char) : ∃ before after, (∀ c ∈ before, isBlank c = true) ∧
    (∀ c ∈ after, isBlank c = true) ∧ l = before ++ trim l ++ after := by
  obtain ⟨after, ha, hafter⟩ := exists_eq_trimEnd_append (trimStart l)
  refine ⟨l.takeWhile isBlank, after, List.all_eq_true.1 List.all_takeWhile, ha, ?_⟩
  rw [trim, List.append_assoc, ← hafter, trimStart, List.takeWhile_append_dropWhile]

/-- A line in which nothing but blanks stands around an integer in decimal. -/
def Holds (line : String) (n : Int) : Prop :=
  ∃ before l after, line.toList = before ++ l ++ after ∧ (∀ c ∈ before, isBlank c = true) ∧
    (∀ c ∈ after, isBlank c = true) ∧ Decimal.Numeral l n

theorem isBlank_of_isDigit {c : Char} (h : Decimal.isDigit c = true) : isBlank c = false := by
  have hc : '0'.toNat ≤ c.toNat ∧ c.toNat ≤ '9'.toNat := of_decide_eq_true h
  have hblanks : ∀ k ∈ blanks, k < '0'.toNat ∨ '9'.toNat < k := by decide
  have hmem : c.toNat ∉ blanks := fun hmem => by
    have hk := hblanks c.toNat hmem
    omega
  simpa [isBlank] using hmem

/-- No character of an integer is blank. -/
theorem isBlank_of_mem_numeral {l : List Char} {n : Int} (h : Decimal.Numeral l n) :
    ∀ c ∈ l, isBlank c = false := by
  cases h with
  | plain _ hd => exact fun c hc => isBlank_of_isDigit (hd c hc)
  | plus _ hd =>
      rintro c (_ | ⟨_, hc⟩)
      · decide
      · exact isBlank_of_isDigit (hd c hc)
  | minus _ hd =>
      rintro c (_ | ⟨_, hc⟩)
      · decide
      · exact isBlank_of_isDigit (hd c hc)

theorem bare_of_numeral {l : List Char} {n : Int} (h : Decimal.Numeral l n) : Bare l :=
  ⟨fun c hc => isBlank_of_mem_numeral h c (List.mem_of_mem_head? hc),
    fun c hc => isBlank_of_mem_numeral h c (List.mem_of_mem_getLast? hc)⟩

/-- **What is left of a line without its blanks is the integer that it holds.** -/
theorem holds_iff {line : String} {n : Int} :
    Holds line n ↔ Decimal.Numeral (trim line.toList) n := by
  constructor
  · rintro ⟨before, l, after, hline, hb, ha, hl⟩
    rwa [hline, trim_between hb ha (bare_of_numeral hl)]
  · intro h
    obtain ⟨before, after, hb, ha, hline⟩ := exists_eq_trim line.toList
    exact ⟨before, _, after, hline, hb, ha, h⟩

theorem Holds.unique {line : String} {n k : Int} (h : Holds line n) (h' : Holds line k) : n = k :=
  (holds_iff.1 h).unique (holds_iff.1 h')

/-- The line in which an integer is printed holds it. -/
theorem holds_text (i : Int64) : Holds (Decimal.text i) i.toInt := by
  refine ⟨[], Decimal.chars i.toInt, [], ?_, nofun, nofun, Decimal.numeral_chars i.toInt⟩
  rw [Decimal.text, String.toList_ofList, List.nil_append, List.append_nil]

end Text

/-! ### Reading integers -/

/-- How a call ends that is to read an integer from `line`, where `after` is the machine on which
the line is gone. -/
structure ReadsInteger (line : String) (after : Machine)
    (result : EStateM.Result Halt Machine Value) : Prop where
  /-- It has a value exactly if the line holds an integer of 64 bits, and this is its value. -/
  value : ∀ v m, result = .ok v m ↔
    m = after ∧ ∃ i : Int64, v = .int i ∧ Text.Holds line i.toInt
  /-- It halts exactly if the line holds no integer of 64 bits. -/
  failure : ∀ halt m, result = .error halt m ↔
    m = after ∧ halt = .failed ⟨.notAnInteger line, []⟩ ∧
      ∀ n : Int, -2 ^ 63 ≤ n → n ≤ 2 ^ 63 - 1 → ¬Text.Holds line n
  /-- The line is of the wrong type then. -/
  kind : (Fault.notAnInteger line).kind = .type

theorem Eval.readsInteger (line : String) (after : Machine) :
    ReadsInteger line after (integerOf line after) := by
  have hholds : ∀ i : Int64, Decimal.read? (Text.trim line.toList) = some i ↔
      Text.Holds line i.toInt := fun i => by
    rw [Decimal.read?_eq_some_iff, Text.holds_iff]
  unfold integerOf
  cases hread : Decimal.read? (Text.trim line.toList) with
  | some i =>
      have hline := (hholds i).1 hread
      refine ⟨fun v m => ?_, fun halt m => ?_, rfl⟩
      · constructor
        · intro h
          cases h
          exact ⟨rfl, i, rfl, hline⟩
        · rintro ⟨rfl, j, rfl, hj⟩
          rw [Int64.toInt_inj.1 (hj.unique hline)]
          rfl
      · constructor
        · intro h
          cases h
        · rintro ⟨-, -, hnone⟩
          have hi := Operation.inRange_toInt i
          exact absurd hline (hnone i.toInt hi.1 (by omega))
  | none =>
      have hline : ∀ i : Int64, ¬Text.Holds line i.toInt := fun i h => by
        rw [(hholds i).2 h] at hread
        cases hread
      refine ⟨fun v m => ?_, fun halt m => ?_, rfl⟩
      · constructor
        · intro h
          cases h
        · rintro ⟨-, i, -, hi⟩
          exact absurd hi (hline i)
      · constructor
        · intro h
          cases h
          refine ⟨rfl, rfl, fun n hmin hmax hn => ?_⟩
          have hrange : Decimal.InRange n := (Operation.inRange_iff n).2 ⟨hmin, by omega⟩
          have hi := Decimal.ofInt?_eq_some_iff.1 (if_pos hrange)
          exact hline _ (hi ▸ hn)
        · rintro ⟨rfl, rfl, -⟩
          rfl

/-- **A program is told the integers of 64 bits**, in all their spellings and between blanks, and
what it prints of them it can be told. -/
theorem integer_lines {k : Nat} {m m' : Machine} {prompt : Option Expr} {shown : List String}
    (h : Prompts k m prompt shown m') :
    (∀ line rest, m'.console.pending = line :: rest →
      ReadsInteger line (m'.said shown rest)
        (perform (k + 3) (.call (.question .readInteger prompt)) m)) ∧
    (m'.console.pending = [] →
      perform (k + 3) (.call (.question .readInteger prompt)) m
        = .error (.failed ⟨.endOfInput .readInteger, []⟩) (m'.said shown [])) ∧
    ∀ i : Int64,
      (∀ (j : Nat) (e : Expr) (m₁ m₂ : Machine), perform j (.evaluate e) m₁ = .ok (.int i) m₂ →
        perform (j + 3) (.call (.printing e)) m₁
          = .ok .nil (m₂.said [Decimal.text i] m₂.console.pending)) ∧
      ∀ rest, m'.console.pending = Decimal.text i :: rest →
        perform (k + 3) (.call (.question .readInteger prompt)) m
          = .ok (.int i) (m'.said shown rest) := by
  have hreader : Builtin.readInteger ≠ .print := nofun
  have hreads : ∀ line rest, m'.console.pending = line :: rest →
      ReadsInteger line (m'.said shown rest)
        (perform (k + 3) (.call (.question .readInteger prompt)) m) := by
    intro line rest hp
    rw [perform_question_answered hreader h hp]
    exact Eval.readsInteger line (m'.said shown rest)
  refine ⟨hreads, perform_question_end hreader h, fun i => ⟨fun j e m₁ m₂ => perform_printing, ?_⟩⟩
  intro rest hp
  exact ((hreads (Decimal.text i) rest hp).value _ _).2 ⟨rfl, i, rfl, Text.holds_text i⟩

/-- A machine with lines to be read. -/
def Machine.listening (lines : List String) : Machine := .initial { pending := lines }

/-- After a prompt 7 is read, with a sign, leading zeros and blanks, a no-break space among them;
2^63 is refused; the least integer is printed and read. -/
theorem integer_lines_spellings :
    perform 4 (.call (.question .readInteger (some (.text "n?"))))
        (.listening ["\u00A0+007\t", "x"])
      = .ok (.int 7) ((Machine.listening []).said ["n?"] ["x"]) ∧
    perform 3 (.call (.question .readInteger none)) (.listening ["9223372036854775808"])
      = .error (.failed ⟨.notAnInteger "9223372036854775808", []⟩) (.listening []) ∧
    perform 4 (.call (.printing (.int Int64.minValue))) (.listening [])
      = .ok .nil ((Machine.listening []).said ["-9223372036854775808"] []) ∧
    perform 3 (.call (.question .readInteger none)) (.listening ["-9223372036854775808"])
      = .ok (.int Int64.minValue) (.listening []) := by
  have hseven : Text.Holds "\u00A0+007\t" 7 :=
    Text.holds_iff.2 (Decimal.signed?_eq_some_iff.1 (by decide +kernel))
  have hlarge : Text.Holds "9223372036854775808" (2 ^ 63) :=
    Text.holds_iff.2 (Decimal.signed?_eq_some_iff.1 (by decide +kernel))
  have hleast : Decimal.text Int64.minValue = "-9223372036854775808" := by decide +kernel
  have hprompt : Prompts 1 (.listening ["\u00A0+007\t", "x"]) (some (.text "n?")) ["n?"]
      (.listening ["\u00A0+007\t", "x"]) := .prompt (v := .text "n?") rfl
  have hsilent : Prompts 0 (.listening ["-9223372036854775808"]) none []
      (.listening ["-9223372036854775808"]) := .silent
  obtain ⟨hprint, hread⟩ := (integer_lines hsilent).2.2 Int64.minValue
  rw [hleast] at hprint hread
  refine ⟨(((integer_lines hprompt).1 _ _ rfl).value _ _).2 ⟨rfl, 7, rfl, hseven⟩,
    (((integer_lines .silent).1 _ _ rfl).failure _ _).2 ⟨rfl, rfl, fun n _ hmax hn => ?_⟩,
    hprint 1 (.int Int64.minValue) _ _ rfl, hread [] rfl⟩
  have hn := hn.unique hlarge
  omega

end ProtoScript
