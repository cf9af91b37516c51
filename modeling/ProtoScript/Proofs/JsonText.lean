import Mathlib.Data.List.TakeDrop
import ProtoScript.Json.Read
import ProtoScript.Json.Write
/-!
# Reading JSON that was written

The two written forms of a value differ in the blanks between its parts alone, so
both are cases of one form in which the blanks are given (`Json.Spacing`).  Reading
gives back every value all whose numbers are integers (`Json.value_spaced`,
`Json.Exact`): a string is the only place where a character stands for another
one, and an integer the only part whose end is not marked, so what follows it must
not go on like a number (`Json.Ends`).

How deep a text nests is counted without reading it, bracket by bracket, where
brackets inside strings do not count (`Json.nesting`).  Of a written text this is
the depth of the value (`Json.nesting_spaced`).
-/

namespace ProtoScript
namespace Json

/-! ### Strings -/

/-- A code unit for each character of a string: the character, or its number if it is written with
hexadecimal digits. -/
def unit (c : Char) : Char ⊕ Nat :=
  if c.toNat < 0x20 ∧ c ∉ ['\n', '\r', '\t', '\x08', '\x0c'] then .inr c.toNat else .inl c

theorem hexValue4?_hexDigit {n : Nat} (h : n < 0x20) :
    hexValue4? '0' '0' (hexDigit (n / 16)) (hexDigit n) = some n := by
  have hall : ∀ k : Fin 0x20,
      hexValue4? '0' '0' (hexDigit (k.val / 16)) (hexDigit k.val) = some k.val := by decide
  exact hall ⟨n, h⟩

/-- A letter after a backslash stands for a character. -/
theorem units_escaped {e c : Char} (h : escaped? e = some c) (l : List Char) :
    units ('\\' :: e :: l) = (units l).map fun r => (.inl c :: r.1, r.2) := by
  have he : e ≠ 'u' := by
    rintro rfl
    cases h
  rw [units, h]
  · cases units l <;> rfl
  · exact fun _ _ _ _ _ hu _ => he hu

/-- The written form of a character is read as its unit. -/
theorem units_escape (c : Char) (l : List Char) :
    units (escape c ++ l) = (units l).map fun r => (unit c :: r.1, r.2) := by
  unfold escape
  -- Seven characters have a letter of their own; the other control characters have their number.
  repeat' split
  · next h => subst h; exact units_escaped rfl l
  · next h => subst h; exact units_escaped rfl l
  · next h => subst h; exact units_escaped rfl l
  · next h => subst h; exact units_escaped rfl l
  · next h => subst h; exact units_escaped rfl l
  · next h => subst h; exact units_escaped rfl l
  · next h => subst h; exact units_escaped rfl l
  · next hn hr ht hb hf h =>
      have hu : unit c = .inr c.toNat := if_pos ⟨h, by simp [hn, hr, ht, hb, hf]⟩
      rw [hu]
      simp only [List.cons_append, List.nil_append, units, hexValue4?_hexDigit h]
      cases units l <;> rfl
  · next hq hs _ _ _ _ _ h =>
      have hu : unit c = .inl c := if_neg fun hc => h hc.1
      rw [hu, List.singleton_append, units, if_neg (not_or.2 ⟨h, hs⟩)]
      · cases units l <;> rfl
      · exact hq
      · exact fun _ _ _ _ _ hc _ => hs hc
      · exact fun _ _ hc _ => hs hc

theorem units_quotedTail (l rest : List Char) :
    units (quotedTail l rest) = some (l.map unit, rest) := by
  induction l with
  | nil => rfl
  | cons c l ih =>
      change units (escape c ++ quotedTail l rest) = _
      rw [units_escape, ih]
      rfl

/-- A unit below the surrogates denotes the character with its number. -/
theorem characters?_inr {u : Nat} (hu : u < 0x20) (l : List (Char ⊕ Nat)) :
    characters? (.inr u :: l) = (characters? l).map (Char.ofNat u :: ·) := by
  have hh : ¬IsHigh u := fun h => by
    have := h.1
    omega
  have hl : ¬IsLow u := fun h => by
    have := h.1
    omega
  have hor : ¬(IsHigh u ∨ IsLow u) := not_or.2 ⟨hh, hl⟩
  cases l with
  | nil => simp [characters?, hor]
  | cons x l =>
      cases x with
      | inl c => simp [characters?, hor]
      | inr v => rw [characters?, if_neg fun h => hh h.1, if_neg hor]

/-- The units of a string denote its characters. -/
theorem characters?_units (l : List Char) : characters? (l.map unit) = some l := by
  induction l with
  | nil => rfl
  | cons c l ih =>
      rw [List.map_cons]
      by_cases h : c.toNat < 0x20 ∧ c ∉ ['\n', '\r', '\t', '\x08', '\x0c']
      · rw [unit, if_pos h, characters?_inr h.1, ih, Option.map_some, Char.ofNat_toNat]
      · rw [unit, if_neg h, characters?, ih, Option.map_some]

theorem stringTail_surrogate (rest : List Char) :
    stringTail ('\\' :: 'u' :: 'd' :: '8' :: '0' :: '0' :: '"' :: rest) = some (none, rest) := by
  have hx : hexValue4? 'd' '8' '0' '0' = some 0xD800 := by decide
  simp [stringTail, units, hx, characters?]

/-- **A string is read as it was written**, also one that has no text. -/
theorem stringTail_quoted (s : Option String) (rest : List Char) :
    ∃ l, quoted s rest = '"' :: l ∧ stringTail l = some (s, rest) := by
  cases s with
  | none => exact ⟨_, rfl, stringTail_surrogate rest⟩
  | some s =>
      refine ⟨_, rfl, ?_⟩
      rw [stringTail, units_quotedTail, Option.map_some]
      simp [characters?_units]

/-! ### Integers -/

/-- What follows does not go on like a number. -/
def Ends (rest : List Char) : Prop :=
  ∀ c, rest.head? = some c → Decimal.isDigit c = false ∧ c ∉ ['.', 'e', 'E']

/-- The first digit of a positive number is not zero. -/
theorem digits_head {n : Nat} (hn : n ≠ 0) : ∃ d l, Decimal.digits n = d :: l ∧ d ≠ '0' := by
  fun_induction Decimal.digits n with
  | case1 n h =>
      refine ⟨_, [], rfl, fun hd => hn ?_⟩
      have hv : Decimal.digitValue (Decimal.digit n) = 0 := by
        rw [hd]
        rfl
      rw [Decimal.digitValue_digit] at hv
      omega
  | case2 n h ih =>
      obtain ⟨d, l, hl, hd⟩ := ih (by omega)
      exact ⟨d, l ++ [Decimal.digit n], by rw [hl, List.cons_append], hd⟩

/-- Digits are read to their end. -/
theorem digits1_digits (n : Nat) {rest : List Char} (hr : Ends rest) :
    digits1 (Decimal.digits n ++ rest) = some (Decimal.digits n, rest) := by
  have hall : ∀ c ∈ Decimal.digits n, Decimal.isDigit c = true :=
    List.all_eq_true.1 (Decimal.all_isDigit_digits n)
  have hspan : (Decimal.digits n ++ rest).span Decimal.isDigit = (Decimal.digits n, rest) := by
    rw [List.span_eq_takeWhile_dropWhile, List.takeWhile_append_of_pos hall,
      List.dropWhile_append_of_pos hall]
    cases rest with
    | nil => simp
    | cons c rest => simp [(hr c rfl).1]
  rw [digits1, hspan]
  split
  · next h => exact absurd (congrArg Prod.fst h) (Decimal.digits_ne_nil n)
  · next h => exact congrArg some h.symm

theorem wholePart_digits (n : Nat) {rest : List Char} (hr : Ends rest) :
    wholePart (Decimal.digits n ++ rest) = some (Decimal.digits n, rest) := by
  by_cases hn : n = 0
  · subst hn
    have h0 : Decimal.digits 0 = ['0'] := by
      rw [Decimal.digits]
      rfl
    rw [h0]
    rfl
  · obtain ⟨d, l, hl, hd⟩ := digits_head hn
    rw [← digits1_digits n hr, hl, List.cons_append, wholePart]
    exact fun _ h => hd (List.cons.inj h).1

theorem fraction_of_ends {rest : List Char} (hr : Ends rest) : fraction rest = some ([], rest) := by
  cases rest with
  | nil => rfl
  | cons c rest =>
      rw [fraction]
      rintro _ h
      obtain ⟨rfl, -⟩ := List.cons.inj h
      exact (hr '.' rfl).2 (by decide)

theorem exponent_of_ends {rest : List Char} (hr : Ends rest) : exponent rest = some ([], rest) := by
  cases rest with
  | nil => rfl
  | cons c rest =>
      have hc : ¬(c = 'e' ∨ c = 'E') := by
        rintro (rfl | rfl) <;> exact (hr _ rfl).2 (by decide)
      simp only [exponent, if_neg hc]

/-- The digits of a number are read as the number; `0` has no sign. -/
theorem unsigned_digits {negative : Bool} {n : Nat} (hn : negative = true → n ≠ 0)
    {rest : List Char} (hr : Ends rest) : unsigned negative (Decimal.digits n ++ rest)
      = some (.int (if negative then -(n : Int) else n), rest) := by
  have hz : ¬(negative = true ∧ Decimal.digits n = ['0']) := by
    rintro ⟨hneg, h⟩
    have hv := Decimal.value_digits n
    rw [h] at hv
    exact hn hneg hv.symm
  simp only [unsigned, wholePart_digits n hr, fraction_of_ends hr, exponent_of_ends hr,
    Option.bind_eq_bind, Option.bind_some, numberOf, Decimal.value_digits]
  rw [if_pos ⟨trivial, trivial, hz⟩]
  rfl

/-- The characters with which an integer starts. -/
theorem chars_head (n : Int) :
    ∃ c l, Decimal.chars n = c :: l ∧ (c = '-' ∨ Decimal.isDigit c = true) := by
  cases n with
  | ofNat n =>
      cases h : Decimal.digits n with
      | nil => exact absurd h (Decimal.digits_ne_nil n)
      | cons c l =>
          refine ⟨c, l, h, .inr (List.all_eq_true.1 (Decimal.all_isDigit_digits n) c ?_)⟩
          rw [h]
          exact List.mem_cons_self
  | negSucc n => exact ⟨'-', _, rfl, .inl rfl⟩

/-- **An integer is read as it was written.** -/
theorem number_chars (n : Int) {rest : List Char} (hr : Ends rest) :
    number (Decimal.chars n ++ rest) = some (.int n, rest) := by
  cases n with
  | ofNat n =>
      have hneg : (false : Bool) = true → n ≠ 0 := fun h => absurd h Bool.false_ne_true
      refine Eq.trans ?_ (unsigned_digits hneg hr)
      rw [Decimal.chars, number]
      -- Only a sign leads the reader elsewhere, and a digit is none.
      intro r h
      cases hd : Decimal.digits n with
      | nil => exact absurd hd (Decimal.digits_ne_nil n)
      | cons c l =>
          have hc : Decimal.isDigit c = true :=
            List.all_eq_true.1 (Decimal.all_isDigit_digits n) c (hd ▸ List.mem_cons_self)
          rw [hd] at h
          obtain ⟨rfl, -⟩ := List.cons.inj h
          revert hc
          decide
  | negSucc n => exact unsigned_digits (fun _ => n.succ_ne_zero) hr

/-! ### Values -/

/-- The blanks between the parts of a value: how a line starts at each level of indentation, and
what follows a colon. -/
structure Spacing where
  /-- The start of a line. -/
  line : Nat → List Char
  /-- What follows a colon. -/
  colon : List Char
  blank_line : ∀ level, ∀ c ∈ line level, isBlank c = true
  blank_colon : ∀ c ∈ colon, isBlank c = true

/-- No blanks. -/
def Spacing.compact : Spacing where
  line _ := []
  colon := []
  blank_line _ := List.forall_mem_nil _
  blank_colon := List.forall_mem_nil _

/-- A line for each part, two blanks further in than the bracket that holds it. -/
def Spacing.indented : Spacing where
  line level := '\n' :: List.replicate (2 * level) ' '
  colon := [' ']
  blank_line level c hc := by
    obtain rfl | hc := List.mem_cons.1 hc
    · rfl
    · rw [List.eq_of_mem_replicate hc]
      rfl
  blank_colon := List.forall_mem_singleton.2 rfl

variable (s : Spacing)

mutual

/-- A value with blanks between its parts, its brackets at the given level, before `rest`. -/
def spaced (level : Nat) : Json → List Char → List Char
  | .arr [], rest => '[' :: ']' :: rest
  | .arr (j :: l), rest =>
      '[' :: (s.line (level + 1) ++ spaced (level + 1) j (spacedElements level l rest))
  | .obj [], rest => '\x7b' :: '\x7d' :: rest
  | .obj ((k, j) :: l), rest =>
      '\x7b' :: (s.line (level + 1) ++
        quoted k (':' :: (s.colon ++ spaced (level + 1) j (spacedMembers level l rest))))
  | .null, rest => leaf .null rest
  | .bool b, rest => leaf (.bool b) rest
  | .int n, rest => leaf (.int n) rest
  | .real l, rest => leaf (.real l) rest
  | .str t, rest => leaf (.str t) rest

/-- The further elements of an array, and its end, before `rest`. -/
def spacedElements (level : Nat) : List Json → List Char → List Char
  | [], rest => s.line level ++ ']' :: rest
  | j :: l, rest =>
      ',' :: (s.line (level + 1) ++ spaced (level + 1) j (spacedElements level l rest))

/-- The further members of an object, and its end, before `rest`. -/
def spacedMembers (level : Nat) : List (Option String × Json) → List Char → List Char
  | [], rest => s.line level ++ '\x7d' :: rest
  | (k, j) :: l, rest =>
      ',' :: (s.line (level + 1) ++
        quoted k (':' :: (s.colon ++ spaced (level + 1) j (spacedMembers level l rest))))

end

mutual

/-- **The compact form is the one without blanks.** -/
theorem compact_eq : ∀ (j : Json) (level : Nat) (rest : List Char),
    compact j rest = spaced .compact level j rest
  | .arr [], _, _ => rfl
  | .arr (j :: l), level, rest => by
      rw [compact, compactElements_eq l level, compact_eq j (level + 1), spaced]
      rfl
  | .obj [], _, _ => rfl
  | .obj ((_, j) :: l), level, rest => by
      rw [compact, compactMembers_eq l level, compact_eq j (level + 1), spaced]
      rfl
  | .null, _, _ | .bool _, _, _ | .int _, _, _ | .real _, _, _ | .str _, _, _ => rfl

theorem compactElements_eq : ∀ (l : List Json) (level : Nat) (rest : List Char),
    compactElements l rest = spacedElements .compact level l rest
  | [], _, _ => rfl
  | j :: l, level, rest => by
      rw [compactElements, compactElements_eq l level, compact_eq j (level + 1), spacedElements]
      rfl

theorem compactMembers_eq : ∀ (l : List (Option String × Json)) (level : Nat) (rest : List Char),
    compactMembers l rest = spacedMembers .compact level l rest
  | [], _, _ => rfl
  | (_, j) :: l, level, rest => by
      rw [compactMembers, compactMembers_eq l level, compact_eq j (level + 1), spacedMembers]
      rfl

end

mutual

/-- **The indented form is the one with lines.** -/
theorem indented_eq : ∀ (j : Json) (level : Nat) (rest : List Char),
    indented level j rest = spaced .indented level j rest
  | .arr [], _, _ => rfl
  | .arr (j :: l), level, rest => by
      rw [indented, indentedElements_eq l level, indented_eq j (level + 1), spaced]
      rfl
  | .obj [], _, _ => rfl
  | .obj ((_, j) :: l), level, rest => by
      rw [indented, indentedMembers_eq l level, indented_eq j (level + 1), spaced]
      rfl
  | .null, _, _ | .bool _, _, _ | .int _, _, _ | .real _, _, _ | .str _, _, _ => rfl

theorem indentedElements_eq : ∀ (l : List Json) (level : Nat) (rest : List Char),
    indentedElements level l rest = spacedElements .indented level l rest
  | [], _, _ => rfl
  | j :: l, level, rest => by
      rw [indentedElements, indentedElements_eq l level, indented_eq j (level + 1), spacedElements]
      rfl

theorem indentedMembers_eq : ∀ (l : List (Option String × Json)) (level : Nat) (rest : List Char),
    indentedMembers level l rest = spacedMembers .indented level l rest
  | [], _, _ => rfl
  | (_, j) :: l, level, rest => by
      rw [indentedMembers, indentedMembers_eq l level, indented_eq j (level + 1), spacedMembers]
      rfl

end

mutual

/-- All numbers of the value are integers. -/
def Exact : Json → Prop
  | .arr l => ExactElements l
  | .obj l => ExactMembers l
  | .real _ => False
  | .null | .bool _ | .int _ | .str _ => True

/-- All numbers of the elements are integers. -/
def ExactElements : List Json → Prop
  | [] => True
  | j :: l => Exact j ∧ ExactElements l

/-- All numbers of the members are integers. -/
def ExactMembers : List (Option String × Json) → Prop
  | [] => True
  | (_, j) :: l => Exact j ∧ ExactMembers l

end

mutual

/-- The number of readers that are at work one inside the other at most, an element or member being
read inside the one before it. -/
def parts : Json → Nat
  | .arr l => partsElements l + 1
  | .obj l => partsMembers l + 1
  | .null | .bool _ | .int _ | .real _ | .str _ => 1

/-- The same for the elements of an array. -/
def partsElements : List Json → Nat
  | [] => 0
  | j :: l => parts j + partsElements l + 1

/-- The same for the members of an object. -/
def partsMembers : List (Option String × Json) → Nat
  | [] => 0
  | (_, j) :: l => parts j + partsMembers l + 1

end

variable {s}

theorem skip_append {l : List Char} (h : ∀ c ∈ l, isBlank c = true) (r : List Char) :
    skip (l ++ r) = skip r :=
  List.dropWhile_append_of_pos h

theorem skip_cons {c : Char} (h : isBlank c = false) (r : List Char) : skip (c :: r) = c :: r :=
  List.dropWhile_cons_of_neg (by simp [h])

/-- An integer starts neither like a blank nor like anything but an integer. -/
theorem isBlank_of_head {c : Char} (hc : c = '-' ∨ Decimal.isDigit c = true) :
    isBlank c = false := by
  refine Bool.eq_false_iff.2 fun hb => ?_
  simp only [isBlank, Bool.or_eq_true, beq_iff_eq] at hb
  rcases hb with ((rfl | rfl) | rfl) | rfl <;> revert hc <;> decide

theorem ne_of_head {c d : Char} (hc : c = '-' ∨ Decimal.isDigit c = true)
    (hd : ¬(d = '-' ∨ Decimal.isDigit d = true)) : c ≠ d := by
  rintro rfl
  exact hd hc

/-- A value begins with a character that is neither a blank nor the end of an array. -/
theorem spaced_head {j : Json} (hj : j.Exact) (level : Nat) (rest : List Char) :
    ∃ c l, spaced s level j rest = c :: l ∧ isBlank c = false ∧ c ≠ ']' := by
  cases j with
  | null => exact ⟨_, _, rfl, by decide, by decide⟩
  | bool b => cases b <;> exact ⟨_, _, rfl, by decide, by decide⟩
  | int n =>
      obtain ⟨c, l, hl, hc⟩ := chars_head n
      exact ⟨c, l ++ rest, by rw [spaced, leaf, hl, List.cons_append], isBlank_of_head hc,
        ne_of_head hc (by decide)⟩
  | real => exact hj.elim
  | str t =>
      obtain ⟨l, hl, -⟩ := stringTail_quoted t rest
      exact ⟨_, _, hl, by decide, by decide⟩
  | arr l => cases l <;> exact ⟨_, _, rfl, by decide, by decide⟩
  | obj l => cases l <;> exact ⟨_, _, rfl, by decide, by decide⟩

theorem skip_quoted (t : Option String) (rest : List Char) :
    skip (quoted t rest) = quoted t rest := by
  obtain ⟨l, hl, -⟩ := stringTail_quoted t rest
  rw [hl, skip_cons (by decide)]

theorem skip_spaced {j : Json} (hj : j.Exact) (level : Nat) (rest : List Char) :
    skip (spaced s level j rest) = spaced s level j rest := by
  obtain ⟨c, l, hl, hc, -⟩ := spaced_head (s := s) hj level rest
  rw [hl, skip_cons hc]

theorem ends_of_head {l : List Char} {c : Char} (h : l.head? = some c)
    (hc : Decimal.isDigit c = false ∧ c ∉ ['.', 'e', 'E']) : Ends l := by
  intro d hd
  obtain rfl := Option.some.inj (h.symm.trans hd)
  exact hc

/-- A blank ends an integer, and so do brackets and commas. -/
theorem ends_blank_append {l r : List Char} (hl : ∀ c ∈ l, isBlank c = true) (hr : Ends r) :
    Ends (l ++ r) := by
  cases l with
  | nil => exact hr
  | cons c l =>
      refine ends_of_head rfl ?_
      have hc := hl c List.mem_cons_self
      simp only [isBlank, Bool.or_eq_true, beq_iff_eq] at hc
      rcases hc with ((rfl | rfl) | rfl) | rfl <;> decide

theorem ends_spacedElements (level : Nat) (l : List Json) (rest : List Char) :
    Ends (spacedElements s level l rest) := by
  cases l with
  | nil => exact ends_blank_append (s.blank_line level) (ends_of_head rfl (by decide))
  | cons => exact ends_of_head rfl (by decide)

theorem ends_spacedMembers (level : Nat) (l : List (Option String × Json)) (rest : List Char) :
    Ends (spacedMembers s level l rest) := by
  cases l with
  | nil => exact ends_blank_append (s.blank_line level) (ends_of_head rfl (by decide))
  | cons => exact ends_of_head rfl (by decide)

/-- What starts like an integer is read as a number. -/
theorem value_of_head {c : Char} (hc : c = '-' ∨ Decimal.isDigit c = true) (n : Nat)
    (l : List Char) : value (n + 1) (c :: l) = number (c :: l) := by
  rw [value]
  · exact fun _ h => ne_of_head hc (d := 'n') (by decide) (List.cons.inj h).1
  · exact fun _ h => ne_of_head hc (d := 't') (by decide) (List.cons.inj h).1
  · exact fun _ h => ne_of_head hc (d := 'f') (by decide) (List.cons.inj h).1
  · exact fun _ h => ne_of_head hc (d := '"') (by decide) (List.cons.inj h).1
  · exact fun _ h => ne_of_head hc (d := '[') (by decide) (List.cons.inj h).1
  · exact fun _ h => ne_of_head hc (d := '\x7b') (by decide) (List.cons.inj h).1

theorem value_bracket {l t : List Char} (h : skip l = t) (ht : t.head? ≠ some ']') (n : Nat) :
    value (n + 1) ('[' :: l) = (elements n t).map fun (l, r) => (.arr l, r) := by
  rw [value, h]
  split
  · exact absurd rfl ht
  · rfl

theorem value_brace {l t : List Char} (h : skip l = t) (ht : t.head? ≠ some '\x7d') (n : Nat) :
    value (n + 1) ('\x7b' :: l) = (members n t).map fun (l, r) => (.obj l, r) := by
  rw [value, h]
  split
  · exact absurd rfl ht
  · rfl

section

variable {n : Nat} {l t r r' : List Char} {k : Option String} {j : Json}

/-- After a value the array ends. -/
theorem elements_end (h : value n l = some (j, r)) (hr : skip r = ']' :: r') :
    elements (n + 1) l = some ([j], r') := by
  simp [elements, h, hr]

/-- After a value the array goes on. -/
theorem elements_next (h : value n l = some (j, r)) (hr : skip r = ',' :: r') :
    elements (n + 1) l = (elements n (skip r')).map fun (l, r) => (j :: l, r) := by
  simp [elements, h, hr]

/-- After a key and a value the object ends. -/
theorem members_end (hk : stringTail l = some (k, ':' :: t)) (h : value n (skip t) = some (j, r))
    (hr : skip r = '\x7d' :: r') : members (n + 1) ('"' :: l) = some ([(k, j)], r') := by
  have hcolon : skip (':' :: t) = ':' :: t := skip_cons (by decide) t
  simp [members, hk, hcolon, h, hr]

/-- After a key and a value the object goes on. -/
theorem members_next (hk : stringTail l = some (k, ':' :: t)) (h : value n (skip t) = some (j, r))
    (hr : skip r = ',' :: r') : members (n + 1) ('"' :: l)
      = (members n (skip r')).map fun (l, r) => ((k, j) :: l, r) := by
  have hcolon : skip (':' :: t) = ':' :: t := skip_cons (by decide) t
  simp [members, hk, hcolon, h, hr]

end

theorem parts_pos (j : Json) : 0 < j.parts := by
  cases j <;> exact Nat.succ_pos _

-- The recursion is the one of the writer.  Each reader is left with one less to spend, and the
-- elements after the first are read inside the reader of the first, hence the count of `parts`.
mutual

/-- **A value is read as it was written**, whatever follows it. -/
theorem value_spaced : ∀ {j : Json} {n : Nat} (level : Nat) {rest : List Char},
    j.Exact → j.parts ≤ n → Ends rest → value n (spaced s level j rest) = some (j, rest)
  | j, 0, _, _, _, hn, _ => absurd j.parts_pos (Nat.not_lt_of_le hn)
  | .null, _ + 1, _, _, _, _, _ => rfl
  | .bool true, _ + 1, _, _, _, _, _ => rfl
  | .bool false, _ + 1, _, _, _, _, _ => rfl
  | .int i, n + 1, _, rest, _, _, hr => by
      obtain ⟨c, l, hl, hc⟩ := chars_head i
      rw [← number_chars i hr, spaced, leaf, hl, List.cons_append, value_of_head hc]
  | .real _, _ + 1, _, _, hj, _, _ => hj.elim
  | .str t, _ + 1, _, rest, _, _, _ => by
      obtain ⟨l, hl, ht⟩ := stringTail_quoted t rest
      rw [spaced, leaf, hl, value, ht]
      rfl
  | .arr [], _ + 1, _, _, _, _, _ => rfl
  | .arr (j :: l), n + 1, level, rest, hj, hn, _ => by
      have hskip := (skip_append (s.blank_line (level + 1)) _).trans
        (skip_spaced (s := s) hj.1 (level + 1) (spacedElements s level l rest))
      obtain ⟨c, t, ht, -, hc⟩ := spaced_head (s := s) hj.1 (level + 1)
        (spacedElements s level l rest)
      rw [spaced, value_bracket hskip,
        elements_spaced level rest hj.1 hj.2 (Nat.le_of_succ_le_succ hn), Option.map_some]
      rw [ht]
      simpa using hc
  | .obj [], _ + 1, _, _, _, _, _ => rfl
  | .obj ((k, j) :: l), n + 1, level, rest, hj, hn, _ => by
      obtain ⟨t, ht, -⟩ := stringTail_quoted k
        (':' :: (s.colon ++ spaced s (level + 1) j (spacedMembers s level l rest)))
      have hskip := (skip_append (s.blank_line (level + 1)) _).trans (skip_quoted k
        (':' :: (s.colon ++ spaced s (level + 1) j (spacedMembers s level l rest))))
      rw [spaced, value_brace hskip,
        members_spaced level rest hj.1 hj.2 (Nat.le_of_succ_le_succ hn), Option.map_some]
      rw [ht]
      simp

/-- The elements of an array, at least one, are read as they were written. -/
theorem elements_spaced : ∀ {l : List Json} {j : Json} {n : Nat} (level : Nat) (rest : List Char),
    j.Exact → ExactElements l → partsElements (j :: l) ≤ n →
      elements n (spaced s (level + 1) j (spacedElements s level l rest)) = some (j :: l, rest)
  | _, _, 0, _, _, _, _, hn => absurd hn (Nat.not_succ_le_zero _)
  | [], j, n + 1, level, rest, hj, _, hn => by
      have hj' : j.parts ≤ n := Nat.le_of_succ_le_succ hn
      refine elements_end (value_spaced _ hj hj' (ends_spacedElements level [] rest)) ?_
      rw [spacedElements, skip_append (s.blank_line _), skip_cons (by decide)]
  | k :: l, j, n + 1, level, rest, hj, hl, hn => by
      have hn' : j.parts + partsElements (k :: l) ≤ n := Nat.le_of_succ_le_succ hn
      have hv := value_spaced (level + 1) hj (Nat.le_trans (Nat.le_add_right _ _) hn')
        (ends_spacedElements (s := s) level (k :: l) rest)
      have he := elements_spaced level rest hl.1 hl.2
        (Nat.le_trans (Nat.le_add_left _ _) hn')
      rw [elements_next hv (skip_cons (by decide) _), skip_append (s.blank_line _),
        skip_spaced hl.1, he]
      rfl

/-- The members of an object, at least one, are read as they were written. -/
theorem members_spaced : ∀ {l : List (Option String × Json)} {k : Option String} {j : Json}
    {n : Nat} (level : Nat) (rest : List Char),
    j.Exact → ExactMembers l → partsMembers ((k, j) :: l) ≤ n →
      members n (quoted k (':' :: (s.colon ++
        spaced s (level + 1) j (spacedMembers s level l rest)))) = some ((k, j) :: l, rest)
  | _, _, _, 0, _, _, _, _, hn => absurd hn (Nat.not_succ_le_zero _)
  | [], k, j, n + 1, level, rest, hj, _, hn => by
      have hj' : j.parts ≤ n := Nat.le_of_succ_le_succ hn
      have hv := value_spaced (level + 1) hj hj' (ends_spacedMembers (s := s) level [] rest)
      obtain ⟨t, ht, hk⟩ := stringTail_quoted k
        (':' :: (s.colon ++ spaced s (level + 1) j (spacedMembers s level [] rest)))
      rw [← skip_spaced hj, ← skip_append s.blank_colon] at hv
      rw [ht]
      refine members_end hk hv ?_
      rw [spacedMembers, skip_append (s.blank_line _), skip_cons (by decide)]
  | (k', j') :: l, k, j, n + 1, level, rest, hj, hl, hn => by
      have hn' : j.parts + partsMembers ((k', j') :: l) ≤ n := Nat.le_of_succ_le_succ hn
      have hv := value_spaced (level + 1) hj (Nat.le_trans (Nat.le_add_right _ _) hn')
        (ends_spacedMembers (s := s) level ((k', j') :: l) rest)
      obtain ⟨t, ht, hk⟩ := stringTail_quoted k
        (':' :: (s.colon ++ spaced s (level + 1) j (spacedMembers s level ((k', j') :: l) rest)))
      have hm := members_spaced (k := k') level rest hl.1 hl.2
        (Nat.le_trans (Nat.le_add_left _ _) hn')
      rw [← skip_spaced hj, ← skip_append s.blank_colon] at hv
      rw [ht, members_next hk hv (skip_cons (by decide) _), skip_append (s.blank_line _),
        skip_quoted, hm]
      rfl

end

/-! ### Texts -/

theorem length_quoted (t : Option String) (rest : List Char) :
    rest.length < (quoted t rest).length := by
  cases t with
  | none =>
      simp only [quoted, List.length_cons]
      omega
  | some t =>
      rw [quoted, List.length_cons]
      refine Nat.lt_succ_of_lt ?_
      generalize t.toList = l
      induction l with
      | nil => simp [quotedTail]
      | cons c l ih =>
          change rest.length < (escape c ++ quotedTail l rest).length
          rw [List.length_append]
          omega

mutual

/-- A text is long enough to be read. -/
theorem parts_le_length : ∀ {j : Json} (level : Nat) (rest : List Char),
    j.Exact → j.parts + rest.length ≤ (spaced s level j rest).length
  | .null, _, _, _ => by simp [parts, spaced, leaf]; omega
  | .bool true, _, _, _ => by simp [parts, spaced, leaf]; omega
  | .bool false, _, _, _ => by simp [parts, spaced, leaf]; omega
  | .int n, _, _, _ => by
      obtain ⟨c, l, hl, -⟩ := chars_head n
      simp [parts, spaced, leaf, hl]
      omega
  | .real _, _, _, hj => hj.elim
  | .str t, _, rest, _ => by
      have := length_quoted t rest
      simp only [parts, spaced, leaf]
      omega
  | .arr [], _, _, _ => by simp [parts, partsElements, spaced]; omega
  | .arr (j :: l), level, rest, hj => by
      have := parts_le_length (level + 1) (spacedElements s level l rest) hj.1
      have := partsElements_le_length level rest hj.2
      simp only [parts, partsElements, spaced, List.length_cons, List.length_append]
      omega
  | .obj [], _, _, _ => by simp [parts, partsMembers, spaced]; omega
  | .obj ((k, j) :: l), level, rest, hj => by
      have := parts_le_length (level + 1) (spacedMembers s level l rest) hj.1
      have := partsMembers_le_length level rest hj.2
      have := length_quoted k
        (':' :: (s.colon ++ spaced s (level + 1) j (spacedMembers s level l rest)))
      simp only [List.length_cons, List.length_append] at this
      simp only [parts, partsMembers, spaced, List.length_cons, List.length_append]
      omega

theorem partsElements_le_length : ∀ {l : List Json} (level : Nat) (rest : List Char),
    ExactElements l → partsElements l + 1 + rest.length ≤ (spacedElements s level l rest).length
  | [], _, _, _ => by simp [partsElements, spacedElements]; omega
  | j :: l, level, rest, hj => by
      have := parts_le_length (level + 1) (spacedElements s level l rest) hj.1
      have := partsElements_le_length level rest hj.2
      simp only [partsElements, spacedElements, List.length_cons, List.length_append]
      omega

theorem partsMembers_le_length : ∀ {l : List (Option String × Json)} (level : Nat)
    (rest : List Char),
    ExactMembers l → partsMembers l + 1 + rest.length ≤ (spacedMembers s level l rest).length
  | [], _, _, _ => by simp [partsMembers, spacedMembers]; omega
  | (k, j) :: l, level, rest, hj => by
      have := parts_le_length (level + 1) (spacedMembers s level l rest) hj.1
      have := partsMembers_le_length level rest hj.2
      have := length_quoted k
        (':' :: (s.colon ++ spaced s (level + 1) j (spacedMembers s level l rest)))
      simp only [List.length_cons, List.length_append] at this
      simp only [partsMembers, spacedMembers, List.length_cons, List.length_append]
      omega

end

theorem quoted_append (t : Option String) (rest r : List Char) :
    quoted t (rest ++ r) = quoted t rest ++ r := by
  cases t with
  | none => rfl
  | some t =>
      rw [quoted, quoted, List.cons_append]
      congr 1
      induction t.toList with
      | nil => rfl
      | cons c l ih =>
          change escape c ++ quotedTail l (rest ++ r) = escape c ++ quotedTail l rest ++ r
          rw [ih, List.append_assoc]

mutual

/-- What follows a value is written after it. -/
theorem spaced_append : ∀ (level : Nat) (j : Json) (rest r : List Char),
    spaced s level j (rest ++ r) = spaced s level j rest ++ r
  | _, .null, _, _ | _, .bool true, _, _ | _, .bool false, _, _ => rfl
  | _, .int _, _, _ | _, .real _, _, _ => by
      simp only [spaced, leaf, List.append_assoc]
  | _, .str t, rest, r => quoted_append t rest r
  | _, .arr [], _, _ | _, .obj [], _, _ => rfl
  | level, .arr (j :: l), rest, r => by
      simp only [spaced, spacedElements_append level l rest r, spaced_append (level + 1) j _ r,
        List.append_assoc, List.cons_append]
  | level, .obj ((k, j) :: l), rest, r => by
      simp only [spaced, spacedMembers_append level l rest r, spaced_append (level + 1) j _ r,
        ← quoted_append, List.append_assoc, List.cons_append]

theorem spacedElements_append : ∀ (level : Nat) (l : List Json) (rest r : List Char),
    spacedElements s level l (rest ++ r) = spacedElements s level l rest ++ r
  | _, [], _, _ => by simp only [spacedElements, List.append_assoc, List.cons_append]
  | level, j :: l, rest, r => by
      simp only [spacedElements, spacedElements_append level l rest r,
        spaced_append (level + 1) j _ r, List.append_assoc, List.cons_append]

theorem spacedMembers_append : ∀ (level : Nat) (l : List (Option String × Json))
    (rest r : List Char), spacedMembers s level l (rest ++ r) = spacedMembers s level l rest ++ r
  | _, [], _, _ => by simp only [spacedMembers, List.append_assoc, List.cons_append]
  | level, (k, j) :: l, rest, r => by
      simp only [spacedMembers, spacedMembers_append level l rest r,
        spaced_append (level + 1) j _ r, ← quoted_append, List.append_assoc, List.cons_append]

end

theorem write_eq (j : Json) : j.write = String.ofList (spaced .compact 0 j []) := by
  rw [write, compact_eq j 0]

theorem writeIndented_eq (j : Json) :
    j.writeIndented = String.ofList (spaced .indented 0 j []) := by
  rw [writeIndented, indented_eq]

theorem writeIndented_append (j : Json) (r : List Char) :
    j.writeIndented ++ String.ofList r = String.ofList (spaced .indented 0 j r) := by
  rw [writeIndented_eq, ← String.ofList_append, ← spaced_append, List.nil_append]

/-- **A written text is read**, also with blanks after it. -/
theorem read?_spaced {j : Json} (hj : j.Exact) {rest : List Char}
    (hr : ∀ c ∈ rest, isBlank c = true) :
    read? (String.ofList (spaced s 0 j rest)) = some j := by
  have hends : Ends rest := by
    have h := ends_blank_append hr (r := []) (by rintro _ ⟨⟩)
    rwa [List.append_nil] at h
  have hn := parts_le_length (s := s) 0 rest hj
  have hv := value_spaced (s := s) (n := (spaced s 0 j rest).length + 1) 0 hj (by omega) hends
  have hskip : skip rest = [] := by
    have h := skip_append hr []
    rwa [List.append_nil] at h
  rw [read?, String.toList_ofList]
  simp only [ofChars?, skip_spaced hj, hv, hskip, if_pos]

/-! ### Nesting -/

/-- What a reader knows that only counts brackets and braces. -/
structure Nesting where
  /-- How many are open. -/
  level : Nat
  /-- How many were open at once at most. -/
  deepest : Nat
  /-- Whether the next character is inside a string. -/
  inString : Bool
  /-- Whether the next character is behind a backslash inside a string. -/
  escaped : Bool

/-- Reads a character. -/
def Nesting.step (t : Nesting) (c : Char) : Nesting :=
  if t.escaped then { t with escaped := false }
  else if t.inString then
    if c = '\\' then { t with escaped := true }
    else if c = '"' then { t with inString := false }
    else t
  else if c = '"' then { t with inString := true }
  else if c = '[' ∨ c = '\x7b' then
    { t with level := t.level + 1, deepest := max t.deepest (t.level + 1) }
  else if c = ']' ∨ c = '\x7d' then { t with level := t.level - 1 }
  else t

/-- The number of brackets and braces that are open at once at most in a text. -/
def nesting (text : String) : Nat :=
  (text.toList.foldl Nesting.step ⟨0, 0, false, false⟩).deepest

namespace Nesting

variable {k d : Nat}

/-- Characters that are no brackets, braces or quotes open and close nothing. -/
theorem foldl_append {l : List Char} (h : ∀ c ∈ l, c ∉ ['"', '[', ']', '\x7b', '\x7d'])
    (rest : List Char) : (l ++ rest).foldl step ⟨k, d, false, false⟩
      = rest.foldl step ⟨k, d, false, false⟩ := by
  induction l with
  | nil => rfl
  | cons c l ih =>
      have hc := h c List.mem_cons_self
      simp only [List.mem_cons, List.not_mem_nil, or_false, not_or] at hc
      rw [List.cons_append, List.foldl_cons, ← ih fun c hc => h c (List.mem_cons_of_mem _ hc)]
      simp [step, hc]

theorem foldl_blank {l : List Char} (h : ∀ c ∈ l, isBlank c = true) (rest : List Char) :
    (l ++ rest).foldl step ⟨k, d, false, false⟩ = rest.foldl step ⟨k, d, false, false⟩ := by
  refine foldl_append (fun c hc => ?_) rest
  have hb := h c hc
  simp only [isBlank, Bool.or_eq_true, beq_iff_eq] at hb
  rcases hb with ((rfl | rfl) | rfl) | rfl <;> decide

theorem foldl_chars (n : Int) (rest : List Char) :
    (Decimal.chars n ++ rest).foldl step ⟨k, d, false, false⟩
      = rest.foldl step ⟨k, d, false, false⟩ := by
  have hdigits : ∀ m, ∀ c ∈ Decimal.digits m, c ∉ ['"', '[', ']', '\x7b', '\x7d'] := by
    intro m c hc hmem
    have hd : Decimal.isDigit c = true := List.all_eq_true.1 (Decimal.all_isDigit_digits m) c hc
    simp only [List.mem_cons, List.not_mem_nil, or_false] at hmem
    rcases hmem with rfl | rfl | rfl | rfl | rfl <;> revert hd <;> decide
  refine foldl_append (fun c hc => ?_) rest
  cases n with
  | ofNat m => exact hdigits m c hc
  | negSucc m =>
      obtain rfl | hc := List.mem_cons.1 hc
      · decide
      · exact hdigits (m + 1) c hc

/-- A character that is in a string as it is leaves the string open. -/
theorem step_inString {c : Char} (hs : c ≠ '\\') (hq : c ≠ '"') :
    step ⟨k, d, true, false⟩ c = ⟨k, d, true, false⟩ := by
  simp [step, hs, hq]

theorem hexDigit_ne (n : Nat) : hexDigit n ≠ '\\' ∧ hexDigit n ≠ '"' := by
  have hall : ∀ m : Fin 16, hexDigit m.val ≠ '\\' ∧ hexDigit m.val ≠ '"' := by decide
  have hmod : hexDigit n = hexDigit (n % 16) := by simp only [hexDigit, Nat.mod_mod]
  rw [hmod]
  exact hall ⟨n % 16, Nat.mod_lt _ (by decide)⟩

/-- The written form of a character leaves the string open. -/
theorem foldl_escape (c : Char) (rest : List Char) :
    (escape c ++ rest).foldl step ⟨k, d, true, false⟩ = rest.foldl step ⟨k, d, true, false⟩ := by
  unfold escape
  split
  · rfl
  split
  · rfl
  split
  · rfl
  split
  · rfl
  split
  · rfl
  split
  · rfl
  split
  · rfl
  split
  · -- the digits, behind the `u` that the backslash is about
    have h₁ := hexDigit_ne (c.toNat / 16)
    have h₂ := hexDigit_ne c.toNat
    change (hexDigit (c.toNat / 16) :: hexDigit c.toNat :: rest).foldl step ⟨k, d, true, false⟩ = _
    rw [List.foldl_cons, step_inString h₁.1 h₁.2, List.foldl_cons, step_inString h₂.1 h₂.2]
  · next hq hs _ _ _ _ _ _ => rw [List.singleton_append, List.foldl_cons, step_inString hs hq]

/-- Strings nest nothing. -/
theorem foldl_quoted (t : Option String) (rest : List Char) :
    (quoted t rest).foldl step ⟨k, d, false, false⟩ = rest.foldl step ⟨k, d, false, false⟩ := by
  cases t with
  | none => rfl
  | some t =>
      change (quotedTail t.toList rest).foldl step ⟨k, d, true, false⟩ = _
      induction t.toList with
      | nil => rfl
      | cons c l ih => exact (foldl_escape c _).trans ih

end Nesting

mutual

/-- **A written value nests as deep as the value**, beyond the brackets that were open. -/
theorem nesting_spaced : ∀ {j : Json} {k d : Nat} (level : Nat) (rest : List Char),
    j.Exact → k ≤ d → (spaced s level j rest).foldl Nesting.step ⟨k, d, false, false⟩
      = rest.foldl Nesting.step ⟨k, max d (k + j.depth), false, false⟩
  | .null, k, d, _, rest, _, hk | .bool true, k, d, _, rest, _, hk
  | .bool false, k, d, _, rest, _, hk => by
      simp only [depth_null, depth_bool, Nat.add_zero, Nat.max_eq_left hk]
      rfl
  | .int n, k, d, _, rest, _, hk => by
      rw [spaced, leaf, Nesting.foldl_chars, depth_int, Nat.add_zero, Nat.max_eq_left hk]
  | .real _, _, _, _, _, hj, _ => hj.elim
  | .str t, k, d, _, rest, _, hk => by
      rw [spaced, leaf, Nesting.foldl_quoted, depth_str, Nat.add_zero, Nat.max_eq_left hk]
  | .arr [], k, d, _, rest, _, _ => rfl
  | .arr (j :: l), k, d, level, rest, hj, hk => by
      have hj' := nesting_spaced (k := k + 1) (d := max d (k + 1)) (level + 1)
        (spacedElements s level l rest) hj.1 (Nat.le_max_right _ _)
      have hl := nestingElements_spaced (k := k) (d := max (max d (k + 1)) (k + 1 + j.depth))
        level rest hj.2 (by omega)
      rw [spaced, List.foldl_cons]
      refine (Nesting.foldl_blank (s.blank_line _) _).trans (hj'.trans (hl.trans ?_))
      rw [depth, depthElements]
      congr 2
      omega
  | .obj [], k, d, _, rest, _, _ => rfl
  | .obj ((t, j) :: l), k, d, level, rest, hj, hk => by
      have hj' := nesting_spaced (k := k + 1) (d := max d (k + 1)) (level + 1)
        (spacedMembers s level l rest) hj.1 (Nat.le_max_right _ _)
      have hl := nestingMembers_spaced (k := k) (d := max (max d (k + 1)) (k + 1 + j.depth))
        level rest hj.2 (by omega)
      rw [spaced, List.foldl_cons]
      refine (Nesting.foldl_blank (s.blank_line _) _).trans ((Nesting.foldl_quoted t _).trans ?_)
      rw [List.foldl_cons]
      refine (Nesting.foldl_blank s.blank_colon _).trans (hj'.trans (hl.trans ?_))
      rw [depth, depthMembers]
      congr 2
      omega

/-- The further elements of an array close it. -/
theorem nestingElements_spaced : ∀ {l : List Json} {k d : Nat} (level : Nat) (rest : List Char),
    ExactElements l → k + 1 ≤ d →
      (spacedElements s level l rest).foldl Nesting.step ⟨k + 1, d, false, false⟩
        = rest.foldl Nesting.step ⟨k, max d (k + 1 + depthElements l), false, false⟩
  | [], k, d, level, rest, _, hk => by
      rw [spacedElements, Nesting.foldl_blank (s.blank_line _), depthElements, Nat.add_zero,
        Nat.max_eq_left hk]
      rfl
  | j :: l, k, d, level, rest, hj, hk => by
      have hj' := nesting_spaced (k := k + 1) (d := d) (level + 1)
        (spacedElements s level l rest) hj.1 hk
      have hl := nestingElements_spaced (k := k) (d := max d (k + 1 + j.depth))
        level rest hj.2 (by omega)
      rw [spacedElements, List.foldl_cons]
      refine (Nesting.foldl_blank (s.blank_line _) _).trans (hj'.trans (hl.trans ?_))
      rw [depthElements]
      congr 2
      omega

/-- The further members of an object close it. -/
theorem nestingMembers_spaced : ∀ {l : List (Option String × Json)} {k d : Nat} (level : Nat)
    (rest : List Char), ExactMembers l → k + 1 ≤ d →
      (spacedMembers s level l rest).foldl Nesting.step ⟨k + 1, d, false, false⟩
        = rest.foldl Nesting.step ⟨k, max d (k + 1 + depthMembers l), false, false⟩
  | [], k, d, level, rest, _, hk => by
      rw [spacedMembers, Nesting.foldl_blank (s.blank_line _), depthMembers, Nat.add_zero,
        Nat.max_eq_left hk]
      rfl
  | (t, j) :: l, k, d, level, rest, hj, hk => by
      have hj' := nesting_spaced (k := k + 1) (d := d) (level + 1)
        (spacedMembers s level l rest) hj.1 hk
      have hl := nestingMembers_spaced (k := k) (d := max d (k + 1 + j.depth))
        level rest hj.2 (by omega)
      rw [spacedMembers, List.foldl_cons]
      refine (Nesting.foldl_blank (s.blank_line _) _).trans ((Nesting.foldl_quoted t _).trans ?_)
      rw [List.foldl_cons]
      refine (Nesting.foldl_blank s.blank_colon _).trans (hj'.trans (hl.trans ?_))
      rw [depthMembers]
      congr 2
      omega

end

/-- **A written text nests as deep as its value**, also with blanks after it. -/
theorem nesting_ofList_spaced {j : Json} (hj : j.Exact) {rest : List Char}
    (hr : ∀ c ∈ rest, isBlank c = true) :
    nesting (String.ofList (spaced s 0 j rest)) = j.depth := by
  have hend := Nesting.foldl_blank (k := 0) (d := max 0 (0 + j.depth)) hr []
  rw [List.append_nil] at hend
  rw [nesting, String.toList_ofList, nesting_spaced 0 rest hj (Nat.le_refl 0), hend]
  simp

end Json
end ProtoScript
