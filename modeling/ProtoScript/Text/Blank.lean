/-!
# Blank characters

The characters with the Unicode property `White_Space`, and the removal of
blanks from the ends of a text.  A number that a program reads may stand
between blanks, and recorded transcripts are compared without the blanks at
their end.  `call_builtin` and `run_case` of the interpreter remove them so.
-/

namespace ProtoScript
namespace Text

/-- The code points with the property `White_Space`. -/
def blanks : List Nat :=
  [0x09, 0x0A, 0x0B, 0x0C, 0x0D, 0x20, 0x85, 0xA0, 0x1680,
    0x2000, 0x2001, 0x2002, 0x2003, 0x2004, 0x2005, 0x2006, 0x2007, 0x2008, 0x2009, 0x200A,
    0x2028, 0x2029, 0x202F, 0x205F, 0x3000]

/-- Whether a character is blank. -/
def isBlank (c : Char) : Bool := blanks.contains c.toNat

/-- The text from its first character that is not blank. -/
def trimStart (l : List Char) : List Char := l.dropWhile isBlank

/-- The text up to its last character that is not blank. -/
def trimEnd (l : List Char) : List Char := (trimStart l.reverse).reverse

/-- The text between its first and its last character that is not blank. -/
def trim (l : List Char) : List Char := trimEnd (trimStart l)

theorem trimStart_append_blank {l : List Char} (h : ∀ c ∈ l, isBlank c = true) (r : List Char) :
    trimStart (l ++ r) = trimStart r := by
  induction l with
  | nil => rfl
  | cons c l ih =>
      have hc := h c (List.mem_cons_self ..)
      rw [List.cons_append, trimStart, List.dropWhile_cons_of_pos hc]
      exact ih fun d hd => h d (List.mem_cons_of_mem _ hd)

theorem trimStart_of_not_blank {c : Char} (h : isBlank c = false) (l : List Char) :
    trimStart (c :: l) = c :: l :=
  List.dropWhile_cons_of_neg (by simp [h])

/-- Blanks at the end of a text make no difference. -/
theorem trimEnd_append_blank (l : List Char) {r : List Char} (h : ∀ c ∈ r, isBlank c = true) :
    trimEnd (l ++ r) = trimEnd l := by
  have hr : ∀ c ∈ r.reverse, isBlank c = true := fun c hc => h c (List.mem_reverse.1 hc)
  rw [trimEnd, List.reverse_append, trimStart_append_blank hr, trimEnd]

/-- What is removed from the end of a text is blank. -/
theorem exists_eq_trimEnd_append (l : List Char) :
    ∃ r, (∀ c ∈ r, isBlank c = true) ∧ l = trimEnd l ++ r := by
  refine ⟨(l.reverse.takeWhile isBlank).reverse, fun c hc => ?_, ?_⟩
  · exact List.all_eq_true.1 List.all_takeWhile c (List.mem_reverse.1 hc)
  · rw [trimEnd, trimStart, ← List.reverse_append, List.takeWhile_append_dropWhile,
      List.reverse_reverse]

/-- Nothing is removed from the end of a text that does not end with a blank. -/
theorem trimEnd_of_not_blank {l : List Char} (h : ∀ c ∈ l.getLast?, isBlank c = false) :
    trimEnd l = l := by
  rw [← List.head?_reverse] at h
  unfold trimEnd
  cases hl : l.reverse with
  | nil => exact (List.reverse_eq_nil_iff.1 hl).symm
  | cons c r =>
      rw [hl] at h
      rw [trimStart_of_not_blank (h c rfl), ← hl, List.reverse_reverse]

end Text
end ProtoScript
