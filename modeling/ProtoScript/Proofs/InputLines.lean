import Mathlib.Data.List.DropRight
import ProtoScript.Text.Lines
/-!
# Two readers of lines

A reader cuts a text after each line feed and strips every piece of its end
(`Text.Delivers`).  A terminal strips all line feeds and carriage returns
(`Text.withoutBreaks`); a recorded input strips one line feed and one carriage
return before it (`Text.withoutBreak`).

So the terminal delivers the recorded lines less the carriage returns at their
ends, and both deliver the same lines exactly if no carriage return stands at the
end of the text or before a line end of two characters
(`Text.typedLines_eq_recordedLines_iff`).
-/

namespace ProtoScript
namespace Text

/-! ### Cutting -/

theorem lines_append_lineFeed {l : List Char} (h : '\n' ∉ l) (rest : List Char) :
    lines (l ++ '\n' :: rest) = ⟨l, true⟩ :: lines rest := by
  induction l with
  | nil => rw [List.nil_append, lines, if_pos rfl]
  | cons c l ih =>
      have hc : c ≠ '\n' := fun hc => h (hc ▸ List.mem_cons_self)
      rw [List.cons_append, lines, if_neg hc, ih fun hl => h (List.mem_cons_of_mem _ hl)]

theorem lines_of_notMem {l : List Char} (hne : l ≠ []) (h : '\n' ∉ l) : lines l = [⟨l, false⟩] := by
  induction l with
  | nil => exact absurd rfl hne
  | cons c l ih =>
      have hc : c ≠ '\n' := fun hc => h (hc ▸ List.mem_cons_self)
      rw [lines, if_neg hc]
      cases l with
      | nil => rfl
      | cons d l => rw [ih (List.cons_ne_nil d l) fun hl => h (List.mem_cons_of_mem _ hl)]

/-- Induction on the pieces of a text, cut after each line feed. -/
@[elab_as_elim]
theorem cut_induction {P : List Char → Prop} (nil : P [])
    (line : ∀ l rest, '\n' ∉ l → P rest → P (l ++ '\n' :: rest))
    (last : ∀ l, l ≠ [] → '\n' ∉ l → P l) (text : List Char) : P text := by
  induction hn : text.length using Nat.strongRecOn generalizing text with
  | ind n ih =>
      by_cases hlf : '\n' ∈ text
      · obtain ⟨l, rest, rfl, hl⟩ := List.eq_append_cons_of_mem hlf
        have hlength : rest.length < n := by
          rw [← hn, List.length_append, List.length_cons]
          omega
        exact line l rest hl (ih rest.length hlength rest rfl)
      · by_cases hne : text = []
        · exact hne ▸ nil
        · exact last text hne hlf

/-- A reader of lines: it cuts a text after each line feed and delivers what `strip` leaves of each
piece, with its line feed. -/
inductive Delivers (strip : List Char → List Char) : List Char → List (List Char) → Prop where
  /-- The text is at its end. -/
  | finish : Delivers strip [] []
  /-- A line feed ends the line. -/
  | line {l rest : List Char} {ls : List (List Char)} (hl : '\n' ∉ l)
      (h : Delivers strip rest ls) :
      Delivers strip (l ++ '\n' :: rest) (strip (l ++ ['\n']) :: ls)
  /-- The text ends within the line. -/
  | last {l : List Char} (hne : l ≠ []) (hl : '\n' ∉ l) : Delivers strip l [strip l]

/-- **A reader delivers what it leaves of the lines**, and nothing else. -/
theorem delivers_iff {strip : List Char → List Char} {text : List Char} {ls : List (List Char)} :
    Delivers strip text ls ↔ ls = (lines text).map fun x => strip x.chars := by
  constructor
  · intro h
    induction h with
    | finish => rfl
    | line hl _ ih => rw [lines_append_lineFeed hl, List.map_cons, ← ih]; rfl
    | last hne hl => rw [lines_of_notMem hne hl]; rfl
  · rintro rfl
    induction text using cut_induction with
    | nil => exact .finish
    | line l rest hl ih => rw [lines_append_lineFeed hl]; exact .line hl ih
    | last l hne hl => rw [lines_of_notMem hne hl]; exact .last hne hl

/-! ### Stripping -/

/-- A piece without all the line feeds and carriage returns at its end. -/
def withoutBreaks (l : List Char) : List Char := l.rdropWhile fun c => c = '\n' ∨ c = '\r'

/-- A piece without a line feed at its end and, if there is one, a carriage return before it. -/
def withoutBreak (l : List Char) : List Char :=
  match l.reverse with
  | '\n' :: '\r' :: r => r.reverse
  | '\n' :: r => r.reverse
  | _ => l

/-- A line without the carriage returns at its end. -/
def withoutReturns (l : List Char) : List Char := l.rdropWhile (· = '\r')

/-- The two ways to strip differ in the line feeds only. -/
theorem withoutBreaks_of_notMem {l : List Char} (h : '\n' ∉ l) :
    withoutBreaks l = withoutReturns l := by
  induction l using List.reverseRecOn with
  | nil => rfl
  | append_singleton l c ih =>
      have hc : c ≠ '\n' := fun hc => h (hc ▸ List.mem_append_right l List.mem_cons_self)
      have hl := ih fun hl => h (List.mem_append_left [c] hl)
      rw [withoutBreaks, withoutReturns] at hl ⊢
      rw [List.rdropWhile_concat, List.rdropWhile_concat, hl]
      simp [hc]

theorem withoutBreaks_chars {x : Line} (h : '\n' ∉ x.text) : withoutBreaks x.chars = x.typed := by
  have hstripped : withoutBreaks x.text = x.typed := withoutBreaks_of_notMem h
  rw [Line.chars]
  split
  · rw [withoutBreaks, List.rdropWhile_concat_pos _ _ _ (by simp)]
    exact hstripped
  · exact hstripped

theorem recorded_return (l : List Char) : (⟨l ++ ['\r'], true⟩ : Line).recorded = l := by
  simp [Line.recorded]

theorem recorded_ended {l : List Char} (h : l.getLast? ≠ some '\r') :
    (⟨l, true⟩ : Line).recorded = l := by
  cases l using List.reverseRecOn with
  | nil => rfl
  | append_singleton l c =>
      have hc : c ≠ '\r' := by simpa using h
      simp [Line.recorded, hc]

theorem withoutBreak_chars {x : Line} (h : '\n' ∉ x.text) : withoutBreak x.chars = x.recorded := by
  obtain ⟨l, ended⟩ := x
  cases ended with
  | true =>
      show withoutBreak (l ++ ['\n']) = _
      cases l using List.reverseRecOn with
      | nil => rfl
      | append_singleton l c =>
          by_cases hc : c = '\r'
          · rw [hc, recorded_return]
            simp [withoutBreak]
          · rw [recorded_ended (by simpa using hc)]
            simp [withoutBreak, hc]
  | false =>
      show withoutBreak l = l
      cases l using List.reverseRecOn with
      | nil => rfl
      | append_singleton l c =>
          have hc : c ≠ '\n' := fun hc => h (hc ▸ List.mem_append_right l List.mem_cons_self)
          simp [withoutBreak, hc]

/-- **A terminal leaves of a line what a recorded input does**, less the carriage returns at its
end. -/
theorem typed_eq (x : Line) : x.typed = withoutReturns x.recorded := by
  obtain ⟨l, ended⟩ := x
  show withoutReturns l = _
  cases ended with
  | true =>
      cases l using List.reverseRecOn with
      | nil => rfl
      | append_singleton l c =>
          by_cases hc : c = '\r'
          · rw [hc, recorded_return, withoutReturns, List.rdropWhile_concat_pos _ _ _ (by simp)]
            rfl
          · rw [recorded_ended (by simpa using hc)]
  | false => rfl

theorem withoutReturns_eq_self_iff {l : List Char} :
    withoutReturns l = l ↔ l.getLast? ≠ some '\r' := by
  rw [withoutReturns, List.rdropWhile_eq_self_iff]
  cases l using List.reverseRecOn with
  | nil => simp
  | append_singleton l c => simp

/-- **The lines of a terminal** are what it delivers. -/
theorem delivers_typedLines (text : String) :
    Delivers withoutBreaks text.toList ((typedLines text).map String.toList) := by
  rw [delivers_iff, typedLines, List.map_map]
  refine List.map_congr_left fun x hx => ?_
  rw [withoutBreaks_chars (lf_notMem_of_mem_lines _ x hx)]
  exact String.toList_ofList

/-- **The lines of a recorded input** are what its reader delivers. -/
theorem delivers_recordedLines (text : String) :
    Delivers withoutBreak text.toList ((recordedLines text).map String.toList) := by
  rw [delivers_iff, recordedLines, List.map_map]
  refine List.map_congr_left fun x hx => ?_
  rw [withoutBreak_chars (lf_notMem_of_mem_lines _ x hx)]
  exact String.toList_ofList

/-! ### Carriage returns too many -/

/-- A carriage return stands before a line end of two characters, or at the end of the text. -/
def SurplusReturn (text : List Char) : Prop :=
  ['\r', '\r', '\n'] <:+: text ∨ text.getLast? = some '\r'

instance (text : List Char) : Decidable (SurplusReturn text) :=
  inferInstanceAs (Decidable (_ ∨ _))

/-- What is recorded of an ended line ends with a carriage return if the line ends with two. -/
theorem getLast?_recorded {l : List Char} :
    (⟨l, true⟩ : Line).recorded.getLast? = some '\r' ↔ ['\r', '\r'] <:+ l := by
  rw [← List.reverse_prefix]
  cases l using List.reverseRecOn with
  | nil => simp [Line.recorded]
  | append_singleton l c =>
      by_cases hc : c = '\r'
      · rw [hc, recorded_return, ← List.head?_reverse, List.reverse_concat]
        cases l.reverse <;> simp [eq_comm]
      · rw [recorded_ended (by simpa using hc), List.reverse_concat]
        simp [hc, Ne.symm hc]

/-- A line end of two characters after a carriage return, in a text that starts with a line. -/
theorem infix_append_lineFeed {l : List Char} (hl : '\n' ∉ l) (rest : List Char) :
    ['\r', '\r', '\n'] <:+: l ++ '\n' :: rest ↔
      ['\r', '\r'] <:+ l ∨ ['\r', '\r', '\n'] <:+: rest := by
  induction l with
  | nil => simp [List.infix_cons_iff]
  | cons c l ih =>
      -- It starts with the line only if the line is these two characters.
      have hstart : ['\r', '\r', '\n'] <+: c :: (l ++ '\n' :: rest) ↔ ['\r', '\r'] = c :: l := by
        rcases l with _ | ⟨d, _ | ⟨e, l⟩⟩
        · simp
        · simp
        · have he : e ≠ '\n' := fun he => hl (by simp [he])
          simp [he.symm]
      rw [List.cons_append, List.infix_cons_iff, hstart, List.suffix_cons_iff,
        ih fun h => hl (List.mem_cons_of_mem c h), or_assoc]

theorem surplusReturn_append {l : List Char} (hl : '\n' ∉ l) (rest : List Char) :
    SurplusReturn (l ++ '\n' :: rest) ↔ ['\r', '\r'] <:+ l ∨ SurplusReturn rest := by
  have hlast : (l ++ '\n' :: rest).getLast? = some '\r' ↔ rest.getLast? = some '\r' := by
    cases rest with
    | nil => simp
    | cons c rest => simp [List.getLast?_append, List.getLast?_cons_cons]
  rw [SurplusReturn, SurplusReturn, infix_append_lineFeed hl, hlast, or_assoc]

/-- **A recorded line ends with a carriage return where there is one too many**, and only there. -/
theorem exists_return_iff (text : List Char) :
    (∃ x ∈ lines text, x.recorded.getLast? = some '\r') ↔ SurplusReturn text := by
  induction text using cut_induction with
  | nil => simp [lines, SurplusReturn]
  | line l rest hl ih =>
      rw [surplusReturn_append hl, lines_append_lineFeed hl, ← ih, ← getLast?_recorded]
      simp
  | last l hne hl =>
      have hinfix : ¬['\r', '\r', '\n'] <:+: l := fun h => hl (h.subset (by simp))
      rw [lines_of_notMem hne hl]
      simp [SurplusReturn, hinfix, Line.recorded]

theorem typedLines_eq (text : String) : typedLines text
    = (recordedLines text).map fun line => String.ofList (withoutReturns line.toList) := by
  simp [typedLines, recordedLines, typed_eq]

/-- **Both readers deliver the same lines exactly if there is no carriage return too many.** -/
theorem typedLines_eq_recordedLines_iff {text : String} :
    typedLines text = recordedLines text ↔ ¬SurplusReturn text.toList := by
  have hline : ∀ x : Line, String.ofList x.typed = String.ofList x.recorded ↔
      x.recorded.getLast? ≠ some '\r' := fun x => by
    rw [String.ofList_inj, typed_eq, withoutReturns_eq_self_iff]
  rw [← exists_return_iff, typedLines, recordedLines, List.map_inj_left]
  simp only [hline, not_exists, not_and]

end Text
end ProtoScript
