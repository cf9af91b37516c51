import ProtoScript.Proofs.GoldenRuns
/-!
# What a golden case overlooks

A record is written with a line feed after the transcript, and both texts are
compared without the blanks at their ends.  This takes away more than the line
feed that was added: a transcript passes exactly if it is the recorded one up to
blanks at the end (`Golden.verdict_on_record`).  So a program that prints an
empty line more, or blanks after its last line, still passes; where neither
transcript ends with a blank the comparison is exact.
-/

namespace ProtoScript
namespace Golden

/-- Two texts that are the same but for blanks at their ends. -/
def AlikeButBlanks (s t : String) : Prop :=
  ∃ l u v, s.toList = l ++ u ∧ t.toList = l ++ v ∧
    (∀ c ∈ u, Text.isBlank c = true) ∧ ∀ c ∈ v, Text.isBlank c = true

/-- **What is settled is the text but for blanks at its end.** -/
theorem settled_eq_iff {s t : String} : settled s = settled t ↔ AlikeButBlanks s t := by
  constructor
  · intro h
    have htrim : Text.trimEnd s.toList = Text.trimEnd t.toList := by
      have hlist := congrArg String.toList h
      rwa [settled, settled, String.toList_ofList, String.toList_ofList] at hlist
    obtain ⟨u, hu, hs⟩ := Text.exists_eq_trimEnd_append s.toList
    obtain ⟨v, hv, ht⟩ := Text.exists_eq_trimEnd_append t.toList
    exact ⟨Text.trimEnd s.toList, u, v, hs, htrim ▸ ht, hu, hv⟩
  · rintro ⟨l, u, v, hs, ht, hu, hv⟩
    rw [settled, settled, hs, ht, Text.trimEnd_append_blank l hu, Text.trimEnd_append_blank l hv]

/-- A text that does not end with a blank is settled. -/
theorem settled_of_not_blank {s : String}
    (h : ∀ c ∈ s.toList.getLast?, Text.isBlank c = false) : settled s = s := by
  rw [settled, Text.trimEnd_of_not_blank h, String.ofList_toList]

theorem not_blank_of_getLast? {s : String} {c : Char} (hs : s.toList.getLast? = some c)
    (hc : Text.isBlank c = false) : ∀ x ∈ s.toList.getLast?, Text.isBlank x = false := by
  intro x hx
  obtain rfl : c = x := Option.some.inj (hs.symm.trans hx)
  exact hc

theorem passed_difference {name record text : String} :
    (⟨name, difference record text⟩ : Result).passed = true ↔ settled text = settled record := by
  unfold Result.passed difference
  split
  · next h => simp [h]
  · next h => simp [h]

/-- A new transcript passes the comparison with a record that was written for an old one exactly if
both are the same but for blanks. -/
theorem passed_written {name old new : String} :
    (⟨name, difference (old ++ "\n") new⟩ : Result).passed = true ↔ AlikeButBlanks new old := by
  have hold : settled (old ++ "\n") = settled old := settled_append_lineFeed old
  rw [passed_difference, hold, settled_eq_iff]

variable {fuel : Nat} {d d₁ : Directory} {c : Case} {r : Result}

/-- **The verdict on a recorded case.**  The record of an old version is its transcript and a line
feed.  Where it stands, every new version is compared with it, on whatever input; it passes exactly
if its transcript is the recorded one up to blanks at the end, and if neither ends with a blank,
exactly if they are equal. -/
theorem verdict_on_record (h : check fuel true d c = .ok (r, d₁)) :
    ∃ old, Yields fuel d c old ∧ d₁.get? (c.name ++ ".out") = some (.file (old ++ "\n")) ∧
      ∀ {bound : Nat} {e : Directory} {new : String},
        e.get? (c.name ++ ".out") = d₁.get? (c.name ++ ".out") → Yields bound e c new →
          ∃ verdict, check bound false e c = .ok (verdict, e) ∧
            (verdict.passed = true ↔ AlikeButBlanks new old) ∧
            ((∀ x ∈ old.toList.getLast?, Text.isBlank x = false) →
              (∀ x ∈ new.toList.getLast?, Text.isBlank x = false) →
                (verdict.passed = true ↔ new = old)) := by
  obtain ⟨hn, -, ⟨old, hyields, hjudged⟩, -⟩ := check_eq_ok h
  obtain ⟨-, hrecord⟩ := hjudged.after_eq (.inl rfl)
  refine ⟨old, hyields, hrecord, fun {bound e new} he hnew => ?_⟩
  have hcheck := check_of_record hn hnew (he.trans hrecord)
  refine ⟨_, hcheck, passed_written, fun hold hnew' => ?_⟩
  rw [passed_written, ← settled_eq_iff, settled_of_not_blank hold, settled_of_not_blank hnew']

/-! ### A blank line -/

/-- A program that prints a line. -/
def oneLine : String := "func main() \x7b print(\"a\"); \x7d"

/-- A program that prints an empty line after it. -/
def blankLine : String := "func main() \x7b print(\"a\"); print(\"\"); \x7d"

/-- A program that prints another line. -/
def otherLine : String := "func main() \x7b print(\"b\"); \x7d"

/-- A directory with one script and no record. -/
def oneScript (source : String) : Directory := .ofList [("t.br", .file source)]

/-- The directory in which the first of the programs has been recorded, with a new version of it. -/
def revised (source : String) : Directory :=
  ((oneScript oneLine).insert "t.out" (.file "a\n")).insert "t.br" (.file source)

theorem actual_oneLine : actual 40 (oneScript oneLine) ⟨"t"⟩ = .ok "a" :=
  eq_ok_of_toOption (by decide +kernel)

theorem actual_blankLine : actual 40 (revised blankLine) ⟨"t"⟩ = .ok "a\n" :=
  eq_ok_of_toOption (by decide +kernel)

theorem check_oneLine : check 40 true (oneScript oneLine) ⟨"t"⟩
    = .ok (⟨"t", none⟩, (oneScript oneLine).insert "t.out" (.file "a\n")) := by
  rw [check_eq_bind, actual_oneLine]
  rfl

/-- **An empty line more goes unnoticed**: the new version passes, although its transcript is not
the recorded one. -/
theorem blank_line_overlooked :
    check 40 true (oneScript oneLine) ⟨"t"⟩
        = .ok (⟨"t", none⟩, (oneScript oneLine).insert "t.out" (.file "a\n")) ∧
      (∃ verdict, check 40 false (revised blankLine) ⟨"t"⟩ = .ok (verdict, revised blankLine) ∧
        verdict.passed = true) ∧
      actual 40 (oneScript oneLine) ⟨"t"⟩ = .ok "a" ∧
        actual 40 (revised blankLine) ⟨"t"⟩ = .ok "a\n" ∧ "a\n" ≠ "a" := by
  obtain ⟨hn, hnew⟩ := actual_eq_ok_iff.1 actual_blankLine
  have hrecord : (revised blankLine).get? "t.out" = some (.file "a\n") := rfl
  have hcheck := check_of_record hn hnew hrecord
  have hpassed : (⟨"t", difference "a\n" "a\n"⟩ : Result).passed = true := by decide +kernel
  exact ⟨check_oneLine, ⟨_, hcheck, hpassed⟩, actual_oneLine, actual_blankLine, by decide⟩

/-- A version that prints an empty line more passes, and one that prints another line fails. -/
theorem verdict_on_record_versions :
    check 40 true (oneScript oneLine) ⟨"t"⟩
        = .ok (⟨"t", none⟩, (oneScript oneLine).insert "t.out" (.file "a\n")) ∧
      (∃ verdict, check 40 false (revised blankLine) ⟨"t"⟩ = .ok (verdict, revised blankLine) ∧
        verdict.passed = true) ∧
      ∃ verdict, check 40 false (revised otherLine) ⟨"t"⟩ = .ok (verdict, revised otherLine) ∧
        ¬verdict.passed = true := by
  obtain ⟨old, hold, -, hverdict⟩ := verdict_on_record check_oneLine
  obtain rfl : old = "a" := hold.unique (actual_eq_ok_iff.1 actual_oneLine).2
  have hother : actual 40 (revised otherLine) ⟨"t"⟩ = .ok "b" :=
    eq_ok_of_toOption (by decide +kernel)
  obtain ⟨verdict, hcheck, halike, -⟩ := hverdict (e := revised blankLine) rfl
    (actual_eq_ok_iff.1 actual_blankLine).2
  obtain ⟨verdict', hcheck', -, hexact⟩ := hverdict (e := revised otherLine) rfl
    (actual_eq_ok_iff.1 hother).2
  have hblank : ∀ c ∈ ['\n'], Text.isBlank c = true :=
    List.forall_mem_singleton.2 (by decide)
  refine ⟨check_oneLine, ⟨verdict, hcheck, halike.2 ⟨['a'], ['\n'], [], rfl, rfl, hblank, nofun⟩⟩,
    verdict', hcheck', fun hpassed => ?_⟩
  have hold : ∀ x ∈ "a".toList.getLast?, Text.isBlank x = false :=
    not_blank_of_getLast? rfl (by decide)
  have hnew : ∀ x ∈ "b".toList.getLast?, Text.isBlank x = false :=
    not_blank_of_getLast? rfl (by decide)
  have heq : "b" = "a" := (hexact hold hnew).1 hpassed
  exact absurd heq (by decide)

end Golden
end ProtoScript
