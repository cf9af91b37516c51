import Mathlib.Tactic.SplitIfs
import ProtoScript.Token.Scan
import ProtoScript.Tree.OfTokens
/-!
# Scanning across a line break

A line feed ends whatever is pending, unless a string literal is open; and a
text that can be scanned leaves none open at its end.  So behind such a text
and a line feed the scanner stands as at the start of a text: at the first
column, between two lexemes.  It differs from a scanner that has read nothing
only in the tokens found and in the number of the line.

Neither matters to what follows.  A scanner that stands further down, behind
earlier tokens (`Scanner.below`), goes on as it would without them; what it
finds, and what it refuses, stands so many lines further down
(`Scanner.run_below`).
-/

namespace ProtoScript

universe u v

namespace Position

/-- The position so many lines further down, in the same column. -/
def down (k : Nat) (p : Position) : Position := ⟨p.line + k, p.column⟩

theorem right_down (k : Nat) (p : Position) : (p.down k).right = p.right.down k := rfl

theorem advance_down (k : Nat) (p : Position) (c : Char) :
    (p.down k).advance c = (p.advance c).down k := by
  unfold advance
  split
  · simp only [down, Nat.add_right_comm]
  · exact right_down k p

end Position

/-- The same so many lines further down. -/
def Located.down {α : Type u} (k : Nat) (x : Located α) : Located α := ⟨x.item, x.position.down k⟩

/-- The pending part of a scan that is so many lines further down. -/
def Pending.down (k : Nat) : Pending → Pending
  | .blank => .blank
  | .word start l => .word (start.down k) l
  | .number start l => .number (start.down k) l
  | .text start l => .text (start.down k) l
  | .escape start l => .escape (start.down k) l
  | .symbol start first => .symbol (start.down k) first
  | .comment => .comment

namespace Scanner

/-- The scan so many lines further down, behind earlier tokens, of which the last one comes
first. -/
def below (k : Nat) (earlier : List Token) (s : Scanner) : Scanner where
  position := s.position.down k
  pending := s.pending.down k
  found := s.found.map (Located.down k) ++ earlier

/-- What a reader gives so many lines further down: another result, or the same problem there. -/
def moved {α : Type u} {β : Type v} (k : Nat) (f : α → β) :
    Except (Located ScanProblem) α → Except (Located ScanProblem) β
  | .ok a => .ok (f a)
  | .error e => .error (e.down k)

variable {k : Nat} {earlier : List Token} {s : Scanner}

theorem moved_bind {α β γ δ : Type} {f : α → β} {g : γ → δ}
    {x : Except (Located ScanProblem) α} {p : α → Except (Located ScanProblem) γ}
    {q : β → Except (Located ScanProblem) δ} (h : ∀ a, q (f a) = moved k g (p a)) :
    (moved k f x).bind q = moved k g (x.bind p) := by
  cases x with
  | ok a => exact h a
  | error e => rfl

theorem flush_below :
    (s.below k earlier).flush = moved k (fun l => l.map (Located.down k) ++ earlier) s.flush := by
  -- A number and a symbol may be refused where they start.
  have hlocate : ∀ (p : Position) (r : Except ScanProblem Lexeme) (l : List Token),
      (locate (p.down k) r).map (· :: (l.map (Located.down k) ++ earlier))
        = moved k (fun l => l.map (Located.down k) ++ earlier) ((locate p r).map (· :: l)) := by
    intro p r l
    cases r <;> rfl
  obtain ⟨position, pending, found⟩ := s
  cases pending with
  | number start l => exact hlocate start _ found
  | symbol start c => exact hlocate start _ found
  | _ => rfl

theorem enter_below (p : Position) (found : List Token) (c : Char) :
    enter (p.down k) (found.map (Located.down k) ++ earlier) c
      = moved k (below k earlier) (enter p found c) := by
  have hnext := p.advance_down k c
  unfold enter
  rw [hnext]
  split_ifs <;> rfl

theorem restart_below (c : Char) :
    (s.below k earlier).restart c = moved k (below k earlier) (s.restart c) := by
  unfold restart
  rw [flush_below]
  exact moved_bind fun found => enter_below s.position found c

/-- **A character is read further down as it is read here.** -/
theorem step_below (c : Char) :
    (s.below k earlier).step c = moved k (below k earlier) (s.step c) := by
  have hrestart : (s.below k earlier).restart c = moved k (below k earlier) (s.restart c) :=
    restart_below c
  have hnext := s.position.advance_down k c
  obtain ⟨position, pending, found⟩ := s
  simp only [below, Pending.down] at hrestart hnext ⊢
  cases pending with
  | blank => exact hrestart
  | comment =>
      simp only [step, hnext]
      split
      · exact hrestart
      · rfl
  | word start l =>
      simp only [step, hnext]
      split
      · rfl
      · exact hrestart
  | number start l =>
      simp only [step, hnext]
      split
      · rfl
      · exact hrestart
  | symbol start first =>
      simp only [step, hnext]
      split
      · rfl
      · cases pair? first c with
        | some symbol => rfl
        | none => exact hrestart
  | text start l =>
      simp only [step, hnext]
      split_ifs <;> rfl
  | escape start l => rfl

/-- **A text is read further down as it is read here.** -/
theorem run_below (l : List Char) :
    (s.below k earlier).run l = moved k (below k earlier) (s.run l) := by
  induction l generalizing s with
  | nil => rfl
  | cons c l ih =>
      rw [run_cons, run_cons, step_below]
      exact moved_bind fun t => ih

theorem finish_below : (s.below k earlier).finish
    = moved k (fun us => earlier.reverse ++ us.map (Located.down k)) s.finish := by
  unfold finish
  rw [flush_below]
  cases s.flush with
  | ok found =>
      simp [moved, Except.map, below, Located.down]
  | error e => rfl

/-- **A line feed ends everything but a string literal.** -/
theorem step_lineFeed {ts : List Token} (h : s.flush = .ok ts) :
    s.step '\n' = .ok (initial.below s.position.line ts) := by
  have hrestart : s.restart '\n' = .ok (initial.below s.position.line ts) := by
    have hnext : s.position.advance '\n' = Position.start.down s.position.line := by
      simp [Position.advance, Position.start, Position.down, Nat.add_comm]
    rw [restart, h]
    show enter s.position ts '\n' = _
    simp only [enter, hnext]
    rfl
  obtain ⟨position, pending, found⟩ := s
  cases pending with
  | blank => exact hrestart
  | comment => exact hrestart
  | word start l => exact hrestart
  | number start l => exact hrestart
  | symbol start first =>
      have hslash : ¬(first = '/' ∧ '\n' = '/') := fun hc => absurd hc.2 (by decide)
      have hpair : pair? first '\n' = none := by
        unfold pair?
        split <;> first | rfl | contradiction
      simp only [step, if_neg hslash, hpair]
      exact hrestart
  | text start l => cases h
  | escape start l => cases h

end Scanner

/-- **Scanning is compositional at line breaks.**  A text that can be scanned, a line feed and
another text have the tokens of both, less the end of the first, and a problem of the second is
theirs; what belongs to the second text stands as many lines further down as the first one has. -/
theorem scan_line_break {a : String} {ts : List Token} (h : Token.scan a = .ok ts) :
    ∃ found eof, ts = found ++ [eof] ∧ eof.item = .finish ∧ ∀ b : String,
      (∀ us, Token.scan b = .ok us →
        Token.scan (a ++ "\n" ++ b) = .ok (found ++ us.map (Located.down eof.position.line))) ∧
      ∀ e, Token.scan b = .error e →
        Token.scan (a ++ "\n" ++ b) = .error (e.down eof.position.line) ∧
        Diagnostic.ofScanProblem (e.down eof.position.line) =
          { Diagnostic.ofScanProblem e with position := e.position.down eof.position.line } := by
  unfold Token.scan at h
  cases hrun : Scanner.initial.run a.toList with
  | error e => rw [hrun] at h; cases h
  | ok s =>
      rw [hrun] at h
      have hfinish : s.finish = .ok ts := h
      cases hflush : s.flush with
      | error e => rw [Scanner.finish, hflush] at hfinish; cases hfinish
      | ok found =>
          have hts : ts = found.reverse ++ [⟨.finish, s.position⟩] := by
            rw [Scanner.finish, hflush] at hfinish
            cases hfinish
            exact List.reverse_cons
          -- Behind the line feed the scanner starts anew, further down.
          have hscan : ∀ b : String, Token.scan (a ++ "\n" ++ b) = Scanner.moved s.position.line
              (fun us => found.reverse ++ us.map (Located.down s.position.line))
              (Token.scan b) := by
            intro b
            have hbreak := Scanner.step_lineFeed hflush
            have htext : (a ++ "\n" ++ b).toList = a.toList ++ '\n' :: b.toList := by
              simp [String.toList_append]
            rw [Token.scan, htext, Scanner.run_append, hrun]
            show ((s.step '\n').bind fun t => t.run b.toList).bind Scanner.finish = _
            rw [hbreak]
            show ((Scanner.initial.below s.position.line found).run b.toList).bind _ = _
            rw [Scanner.run_below]
            exact Scanner.moved_bind fun t => Scanner.finish_below
          refine ⟨found.reverse, ⟨.finish, s.position⟩, hts, rfl, fun b => ⟨fun us hb => ?_,
            fun e hb => ⟨?_, rfl⟩⟩⟩
          · rw [hscan b, hb]
            rfl
          · rw [hscan b, hb]
            rfl

/-- A text that ends with an operator, after a string in which an escaped line feed is counted as a
column: the operator is not extended behind the line break, and a problem is moved down. -/
theorem scan_line_break_operator :
    Token.scan "\"\\\n\" =" = .ok [⟨.text "\n", ⟨1, 1⟩⟩, ⟨.operator "=", ⟨1, 6⟩⟩,
      ⟨.finish, ⟨1, 7⟩⟩] ∧
    Token.scan ("\"\\\n\" =" ++ "\n" ++ "= 7") = .ok [⟨.text "\n", ⟨1, 1⟩⟩,
      ⟨.operator "=", ⟨1, 6⟩⟩, ⟨.operator "=", ⟨2, 1⟩⟩, ⟨.integer 7, ⟨2, 3⟩⟩, ⟨.finish, ⟨2, 4⟩⟩] ∧
    Token.scan ("\"\\\n\" =" ++ "\n" ++ "\n &") = .error ⟨.undoubled '&', ⟨3, 2⟩⟩ := by
  have ha : Token.scan "\"\\\n\" =" = .ok [⟨.text "\n", ⟨1, 1⟩⟩, ⟨.operator "=", ⟨1, 6⟩⟩,
      ⟨.finish, ⟨1, 7⟩⟩] := rfl
  have hsecond : Token.scan "= 7" = .ok [⟨.operator "=", ⟨1, 1⟩⟩, ⟨.integer 7, ⟨1, 3⟩⟩,
      ⟨.finish, ⟨1, 4⟩⟩] := rfl
  have hproblem : Token.scan "\n &" = .error ⟨.undoubled '&', ⟨2, 2⟩⟩ := rfl
  obtain ⟨found, eof, hts, -, hb⟩ := scan_line_break ha
  have hsplit : [⟨.text "\n", ⟨1, 1⟩⟩, ⟨.operator "=", ⟨1, 6⟩⟩] ++ [⟨.finish, ⟨1, 7⟩⟩]
      = found ++ [eof] := hts
  obtain ⟨rfl, heof⟩ := List.append_inj' hsplit rfl
  obtain rfl := List.singleton_inj.1 heof
  exact ⟨ha, (hb "= 7").1 _ hsecond, ((hb "\n &").2 _ hproblem).1⟩

end ProtoScript
