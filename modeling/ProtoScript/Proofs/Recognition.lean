import Mathlib.Logic.ExistsUnique
import ProtoScript.Proofs.Soundness
/-!
# The parser recognizes its grammar

Tokens are a program where the lexemes before the end of the text have a derivation
with a tree, and nowhere else; the program consists of the trees of this derivation,
and there is no other derivation.  In the same way an expression is read at any place
of a list of tokens where the derivation of an expression begins with which the rest
does not go on.
-/

namespace ProtoScript
namespace Grammar

/-! ### Derivations have no end of the text -/

theorem itemsTail_no_finish (comma : Bool) {items : List (List Lexeme)}
    (h : ∀ item ∈ items, .finish ∉ item) : .finish ∉ itemsTail comma items := by
  induction items with
  | nil => cases comma <;> simp [itemsTail]
  | cons item items ih =>
      obtain ⟨hitem, hitems⟩ := List.forall_mem_cons.1 h
      simp [itemsTail, hitem, ih hitems]

theorem paramTokens_no_finish (p : Param) : .finish ∉ paramTokens p := by
  obtain ⟨name, byRef⟩ := p
  cases byRef <;> simp [paramTokens]

theorem Params.no_finish (d : Params) : .finish ∉ d.tail := by
  cases d with
  | empty => simp [tail]
  | list first more comma =>
      have hmore : ∀ item ∈ more.map paramTokens, Lexeme.finish ∉ item := by
        intro item hitem
        obtain ⟨p, -, rfl⟩ := List.mem_map.1 hitem
        exact paramTokens_no_finish p
      simp [tail, paramTokens_no_finish, itemsTail_no_finish comma hmore]

mutual

theorem Primary.no_finish : ∀ d : Primary, .finish ∉ d.tokens
  | .int _ | .text _ | .truth _ | .nil | .newObject | .name _ => by simp [Primary.tokens]
  | .lambda params body => by simp [Primary.tokens, params.no_finish, Block.no_finish body]
  | .call _ args => by simp [Primary.tokens, Arguments.no_finish args]
  | .parentheses inner => by simp [Primary.tokens, Operand.no_finish inner]
termination_by structural d => d

theorem Selectors.no_finish : ∀ d : Selectors, .finish ∉ d.tokens
  | .done => by simp [Selectors.tokens]
  | .field _ rest => by simp [Selectors.tokens, Selectors.no_finish rest]
  | .method _ args rest => by
      simp [Selectors.tokens, Arguments.no_finish args, Selectors.no_finish rest]
termination_by structural d => d

theorem Unary.no_finish : ∀ d : Unary, .finish ∉ d.tokens
  | .op _ _ _ operand => by simp [Unary.tokens, Unary.no_finish operand]
  | .access base selectors => by
      simp [Unary.tokens, Primary.no_finish base, Selectors.no_finish selectors]
termination_by structural d => d

theorem Operand.no_finish : ∀ {k : Nat} (d : Operand k), .finish ∉ d.tokens
  | _, .unary u => Unary.no_finish u
  | _, .level first rest => by
      simp [Operand.tokens, Operand.no_finish first, Chain.no_finish rest]
termination_by structural _ d => d

theorem Chain.no_finish : ∀ {k : Nat} (d : Chain k), .finish ∉ d.tokens
  | _, .done => by simp [Chain.tokens]
  | _, .more _ _ _ right rest => by
      simp [Chain.tokens, Operand.no_finish right, Chain.no_finish rest]
termination_by structural _ d => d

theorem Arguments.no_finish : ∀ d : Arguments, .finish ∉ d.tail
  | .empty => by simp [Arguments.tail]
  | .list first more comma => by
      simp [Arguments.tail, Operand.no_finish first,
        itemsTail_no_finish comma (Expressions.no_finish more)]
termination_by structural d => d

theorem Expressions.no_finish : ∀ d : Expressions, ∀ item ∈ d.items, .finish ∉ item
  | .done => nofun
  | .more first rest =>
      List.forall_mem_cons.2 ⟨Operand.no_finish first, Expressions.no_finish rest⟩
termination_by structural d => d

theorem Block.no_finish : ∀ d : Block, .finish ∉ d.tail
  | .done => by simp [Block.tail]
  | .more first rest => by simp [Block.tail, Statement.no_finish first, Block.no_finish rest]
termination_by structural d => d

theorem Statement.no_finish : ∀ d : Statement, .finish ∉ d.tokens
  | .leave => by simp [Statement.tokens]
  | .give value => by simp [Statement.tokens, Operand.no_finish value]
  | .branch b => by simp [Statement.tokens, Branch.no_finish b]
  | .loop condition body => by
      simp [Statement.tokens, Operand.no_finish condition, Block.no_finish body]
  | .assign target value => by
      simp [Statement.tokens, Operand.no_finish target, Operand.no_finish value]
  | .call e => by simp [Statement.tokens, Operand.no_finish e]
termination_by structural d => d

theorem Branch.no_finish : ∀ d : Branch, .finish ∉ d.tail
  | .mk condition yes other => by
      simp [Branch.tail, Operand.no_finish condition, Block.no_finish yes,
        Alternative.no_finish other]
termination_by structural d => d

theorem Alternative.no_finish : ∀ d : Alternative, .finish ∉ d.tokens
  | .none => by simp [Alternative.tokens]
  | .block no => by simp [Alternative.tokens, Block.no_finish no]
  | .branch no => by simp [Alternative.tokens, Branch.no_finish no]
termination_by structural d => d

end

theorem programTokens_no_finish (d : List Func) : .finish ∉ programTokens d := by
  induction d with
  | nil => simp
  | cons f d ih => simp [Func.tokens, f.params.no_finish, f.body.no_finish, ih]

/-! ### Recognition -/

/-- The lexemes before the end of the text. -/
def beforeFinish (l : List Lexeme) : List Lexeme := l.takeWhile (· ≠ .finish)

theorem beforeFinish_append {l r : List Lexeme} (hl : .finish ∉ l)
    (hr : r.headD .finish = .finish) :
    beforeFinish (l ++ r) = l := by
  have hall : ∀ x ∈ l, decide (x ≠ .finish) = true := by
    intro x hx
    simpa using fun h : x = .finish => hl (h ▸ hx)
  rw [beforeFinish, List.takeWhile_append_of_pos hall]
  cases r with
  | nil => simp
  | cons x r => simp_all

theorem exists_of_beforeFinish (l : List Lexeme) :
    ∃ r, l = beforeFinish l ++ r ∧ r.headD .finish = .finish := by
  induction l with
  | nil => exact ⟨[], rfl, rfl⟩
  | cons x l ih =>
      by_cases hx : x = .finish
      · exact ⟨x :: l, by simp [beforeFinish, hx], hx⟩
      · obtain ⟨r, hl, hr⟩ := ih
        refine ⟨r, ?_, hr⟩
        rw [beforeFinish, List.takeWhile_cons_of_pos (by simpa using hx), List.cons_append]
        exact congrArg _ hl

/-- **The reader of routines recognizes programs.** -/
theorem routines_eq_ok_iff {l : List Lexeme} {ts : List Routine} {n : Nat}
    (hn : Parser.callsPerToken * l.length < n) :
    (∃ r, Parser.routines n l = .ok ts r) ↔
      ∃ d : List Func, programTokens d = beforeFinish l ∧ programTrees? d = some ts := by
  constructor
  · rintro ⟨r, h⟩
    obtain ⟨d, rfl, hd, hr⟩ := Parser.routines_sound h
    exact ⟨d, (beforeFinish_append (programTokens_no_finish d) hr).symm, hd⟩
  · rintro ⟨d, hd, ht⟩
    obtain ⟨r, hl, hr⟩ := exists_of_beforeFinish l
    rw [← hd] at hl
    subst hl
    refine ⟨r, routines_read d ht hr (Nat.lt_of_le_of_lt ?_ hn)⟩
    exact Nat.mul_le_mul_left _ (by simp)

/-- **The reader of expressions recognizes expressions.** -/
theorem expression_eq_ok_iff {l r : List Lexeme} {t : Expr} {n : Nat}
    (hn : Parser.callsPerToken * l.length + 14 ≤ n) :
    Parser.expression n l = .ok t r ↔ ∃ d : Expression,
      l = d.tokens ++ r ∧ d.tree? = some t ∧ Closes 5 d.isOpen r := by
  refine ⟨(Parser.sound n).expression, ?_⟩
  rintro ⟨d, rfl, ht, hc⟩
  refine d.expression_reads ht hc (Nat.le_trans (Nat.add_le_add_right ?_ _) hn)
  exact Nat.mul_le_mul_left _ (by simp)

end Grammar

namespace Reading

open Grammar

/-- Where an expression is read, and where the reading goes on after it. -/
theorem expression_eq_ok_iff (r r' : Reading) (e : Expr) :
    r.expression = .ok (e, r') ↔ ∃ d : Expression, d.tree? = some e ∧
      r' = { r with next := r.next + d.tokens.length } ∧ r.rest = d.tokens ++ r'.rest ∧
        Closes 5 d.isOpen r'.rest := by
  have hbound : Parser.callsPerToken * r.rest.length + 14 ≤ Parser.bound r.rest.length := by
    simp only [Parser.bound, Parser.callsPerToken]
    omega
  -- The place after an expression, told from the lexemes that are left.
  have hplace : ∀ (d : Expression) (l : List Lexeme), r.rest = d.tokens ++ l →
      ({ r with next := r.tokens.length - l.length } : Reading)
          = { r with next := r.next + d.tokens.length } ∧
        ({ r with next := r.next + d.tokens.length } : Reading).rest = l := by
    intro d l hl
    have hlength := congrArg List.length hl
    have hpos := d.length_pos
    simp only [rest, List.length_map, List.length_drop, List.length_append] at hlength
    refine ⟨by congr 1; omega, ?_⟩
    have hdrop : r.rest.drop d.tokens.length = l := by rw [hl, List.drop_left]
    rw [← hdrop, rest, rest, ← List.map_drop, List.drop_drop]
  constructor
  · intro h
    rw [expression, apply] at h
    split at h
    · next t l hok =>
        cases h
        obtain ⟨d, hl, hd, hc⟩ := (Grammar.expression_eq_ok_iff hbound).1 hok
        obtain ⟨hnext, hrest⟩ := hplace d l hl
        rw [hnext]
        exact ⟨d, hd, rfl, by rw [hrest, hl], by rwa [hrest]⟩
    · cases h
  · rintro ⟨d, hd, rfl, hl, hc⟩
    rw [expression, apply, (Grammar.expression_eq_ok_iff hbound).2 ⟨d, hl, hd, hc⟩]
    exact congrArg (fun r' => Except.ok (e, r')) (hplace d _ hl).1

end Reading

/-- Where tokens are a program. -/
theorem Program.ofTokens_eq_ok_iff (tokens : List Token) (p : Program) :
    ofTokens tokens = .ok p ↔ ∃ d : List Grammar.Func,
      Grammar.programTokens d = Grammar.beforeFinish (tokens.map Located.item) ∧
        Grammar.programTrees? d = some p.routines := by
  have hrest : (Reading.ofTokens tokens).rest = tokens.map Located.item := rfl
  have hbound : Parser.callsPerToken * (tokens.map Located.item).length
      < Parser.bound (tokens.map Located.item).length := by
    simp only [Parser.bound, Parser.callsPerToken]
    omega
  rw [← Grammar.routines_eq_ok_iff hbound, ofTokens, Reading.program, Reading.apply, hrest,
    Parser.program]
  constructor
  · intro h
    split at h
    · next q l hok =>
        obtain ⟨ts, l', hts, hret⟩ := Parser.bind_eq_ok hok
        cases hret
        cases h
        exact ⟨l, hts⟩
    · cases h
  · rintro ⟨l, hts⟩
    rw [Parser.bind_of_ok hts]
    rfl

/-- **The parser accepts its grammar and nothing else, and builds the tree that the grammar
assigns.**  Tokens are a program exactly where the lexemes before the end of the text have a
derivation with trees, and the program consists of these trees.  An expression is read, from any
place on, exactly where the lexemes begin with those of a derivation that has a tree and with which
the rest does not go on; the reading goes on after them.  There is never a second derivation. -/
theorem recognition (tokens : List Token) :
    (∀ p : Program, Program.ofTokens tokens = .ok p ↔ ∃! d : List Grammar.Func,
      Grammar.programTokens d = Grammar.beforeFinish (tokens.map Located.item) ∧
        Grammar.programTrees? d = some p.routines) ∧
    (∀ (next : Nat) (e : Expr) (r : Reading),
      (Reading.mk tokens next).expression = .ok (e, r) ↔ ∃! d : Grammar.Expression,
        d.tree? = some e ∧ r = ⟨tokens, next + d.tokens.length⟩ ∧
          (Reading.mk tokens next).rest = d.tokens ++ r.rest ∧
            Grammar.Closes 5 d.isOpen r.rest) ∧
    Function.Injective Grammar.programTokens := by
  refine ⟨fun p => ?_, fun next e r => ?_, fun _ _ => Grammar.program_unique⟩
  · rw [Program.ofTokens_eq_ok_iff]
    refine ⟨?_, ExistsUnique.exists⟩
    rintro ⟨d, hd, ht⟩
    exact ⟨d, ⟨hd, ht⟩, fun d' hd' => Grammar.program_unique (hd'.1.trans hd.symm)⟩
  · rw [Reading.expression_eq_ok_iff]
    refine ⟨?_, ExistsUnique.exists⟩
    rintro ⟨d, hd, hr, hl, hc⟩
    refine ⟨d, ⟨hd, hr, hl, hc⟩, ?_⟩
    rintro d' ⟨-, -, hl', hc'⟩
    exact (Grammar.Operand.unique d' d (hl'.symm.trans hl) hc' hc).1

/-- The lexemes of `func main() { o.x = 1 + 2 * 3 < -4 || b - 5 - 6; }`. -/
def Grammar.mixed : List Lexeme :=
  [.keyword "func", .identifier "main", .mark '(', .mark ')', .mark '\x7b',
    .identifier "o", .mark '.', .identifier "x", .operator "=",
    .integer 1, .operator "+", .integer 2, .operator "*", .integer 3, .operator "<",
    .operator "-", .integer 4, .operator "||",
    .identifier "b", .operator "-", .integer 5, .operator "-", .integer 6, .mark ';', .mark '\x7d']

/-- An assignment to a field, with operators of four levels and a sign: the product is an operand of
the sum, the sum of the comparison, this one of the disjunction, and differences are taken from the
left. -/
theorem recognition_mixed : ∃! d : List Grammar.Func, Grammar.programTokens d = Grammar.mixed ∧
    Grammar.programTrees? d = some [.mk "main" [] [.assign (.field (.variable "o") "x")
      (.binary .or
        (.binary .lt (.binary .add (.int 1) (.binary .mul (.int 2) (.int 3)))
          (.unary .neg (.int 4)))
        (.binary .sub (.binary .sub (.variable "b") (.int 5)) (.int 6)))]] :=
  ((recognition (Grammar.mixed.map (⟨·, .unknown⟩))).1 ⟨_⟩).1 rfl

end ProtoScript
