import ProtoScript.Proofs.Unambiguity
import ProtoScript.Tree.OfTokens
/-!
# Readers find every derivation

Wherever lexemes begin with those of a derivation that has a tree, and what follows
does not go on with it, the reader gives this tree and stops where the derivation
ends.  This is shown by recursion over the derivation.

A reader that calls itself is given a bound.  A derivation of `k` lexemes is read
under every bound from `callsPerToken * k` on, and a few calls more: those that
come before the first lexeme is taken.  An operand of the loosest level needs the
most of them, two for every level.
-/

namespace ProtoScript

theorem Precedence.rank_le (p : Precedence) : p.rank ≤ 4 := by
  cases p <;> decide

theorem Precedence.rank_injective {p q : Precedence} (h : p.rank = q.rank) : p = q := by
  cases p <;> cases q <;> first | rfl | cases h

namespace Parser

open Grammar

variable {α β : Type} {l l' r : List Lexeme} {n : Nat}

/-! ### Operators, levels and targets are those of the grammar -/

/-- **The readers know the operators of the grammar**, each at its level. -/
theorem operatorAt?_eq_some_iff {p : Precedence} {x : Lexeme} {op : BinaryOperator} :
    operatorAt? p x = some op ↔
      ∃ symbol, x = .operator symbol ∧ (symbol, op) ∈ operators p.rank := by
  constructor
  · intro h
    unfold operatorAt? at h
    split at h
    · next symbol =>
        obtain ⟨hop, hp⟩ := Option.filter_eq_some_iff.1 h
        refine ⟨symbol, rfl, mem_operators.2 ⟨BinaryOperator.symbol_of_ofSymbol? hop, ?_⟩⟩
        rw [of_decide_eq_true hp]
    · cases h
  · rintro ⟨symbol, rfl, h⟩
    obtain ⟨rfl, hp⟩ := mem_operators.1 h
    simp [operatorAt?, BinaryOperator.ofSymbol?_symbol, Option.filter,
      Precedence.rank_injective hp]

/-- The readers know the signs of the grammar. -/
theorem unaryOperator?_eq_some_iff {x : Lexeme} {op : UnaryOperator} :
    unaryOperator? x = some op ↔ ∃ symbol, x = .operator symbol ∧ (symbol, op) ∈ signs := by
  constructor
  · intro h
    unfold unaryOperator? at h
    split at h
    · next symbol => exact ⟨symbol, rfl, mem_signs.2 (by simpa using List.find?_some h)⟩
    · cases h
  · rintro ⟨symbol, rfl, h⟩
    rw [← mem_signs.1 h]
    exact UnaryOperator.ofSymbol?_symbol op

/-- The readers assign to what the grammar assigns to. -/
theorem target?_eq : Parser.target? = Grammar.target? := by
  funext e
  cases e <;> rfl

/-- The number of levels of which an operand may have operators. -/
def height : Option Precedence → Nat
  | none => 0
  | some p => p.rank + 1

theorem height_tighter (p : Precedence) : height p.tighter? = p.rank := by
  cases p <;> rfl

/-! ### Steps -/

theorem bind_of_ok {x : Parser α} {f : α → Parser β} {a : α} (h : x l = .ok a l') :
    (x >>= f) l = f a l' := by
  simp only [bind, EStateM.bind, h]

@[simp] theorem peek_bind (f : Lexeme → Parser β) (l : List Lexeme) :
    (peek >>= f) l = f (l.headD .finish) l := rfl

@[simp] theorem skip_bind (f : Unit → Parser β) (l : List Lexeme) :
    (skip >>= f) l = f () l.tail := rfl

@[simp] theorem pure_apply (a : α) (l : List Lexeme) : (pure a : Parser α) l = .ok a l := rfl

theorem expect_cons (symbol : Char) (l : List Lexeme) :
    expect symbol (.mark symbol :: l) = .ok () l := by
  rw [expect, peek_bind, List.headD_cons, if_pos rfl]
  rfl

theorem identifier_cons (name : String) (l : List Lexeme) :
    identifier (.identifier name :: l) = .ok name l := rfl

theorem acceptWord_cons (word : String) (l : List Lexeme) :
    acceptWord word (.keyword word :: l) = .ok true l := by
  rw [acceptWord, peek_bind, List.headD_cons, if_pos rfl]
  rfl

theorem headD_ne {x : Lexeme} (hx : x ≠ .finish) (h : l.head? ≠ some x) :
    l.headD .finish ≠ x := by
  cases l with
  | nil => exact hx.symm
  | cons y l => exact fun hy => h (congrArg some hy)

/-- A word that does not come next is not taken. -/
theorem acceptWord_of_ne {word : String} (h : l.head? ≠ some (.keyword word)) :
    acceptWord word l = .ok false l := by
  rw [acceptWord, peek_bind, if_neg (headD_ne (by simp) h)]
  rfl

/-- An operand of a level, or without levels. -/
def atLevel (n : Nat) : Option Precedence → Parser Expr
  | none => unary n
  | some p => binary n p

theorem operand_succ (n : Nat) (p : Precedence) : operand (n + 1) p = atLevel n p.tighter? := by
  rw [operand]
  cases p.tighter? <;> rfl

/-- The calls from an expression on to an operand of the loosest level. -/
theorem expression_of_atLevel {k : Nat} {e : Expr}
    (h : ∀ m o, height o = 5 → k + 10 ≤ m → atLevel (m + 3) o l = .ok e r)
    (hn : k + 14 ≤ n) : expression n l = .ok e r := by
  obtain ⟨m, rfl⟩ : ∃ m, n = m + 4 := ⟨n - 4, by omega⟩
  rw [expression]
  exact h m (some .disjunction) rfl (by omega)

theorem arguments_of_tail {es : List Expr} (h : argumentsTail n l = .ok es r) :
    arguments (n + 1) (.mark '(' :: l) = .ok es r := by
  rw [arguments, bind_of_ok (expect_cons _ _), h]

theorem condition_of_expression {e : Expr} (h : expression n l = .ok e (.mark ')' :: r)) :
    condition (n + 1) (.mark '(' :: l) = .ok e r := by
  rw [condition, bind_of_ok (expect_cons _ _), bind_of_ok h]
  exact bind_of_ok (expect_cons _ _)

theorem block_of_statements {ss : List Stmt} (h : statements n l = .ok ss r) :
    block (n + 1) (.mark '\x7b' :: l) = .ok ss r := by
  rw [block, bind_of_ok (expect_cons _ _), h]

/-- The rest of a conditional statement. -/
def otherwise (n : Nat) (test : Expr) (yes : List Stmt) : Parser Stmt := do
  if ← acceptWord "else" then
    if ← acceptWord "if" then
      let inner ← branch n
      return .branch test yes (some [inner])
    else
      let no ← block n
      return .branch test yes (some no)
  else
    return .branch test yes none

theorem branch_succ (n : Nat) : branch (n + 1) = (do
    let test ← condition n
    let yes ← block n
    otherwise n test yes) := by
  rw [branch]
  rfl

/-- What begins with a lexeme that opens an expression is no statement with a word. -/
theorem statement_of_opens {x : Lexeme} (hx : x.Opens) :
    statement (n + 1) (x :: l) = simple n (x :: l) := by
  rw [statement, peek_bind, List.headD_cons]
  split <;> first | rfl | simp [Lexeme.Opens] at hx

end Parser

namespace Grammar

open ProtoScript.Parser

variable {r : List Lexeme} {n : Nat}

/-! ### Parameters -/

theorem paramTokens_head (p : Param) (c : Char) :
    (paramTokens p ++ r).headD .finish ≠ .mark c := by
  obtain ⟨name, byRef⟩ := p
  cases byRef <;> nofun

/-- A parameter is read, whatever the reader does next. -/
theorem paramTokens_reads {β : Type} (p : Param) (f : Bool → String → Parser β) :
    (acceptWord "ref" >>= fun byRef => identifier >>= f byRef) (paramTokens p ++ r)
      = f p.byRef p.name r := by
  obtain ⟨name, byRef⟩ := p
  cases byRef with
  | true => exact (bind_of_ok (acceptWord_cons "ref" _)).trans (bind_of_ok (identifier_cons name r))
  | false =>
      refine (bind_of_ok (acceptWord_of_ne ?_)).trans (bind_of_ok (identifier_cons name r))
      simp [paramTokens]

theorem itemsTail_length_pos (comma : Bool) (items : List (List Lexeme)) :
    0 < (itemsTail comma items).length := by
  cases items with
  | nil => cases comma <;> simp [itemsTail]
  | cons item items => exact Nat.succ_pos _

theorem params_read (comma : Bool) : ∀ (first : Param) (more : List Param) {n : Nat},
    (itemsTail comma (more.map paramTokens)).length < n →
      paramsTail n (paramTokens first ++ (itemsTail comma (more.map paramTokens) ++ r))
        = .ok (first :: more) r
  | first, [], n, hn => by
      have hpos := itemsTail_length_pos comma []
      obtain ⟨m, rfl⟩ : ∃ m, n = m + 2 := ⟨n - 2, by rw [List.map_nil] at hn; omega⟩
      rw [paramsTail, peek_bind, if_neg (paramTokens_head first ')')]
      refine (paramTokens_reads first _).trans ?_
      cases comma <;> rfl
  | first, second :: more, n + 1, hn => by
      rw [paramsTail, peek_bind, if_neg (paramTokens_head first ')')]
      refine (paramTokens_reads first _).trans ?_
      rw [List.map_cons, itemsTail] at hn ⊢
      have ih := params_read comma second more (n := n) (by simp at hn; omega)
      rw [List.cons_append, List.append_assoc, peek_bind]
      exact bind_of_ok ih

theorem Params.reads (d : Params) (hn : d.tail.length ≤ n) :
    paramsTail n (d.tail ++ r) = .ok d.params r := by
  cases d with
  | empty =>
      obtain ⟨m, rfl⟩ : ∃ m, n = m + 1 := ⟨n - 1, by simp [tail] at hn; omega⟩
      rfl
  | list first more comma =>
      rw [tail, List.append_assoc]
      rw [tail, List.length_append] at hn
      have hfirst : 0 < (paramTokens first).length := by simp [paramTokens]
      exact params_read comma first more (by omega)

/-! ### Expressions and statements -/

theorem Operand.headD_ne {k : Nat} (d : Operand k) {x : Lexeme} (hx : ¬x.Opens) :
    (d.tokens ++ r).headD .finish ≠ x := by
  obtain ⟨y, l, hl, hy⟩ := d.begins
  rw [hl]
  rintro rfl
  exact hx hy

/-- What begins with an expression is no statement with a word. -/
theorem Operand.statement_eq {k : Nat} (d : Operand k) :
    statement (n + 1) (d.tokens ++ r) = simple n (d.tokens ++ r) := by
  obtain ⟨x, l, hl, hx⟩ := d.begins
  rw [hl]
  exact statement_of_opens hx

theorem Operand.length_pos {k : Nat} (d : Operand k) : 0 < d.tokens.length := by
  obtain ⟨x, l, hl, -⟩ := d.begins
  rw [hl]
  exact Nat.succ_pos _

mutual

theorem Primary.reads : ∀ (d : Primary) {t : Expr} {r : List Lexeme} {n : Nat},
    d.tree? = some t → (d.isOpen = true → r.head? ≠ some (.mark '(')) →
      callsPerToken * d.tokens.length ≤ n + 1 → primary (n + 1) (d.tokens ++ r) = .ok t r
  | .int value, _, r, n, ht, _, _ => by cases ht; rfl
  | .text value, _, r, n, ht, _, _ => by cases ht; rfl
  | .truth value, _, r, n, ht, _, _ => by cases ht; rfl
  | .nil, _, r, n, ht, _, _ => by cases ht; rfl
  | .newObject, _, r, n, ht, _, _ => by cases ht; rfl
  | .lambda ps body, t, r, n, ht, _, hn => by
      obtain ⟨l, hl, rfl⟩ := Option.map_eq_some_iff.1 ht
      simp only [Primary.tokens, callsPerToken, List.length_cons, List.length_append] at hn
      obtain ⟨m, rfl⟩ : ∃ m, n = m + 1 := ⟨n - 1, by omega⟩
      have hps : Parser.params (m + 1) (.mark '(' :: (ps.tail ++ .mark '\x7b' :: (body.tail ++ r)))
          = .ok ps.params (.mark '\x7b' :: (body.tail ++ r)) :=
        (bind_of_ok (expect_cons _ _)).trans (ps.reads (by omega))
      have hblock : block (m + 1) (.mark '\x7b' :: (body.tail ++ r)) = .ok l r :=
        block_of_statements (Block.reads body hl (by simp only [callsPerToken]; omega))
      simp only [primary, Primary.tokens, List.cons_append, List.append_assoc, peek_bind,
        List.headD_cons, skip_bind, List.tail_cons]
      exact (bind_of_ok hps).trans (bind_of_ok hblock)
  | .name x, _, r, n, ht, ho, _ => by
      cases ht
      simp only [primary, Primary.tokens, List.cons_append, List.nil_append, peek_bind,
        List.headD_cons, skip_bind, List.tail_cons]
      rw [if_neg (Parser.headD_ne (by simp) (ho rfl)), pure_apply]
  | .call x args, t, r, n, ht, _, hn => by
      obtain ⟨l, hl, rfl⟩ := Option.map_eq_some_iff.1 ht
      simp only [Primary.tokens, callsPerToken, List.length_cons] at hn
      obtain ⟨m, rfl⟩ : ∃ m, n = m + 1 := ⟨n - 1, by omega⟩
      have hargs : arguments (m + 1) (.mark '(' :: (args.tail ++ r)) = .ok l r :=
        arguments_of_tail (Arguments.reads args hl (by simp only [callsPerToken]; omega))
      simp only [primary, Primary.tokens, List.cons_append, peek_bind, List.headD_cons,
        skip_bind, List.tail_cons]
      exact bind_of_ok hargs
  | .parentheses inner, t, r, n, ht, _, hn => by
      simp only [Primary.tokens, callsPerToken, List.length_cons, List.length_append] at hn
      have hinner : expression n (inner.tokens ++ .mark ')' :: r) = .ok t (.mark ')' :: r) :=
        expression_of_atLevel (fun _ _ ho => Operand.reads inner ht ho (.mark (by decide)))
          (by simp only [callsPerToken]; omega)
      simp only [primary, Primary.tokens, List.cons_append, List.append_assoc, List.nil_append,
        peek_bind, List.headD_cons, skip_bind, List.tail_cons]
      exact (bind_of_ok hinner).trans (bind_of_ok (expect_cons _ _))
termination_by structural d => d

theorem Selectors.reads : ∀ (d : Selectors) {base t : Expr} {b : Bool} {r : List Lexeme} {n : Nat},
    d.select? base = some t → Closes 0 (d.isOpen b) r → callsPerToken * d.tokens.length ≤ n →
      selectors (n + 1) base (d.tokens ++ r) = .ok t r
  | .done, base, _, b, r, n, ht, hc, _ => by
      cases ht
      rw [selectors, Selectors.tokens, List.nil_append, peek_bind,
        if_neg (Parser.headD_ne (by simp) hc.selector), pure_apply]
  | .field x rest, base, t, b, r, n, ht, hc, hn => by
      simp only [Selectors.tokens, callsPerToken, List.length_cons] at hn
      obtain ⟨m, rfl⟩ : ∃ m, n = m + 1 := ⟨n - 1, by omega⟩
      have hne : (rest.tokens ++ r).headD .finish ≠ .mark '(' :=
        Parser.headD_ne (by simp) (Closes.selectors (s := rest) (b := true) hc rfl)
      rw [selectors, Selectors.tokens, List.cons_append, List.cons_append, peek_bind,
        List.headD_cons, if_pos rfl, skip_bind, List.tail_cons,
        bind_of_ok (identifier_cons _ _), peek_bind, if_neg hne]
      exact Selectors.reads rest ht hc (by simp only [callsPerToken]; omega)
  | .method x args rest, base, t, b, r, n, ht, hc, hn => by
      obtain ⟨l, hl, hrest⟩ := Option.bind_eq_some_iff.1 ht
      simp only [Selectors.tokens, callsPerToken, List.length_cons, List.length_append] at hn
      obtain ⟨m, rfl⟩ : ∃ m, n = m + 1 := ⟨n - 1, by omega⟩
      have hargs : arguments (m + 1) (.mark '(' :: (args.tail ++ (rest.tokens ++ r)))
          = .ok l (rest.tokens ++ r) :=
        arguments_of_tail (Arguments.reads args hl (by simp only [callsPerToken]; omega))
      rw [selectors, Selectors.tokens, List.cons_append, List.cons_append, List.cons_append,
        List.append_assoc, peek_bind, List.headD_cons, if_pos rfl, skip_bind, List.tail_cons,
        bind_of_ok (identifier_cons _ _), peek_bind, List.headD_cons, if_pos rfl,
        bind_of_ok hargs]
      exact Selectors.reads rest hrest hc (by simp only [callsPerToken]; omega)
termination_by structural d => d

theorem Unary.reads : ∀ (d : Unary) {t : Expr} {r : List Lexeme} {n : Nat},
    d.tree? = some t → Closes 0 d.isOpen r → callsPerToken * d.tokens.length ≤ n →
      unary (n + 3) (d.tokens ++ r) = .ok t r
  | .op symbol op hop operand, t, r, n, ht, hc, hn => by
      obtain ⟨e, he, rfl⟩ := Option.map_eq_some_iff.1 ht
      simp only [Unary.tokens, callsPerToken, List.length_cons] at hn
      obtain ⟨m, rfl⟩ : ∃ m, n = m + 1 := ⟨n - 1, by omega⟩
      have hoperand : unary (m + 3) (operand.tokens ++ r) = .ok e r :=
        Unary.reads operand he hc (by simp only [callsPerToken]; omega)
      rw [unary, Unary.tokens, List.cons_append, peek_bind, List.headD_cons,
        unaryOperator?_eq_some_iff.2 ⟨symbol, rfl, hop⟩]
      exact bind_of_ok hoperand
  | .access base selectors, t, r, n, ht, hc, hn => by
      obtain ⟨e, he, hs⟩ := Option.bind_eq_some_iff.1 ht
      simp only [Unary.tokens, callsPerToken, List.length_append] at hn
      have hbase : primary (n + 1) (base.tokens ++ (selectors.tokens ++ r))
          = .ok e (selectors.tokens ++ r) :=
        Primary.reads base he hc.selectors (by simp only [callsPerToken]; omega)
      have hselectors : Parser.selectors (n + 1) e (selectors.tokens ++ r) = .ok t r :=
        Selectors.reads selectors hs hc (by simp only [callsPerToken]; omega)
      obtain ⟨x, l, hl, -, hx⟩ := base.begins
      have hhead : ((base.tokens ++ selectors.tokens) ++ r).headD .finish = x := by
        rw [hl]
        rfl
      have hnone : unaryOperator? x = none := by
        refine Option.eq_none_iff_forall_ne_some.2 fun op hop => ?_
        obtain ⟨symbol, hs, hsign⟩ := unaryOperator?_eq_some_iff.1 hop
        exact hx hsign hs
      rw [unary, Unary.tokens, peek_bind, hhead, hnone, List.append_assoc]
      rw [access]
      exact (bind_of_ok hbase).trans hselectors
termination_by structural d => d

theorem Operand.reads : ∀ {k : Nat} (d : Operand k) {o : Option Precedence} {t : Expr}
    {r : List Lexeme} {n : Nat}, d.tree? = some t → height o = k → Closes k d.isOpen r →
      callsPerToken * d.tokens.length + 2 * k ≤ n → atLevel (n + 3) o (d.tokens ++ r) = .ok t r
  | _, .unary u, o, t, r, n, ht, ho, hc, hn => by
      cases o with
      | none => exact Unary.reads u ht hc hn
      | some p => cases ho
  | _, .level first rest, o, t, r, n, ht, ho, hc, hn => by
      cases o with
      | none => cases ho
      | some p =>
          have hp : p.rank = _ := Nat.succ.inj ho
          obtain ⟨e, he, hj⟩ := Option.bind_eq_some_iff.1 ht
          simp only [Operand.tokens, callsPerToken, List.length_append] at hn
          obtain ⟨m, rfl⟩ : ∃ m, n = m + 2 := ⟨n - 2, by omega⟩
          have hfirst : operand (m + 4) p (first.tokens ++ (rest.tokens ++ r))
              = .ok e (rest.tokens ++ r) := by
            rw [operand_succ]
            exact Operand.reads first he ((height_tighter p).trans hp) (Closes.chain hc)
              (by simp only [callsPerToken]; omega)
          have hrest : chain (m + 4) p e (rest.tokens ++ r) = .ok t r :=
            Chain.reads rest hj hp hc (by simp only [callsPerToken]; omega)
          rw [Operand.tokens, List.append_assoc, atLevel, binary]
          exact (bind_of_ok hfirst).trans hrest
termination_by structural _ d => d

theorem Chain.reads : ∀ {k : Nat} (d : Chain k) {p : Precedence} {left t : Expr} {b : Bool}
    {r : List Lexeme} {n : Nat}, d.join? left = some t → p.rank = k →
      Closes (k + 1) (d.isOpen b) r → callsPerToken * d.tokens.length ≤ n →
        chain (n + 1) p left (d.tokens ++ r) = .ok t r
  | _, .done, p, left, _, b, r, n, ht, hp, hc, _ => by
      cases ht
      have hnone : operatorAt? p (r.headD .finish) = none := by
        refine Option.eq_none_iff_forall_ne_some.2 fun op hop => ?_
        obtain ⟨symbol, hx, hs⟩ := operatorAt?_eq_some_iff.1 hop
        exact headD_ne (by simp) (hc.operator hs (Nat.lt_succ_of_le (Nat.le_of_eq hp))) hx
      rw [chain, Chain.tokens, List.nil_append, peek_bind, hnone]
      rfl
  | _, .more symbol op hop right rest, p, left, t, b, r, n, ht, hp, hc, hn => by
      obtain ⟨e, he, hj⟩ := Option.bind_eq_some_iff.1 ht
      simp only [Chain.tokens, callsPerToken, List.length_cons, List.length_append] at hn
      have hle := p.rank_le
      obtain ⟨m, rfl⟩ : ∃ m, n = m + 4 := ⟨n - 4, by omega⟩
      have hright : operand (m + 4) p (right.tokens ++ (rest.tokens ++ r))
          = .ok e (rest.tokens ++ r) := by
        rw [operand_succ]
        exact Operand.reads right he ((height_tighter p).trans hp) (Closes.chain hc)
          (by simp only [callsPerToken]; omega)
      have hrest : chain (m + 4) p (.binary op left e) (rest.tokens ++ r) = .ok t r :=
        Chain.reads rest hj hp hc (by simp only [callsPerToken]; omega)
      rw [chain, Chain.tokens, List.cons_append, List.append_assoc, peek_bind, List.headD_cons,
        operatorAt?_eq_some_iff.2 ⟨symbol, rfl, hp.symm ▸ hop⟩]
      exact (bind_of_ok hright).trans hrest
termination_by structural _ d => d

theorem Arguments.reads : ∀ (d : Arguments) {l : List Expr} {r : List Lexeme} {n : Nat},
    d.trees? = some l → callsPerToken * d.tail.length ≤ n → argumentsTail n (d.tail ++ r) = .ok l r
  | .empty, _, r, n, ht, hn => by
      cases ht
      simp only [Arguments.tail, callsPerToken, List.length_cons] at hn
      obtain ⟨m, rfl⟩ : ∃ m, n = m + 1 := ⟨n - 1, by omega⟩
      rw [argumentsTail]
      rfl
  | .list first more comma, l, r, n, ht, hn => by
      obtain ⟨e, he, ht⟩ := Option.bind_eq_some_iff.1 ht
      obtain ⟨es, hes, rfl⟩ := Option.map_eq_some_iff.1 ht
      simp only [Arguments.tail, callsPerToken, List.length_append] at hn
      have hfirst := first.length_pos
      have hmore := itemsTail_length_pos comma more.items
      obtain ⟨m, rfl⟩ : ∃ m, n = m + 1 := ⟨n - 1, by omega⟩
      have hread : expression m (first.tokens ++ (itemsTail comma more.items ++ r))
          = .ok e (itemsTail comma more.items ++ r) :=
        expression_of_atLevel (fun _ _ ho => Operand.reads first he ho (.items _ _))
          (by simp only [callsPerToken]; omega)
      rw [Arguments.tail, List.append_assoc]
      exact Expressions.reads more hes hread (first.headD_ne (by simp [Lexeme.Opens]))
        (by simp only [callsPerToken]; omega)
termination_by structural d => d

theorem Expressions.reads : ∀ (d : Expressions) {e : Expr} {es : List Expr} {l r : List Lexeme}
    {comma : Bool} {n : Nat}, d.trees? = some es →
      expression n l = .ok e (itemsTail comma d.items ++ r) → l.headD .finish ≠ .mark ')' →
        callsPerToken * (itemsTail comma d.items).length ≤ n →
          argumentsTail (n + 1) l = .ok (e :: es) r
  | .done, e, _, l, r, comma, n, ht, he, hl, hn => by
      cases ht
      have hpos := itemsTail_length_pos comma []
      simp only [Expressions.items, callsPerToken] at hn
      obtain ⟨m, rfl⟩ : ∃ m, n = m + 1 := ⟨n - 1, by omega⟩
      rw [argumentsTail, peek_bind, if_neg hl, bind_of_ok he]
      cases comma with
      | false => rfl
      | true => rfl
  | .more first rest, e, _, l, r, comma, n, ht, he, hl, hn => by
      obtain ⟨e', he', ht⟩ := Option.bind_eq_some_iff.1 ht
      obtain ⟨es', hes', rfl⟩ := Option.map_eq_some_iff.1 ht
      simp only [Expressions.items, itemsTail, callsPerToken, List.length_cons,
        List.length_append] at hn
      have hfirst := first.length_pos
      obtain ⟨m, rfl⟩ : ∃ m, n = m + 1 := ⟨n - 1, by omega⟩
      have hread : expression m (first.tokens ++ (itemsTail comma rest.items ++ r))
          = .ok e' (itemsTail comma rest.items ++ r) :=
        expression_of_atLevel (fun _ _ ho => Operand.reads first he' ho (.items _ _))
          (by simp only [callsPerToken]; omega)
      have hrest := Expressions.reads rest hes' hread (first.headD_ne (by simp [Lexeme.Opens]))
        (by simp only [callsPerToken]; omega)
      rw [argumentsTail, peek_bind, if_neg hl, bind_of_ok he, Expressions.items, itemsTail,
        List.cons_append, List.append_assoc]
      exact bind_of_ok hrest
termination_by structural d => d

theorem Block.reads : ∀ (d : Block) {l : List Stmt} {r : List Lexeme} {n : Nat},
    d.trees? = some l → callsPerToken * d.tail.length ≤ n → statements n (d.tail ++ r) = .ok l r
  | .done, _, r, n, ht, hn => by
      cases ht
      simp only [Block.tail, callsPerToken, List.length_cons] at hn
      obtain ⟨m, rfl⟩ : ∃ m, n = m + 1 := ⟨n - 1, by omega⟩
      rw [statements]
      rfl
  | .more first rest, l, r, n, ht, hn => by
      obtain ⟨s, hs, ht⟩ := Option.bind_eq_some_iff.1 ht
      obtain ⟨ss, hss, rfl⟩ := Option.map_eq_some_iff.1 ht
      obtain ⟨x, l, hl, hbrace, -, hfinish⟩ := first.begins
      have hlength : first.tokens.length = l.length + 1 := by rw [hl]; rfl
      simp only [Block.tail, callsPerToken, List.length_append] at hn
      obtain ⟨m, rfl⟩ : ∃ m, n = m + 2 := ⟨n - 2, by omega⟩
      have hfirst : statement (m + 1) (x :: (l ++ (rest.tail ++ r))) = .ok s (rest.tail ++ r) := by
        have h := Statement.reads first (r := rest.tail ++ r) (n := m) hs rest.head_ne_else
          (by simp only [callsPerToken]; omega)
        rwa [hl] at h
      have hrest : statements (m + 1) (rest.tail ++ r) = .ok ss r :=
        Block.reads rest hss (by simp only [callsPerToken]; omega)
      rw [Block.tail, List.append_assoc, hl, List.cons_append, statements, peek_bind,
        List.headD_cons]
      split
      · exact absurd rfl hbrace
      · exact absurd rfl hfinish
      · exact (bind_of_ok hfirst).trans (bind_of_ok hrest)
termination_by structural d => d

theorem Statement.reads : ∀ (d : Statement) {s : Stmt} {r : List Lexeme} {n : Nat},
    d.tree? = some s → r.head? ≠ some (.keyword "else") → callsPerToken * d.tokens.length ≤ n + 2 →
      statement (n + 1) (d.tokens ++ r) = .ok s r
  | .leave, _, r, n, ht, _, _ => by
      cases ht
      rw [statement]
      rfl
  | .give value, _, r, n, ht, _, hn => by
      obtain ⟨e, he, rfl⟩ := Option.map_eq_some_iff.1 ht
      simp only [Statement.tokens, callsPerToken, List.length_cons, List.length_append] at hn
      have hvalue : expression n (value.tokens ++ .mark ';' :: r) = .ok e (.mark ';' :: r) :=
        expression_of_atLevel (fun _ _ ho => Operand.reads value he ho (.mark (by decide)))
          (by simp only [callsPerToken]; omega)
      have hne := value.headD_ne (r := .mark ';' :: r) (x := .mark ';') (by simp [Lexeme.Opens])
      simp only [statement, Statement.tokens, List.cons_append, List.append_assoc, List.nil_append,
        peek_bind, List.headD_cons, skip_bind, List.tail_cons]
      rw [if_neg hne, bind_of_ok hvalue]
      exact bind_of_ok (expect_cons _ _)
  | .branch b, s, r, n, ht, hr, hn => by
      simp only [Statement.tokens, callsPerToken, List.length_cons] at hn
      obtain ⟨m, rfl⟩ : ∃ m, n = m + 1 := ⟨n - 1, by omega⟩
      simp only [statement, Statement.tokens, List.cons_append, peek_bind, List.headD_cons,
        skip_bind, List.tail_cons]
      exact Branch.reads b ht hr (by simp only [callsPerToken]; omega)
  | .loop test body, _, r, n, ht, _, hn => by
      obtain ⟨c, hc, ht⟩ := Option.bind_eq_some_iff.1 ht
      obtain ⟨l, hl, rfl⟩ := Option.map_eq_some_iff.1 ht
      simp only [Statement.tokens, callsPerToken, List.length_cons, List.length_append] at hn
      obtain ⟨m, rfl⟩ : ∃ m, n = m + 1 := ⟨n - 1, by omega⟩
      have htest : expression m (test.tokens ++ .mark ')' :: .mark '\x7b' :: (body.tail ++ r))
          = .ok c (.mark ')' :: .mark '\x7b' :: (body.tail ++ r)) :=
        expression_of_atLevel (fun _ _ ho => Operand.reads test hc ho (.mark (by decide)))
          (by simp only [callsPerToken]; omega)
      have hbody : block (m + 1) (.mark '\x7b' :: (body.tail ++ r)) = .ok l r :=
        block_of_statements (Block.reads body hl (by simp only [callsPerToken]; omega))
      simp only [statement, Statement.tokens, List.cons_append, List.append_assoc, peek_bind,
        List.headD_cons, skip_bind, List.tail_cons]
      exact (bind_of_ok (condition_of_expression htest)).trans (bind_of_ok hbody)
  | .assign target value, _, r, n, ht, _, hn => by
      obtain ⟨t, ht, hs⟩ := Option.bind_eq_some_iff.1 ht
      obtain ⟨e, he, htarget⟩ := Option.bind_eq_some_iff.1 ht
      obtain ⟨v, hv, rfl⟩ := Option.map_eq_some_iff.1 hs
      simp only [Statement.tokens, callsPerToken, List.length_append, List.length_cons] at hn
      obtain ⟨m, rfl⟩ : ∃ m, n = m + 1 := ⟨n - 1, by omega⟩
      have hfirst : expression m
            (target.tokens ++ .operator "=" :: (value.tokens ++ .mark ';' :: r))
          = .ok e (.operator "=" :: (value.tokens ++ .mark ';' :: r)) :=
        expression_of_atLevel (fun _ _ ho => Operand.reads target he ho .assign)
          (by simp only [callsPerToken]; omega)
      have hvalue : expression m (value.tokens ++ .mark ';' :: r) = .ok v (.mark ';' :: r) :=
        expression_of_atLevel (fun _ _ ho => Operand.reads value hv ho (.mark (by decide)))
          (by simp only [callsPerToken]; omega)
      rw [Statement.tokens, List.append_assoc, List.cons_append, List.append_assoc,
        List.singleton_append, target.statement_eq, simple, bind_of_ok hfirst, peek_bind,
        List.headD_cons, if_pos rfl, skip_bind, List.tail_cons, target?_eq, htarget]
      exact (bind_of_ok hvalue).trans (bind_of_ok (expect_cons _ _))
  | .call e, _, r, n, ht, _, hn => by
      obtain ⟨t, ht, hs⟩ := Option.bind_eq_some_iff.1 ht
      simp only [Statement.tokens, callsPerToken, List.length_append, List.length_cons] at hn
      obtain ⟨m, rfl⟩ : ∃ m, n = m + 1 := ⟨n - 1, by omega⟩
      have hfirst : expression m (e.tokens ++ .mark ';' :: r) = .ok t (.mark ';' :: r) :=
        expression_of_atLevel (fun _ _ ho => Operand.reads e ht ho (.mark (by decide)))
          (by simp only [callsPerToken]; omega)
      rw [Statement.tokens, List.append_assoc, List.singleton_append, e.statement_eq, simple,
        bind_of_ok hfirst, peek_bind, List.headD_cons, if_neg (by simp)]
      cases t with
      | call c =>
          cases hs
          exact bind_of_ok (expect_cons _ _)
      | _ => cases hs
termination_by structural d => d

theorem Branch.reads : ∀ (d : Branch) {s : Stmt} {r : List Lexeme} {n : Nat},
    d.tree? = some s → r.head? ≠ some (.keyword "else") → callsPerToken * d.tail.length ≤ n →
      branch n (d.tail ++ r) = .ok s r
  | .mk test yes other, s, r, n, ht, hr, hn => by
      obtain ⟨c, hc, ht⟩ := Option.bind_eq_some_iff.1 ht
      obtain ⟨l, hl, ht⟩ := Option.bind_eq_some_iff.1 ht
      obtain ⟨no, hno, rfl⟩ := Option.map_eq_some_iff.1 ht
      simp only [Branch.tail, callsPerToken, List.length_cons, List.length_append] at hn
      obtain ⟨m, rfl⟩ : ∃ m, n = m + 2 := ⟨n - 2, by omega⟩
      have htest : expression m
            (test.tokens ++ .mark ')' :: .mark '\x7b' :: (yes.tail ++ (other.tokens ++ r)))
          = .ok c (.mark ')' :: .mark '\x7b' :: (yes.tail ++ (other.tokens ++ r))) :=
        expression_of_atLevel (fun _ _ ho => Operand.reads test hc ho (.mark (by decide)))
          (by simp only [callsPerToken]; omega)
      have hyes : block (m + 1) (.mark '\x7b' :: (yes.tail ++ (other.tokens ++ r)))
          = .ok l (other.tokens ++ r) :=
        block_of_statements (Block.reads yes hl (by simp only [callsPerToken]; omega))
      have hother : otherwise (m + 1) c l (other.tokens ++ r) = .ok (.branch c l no) r :=
        Alternative.reads other hno hr (by simp only [callsPerToken]; omega)
      simp only [branch_succ, Branch.tail, List.cons_append, List.append_assoc]
      exact ((bind_of_ok (condition_of_expression htest)).trans (bind_of_ok hyes)).trans hother
termination_by structural d => d

theorem Alternative.reads : ∀ (d : Alternative) {test : Expr} {yes : List Stmt}
    {no : Option (List Stmt)} {r : List Lexeme} {n : Nat}, d.trees? = some no →
      r.head? ≠ some (.keyword "else") → callsPerToken * d.tokens.length ≤ n →
        otherwise n test yes (d.tokens ++ r) = .ok (.branch test yes no) r
  | .none, test, yes, _, r, n, ht, hr, _ => by
      cases ht
      rw [otherwise, Alternative.tokens, List.nil_append, bind_of_ok (acceptWord_of_ne hr)]
      rfl
  | .block no, test, yes, _, r, n, ht, _, hn => by
      obtain ⟨l, hl, rfl⟩ := Option.map_eq_some_iff.1 ht
      simp only [Alternative.tokens, callsPerToken, List.length_cons] at hn
      obtain ⟨m, rfl⟩ : ∃ m, n = m + 1 := ⟨n - 1, by omega⟩
      have hno : block (m + 1) (.mark '\x7b' :: (no.tail ++ r)) = .ok l r :=
        block_of_statements (Block.reads no hl (by simp only [callsPerToken]; omega))
      rw [otherwise, Alternative.tokens, List.cons_append, List.cons_append,
        bind_of_ok (acceptWord_cons _ _), if_pos rfl, bind_of_ok (acceptWord_of_ne (by simp))]
      exact bind_of_ok hno
  | .branch no, test, yes, _, r, n, ht, hr, hn => by
      obtain ⟨s, hs, rfl⟩ := Option.map_eq_some_iff.1 ht
      simp only [Alternative.tokens, callsPerToken, List.length_cons] at hn
      have hno : branch n (no.tail ++ r) = .ok s r :=
        Branch.reads no hs hr (by simp only [callsPerToken]; omega)
      rw [otherwise, Alternative.tokens, List.cons_append, List.cons_append,
        bind_of_ok (acceptWord_cons _ _), if_pos rfl, bind_of_ok (acceptWord_cons _ _), if_pos rfl]
      exact bind_of_ok hno
termination_by structural d => d

end

/-- **The reader of expressions finds every derivation** that what follows does not go on with. -/
theorem Operand.expression_reads (d : Expression) {t : Expr} (ht : d.tree? = some t)
    (hc : Closes 5 d.isOpen r) (hn : callsPerToken * d.tokens.length + 14 ≤ n) :
    expression n (d.tokens ++ r) = .ok t r :=
  expression_of_atLevel (fun _ _ ho => d.reads ht ho hc) hn

theorem Func.reads (f : Func) {t : Routine} {l : List Lexeme} (ht : f.tree? = some t)
    (hl : f.tokens = .keyword "func" :: l) (hn : callsPerToken * l.length ≤ n) :
    routine n (l ++ r) = .ok t r := by
  obtain ⟨b, hb, rfl⟩ := Option.map_eq_some_iff.1 ht
  obtain ⟨name, ps, body⟩ := f
  obtain rfl := (List.cons.inj hl).2
  simp only [callsPerToken, List.length_cons, List.length_append] at hn
  obtain ⟨m, rfl⟩ : ∃ m, n = m + 1 := ⟨n - 1, by omega⟩
  have hps : Parser.params (m + 1) (.mark '(' :: (ps.tail ++ .mark '\x7b' :: (body.tail ++ r)))
      = .ok ps.params (.mark '\x7b' :: (body.tail ++ r)) :=
    (bind_of_ok (expect_cons _ _)).trans (ps.reads (by omega))
  have hblock : block (m + 1) (.mark '\x7b' :: (body.tail ++ r)) = .ok b r :=
    block_of_statements (body.reads hb (by simp only [callsPerToken]; omega))
  simp only [routine, List.cons_append, List.append_assoc]
  rw [bind_of_ok (identifier_cons _ _), bind_of_ok hps]
  exact bind_of_ok hblock

/-- **The reader of routines finds every derivation** up to the end of the text. -/
theorem routines_read : ∀ (d : List Func) {l : List Routine} {r : List Lexeme} {n : Nat},
    programTrees? d = some l → r.headD .finish = .finish →
      callsPerToken * (programTokens d).length < n → routines n (programTokens d ++ r) = .ok l r
  | [], _, r, n + 1, ht, hr, _ => by
      cases ht
      rw [routines, programTokens_nil, List.nil_append, peek_bind, hr]
      rfl
  | f :: d, l, r, n + 1, ht, hr, hn => by
      obtain ⟨t, hf, ht⟩ := Option.bind_eq_some_iff.1 ht
      obtain ⟨l', hl', rfl⟩ := Option.map_eq_some_iff.1 ht
      simp only [programTokens_cons, List.length_append, callsPerToken] at hn
      obtain ⟨l, hl⟩ : ∃ l, f.tokens = .keyword "func" :: l := ⟨_, rfl⟩
      have hlength : f.tokens.length = l.length + 1 := by rw [hl]; rfl
      have hfirst : routine n (l ++ (programTokens d ++ r)) = .ok t (programTokens d ++ r) :=
        f.reads hf hl (by simp only [callsPerToken]; omega)
      have hrest : routines n (programTokens d ++ r) = .ok l' r :=
        routines_read d hl' hr (by simp only [callsPerToken]; omega)
      have htokens : programTokens (f :: d) ++ r
          = .keyword "func" :: (l ++ (programTokens d ++ r)) := by
        rw [programTokens_cons, hl, List.cons_append, List.cons_append, List.append_assoc]
      rw [htokens, routines, peek_bind, List.headD_cons]
      exact (bind_of_ok hfirst).trans (bind_of_ok hrest)

end Grammar
end ProtoScript
