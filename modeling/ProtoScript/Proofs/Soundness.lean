import ProtoScript.Proofs.Completeness
/-!
# What readers read is a derivation

Where a reader succeeds, the lexemes that it took are those of a derivation, its tree
is the tree of this derivation, and what follows does not go on with it.  One call of
a reader leads to calls with a smaller bound, so this is shown by induction on the
bound, for all readers at once (`Parser.Sound`): each reader has a lemma that says
what it reads if the calls that it makes read derivations.
-/

namespace ProtoScript

namespace Parser

open Grammar

variable {α β : Type} {l l' r : List Lexeme} {n : Nat}

/-! ### Steps -/

theorem bind_eq_ok {x : Parser α} {f : α → Parser β} {b : β} (h : (x >>= f) l = .ok b r) :
    ∃ a l', x l = .ok a l' ∧ f a l' = .ok b r := by
  simp only [bind, EStateM.bind] at h
  split at h
  · next a l' ha => exact ⟨a, l', ha, h⟩
  · cases h

theorem eq_cons_of_headD {x : Lexeme} (h : l.headD .finish = x) (hx : x ≠ .finish) :
    l = x :: l.tail := by
  cases l with
  | nil => exact absurd h.symm hx
  | cons y l => exact congrArg (· :: l) h

theorem expect_eq_ok {symbol : Char} (h : expect symbol l = .ok () l') :
    l = .mark symbol :: l' := by
  rw [expect, peek_bind] at h
  split at h
  · next hx =>
      cases h
      exact eq_cons_of_headD hx (by simp)
  · cases h

theorem identifier_eq_ok {name : String} (h : identifier l = .ok name l') :
    l = .identifier name :: l' := by
  rw [identifier, peek_bind] at h
  generalize hx : l.headD .finish = x at h
  split at h
  · cases h
    exact eq_cons_of_headD hx (by simp)
  · cases h

theorem acceptWord_eq_ok {word : String} {b : Bool} (h : acceptWord word l = .ok b l') :
    (b = true ∧ l = .keyword word :: l') ∨
      (b = false ∧ l' = l ∧ l.head? ≠ some (.keyword word)) := by
  rw [acceptWord, peek_bind] at h
  split at h
  · next hx =>
      cases h
      exact .inl ⟨rfl, eq_cons_of_headD hx (by simp)⟩
  · next hx =>
      cases h
      refine .inr ⟨rfl, rfl, fun hl => hx ?_⟩
      rw [List.headD_eq_head?_getD, hl]
      rfl

/-- What the readers read under the bound `n` are derivations. -/
structure Sound (n : Nat) : Prop where
  expression : ∀ {l t r}, expression n l = .ok t r → ∃ d : Expression,
    l = d.tokens ++ r ∧ d.tree? = some t ∧ Closes 5 d.isOpen r
  binary : ∀ {p l t r}, binary n p l = .ok t r → ∃ d : Operand (p.rank + 1),
    l = d.tokens ++ r ∧ d.tree? = some t ∧ Closes (p.rank + 1) d.isOpen r
  operand : ∀ {p l t r}, operand n p l = .ok t r → ∃ d : Operand p.rank,
    l = d.tokens ++ r ∧ d.tree? = some t ∧ Closes p.rank d.isOpen r
  chain : ∀ {p l left t r}, chain n p left l = .ok t r → ∃ d : Chain p.rank,
    l = d.tokens ++ r ∧ d.join? left = some t ∧
      ∀ {b}, Closes p.rank b l → Closes (p.rank + 1) (d.isOpen b) r
  unary : ∀ {l t r}, unary n l = .ok t r → ∃ d : Unary,
    l = d.tokens ++ r ∧ d.tree? = some t ∧ Closes 0 d.isOpen r
  access : ∀ {l t r}, access n l = .ok t r → ∃ d : Unary,
    l = d.tokens ++ r ∧ d.tree? = some t ∧ Closes 0 d.isOpen r
  selectors : ∀ {l base t r}, selectors n base l = .ok t r → ∃ d : Selectors,
    l = d.tokens ++ r ∧ d.select? base = some t ∧
      ∀ {b}, (b = true → l.head? ≠ some (.mark '(')) → Closes 0 (d.isOpen b) r
  arguments : ∀ {l es r}, arguments n l = .ok es r → ∃ d : Arguments,
    l = .mark '(' :: (d.tail ++ r) ∧ d.trees? = some es
  argumentsTail : ∀ {l es r}, argumentsTail n l = .ok es r → ∃ d : Arguments,
    l = d.tail ++ r ∧ d.trees? = some es
  primary : ∀ {l t r}, primary n l = .ok t r → ∃ d : Primary,
    l = d.tokens ++ r ∧ d.tree? = some t ∧ (d.isOpen = true → r.head? ≠ some (.mark '('))
  condition : ∀ {l t r}, condition n l = .ok t r → ∃ d : Expression,
    l = .mark '(' :: (d.tokens ++ .mark ')' :: r) ∧ d.tree? = some t
  block : ∀ {l ss r}, block n l = .ok ss r → ∃ d : Block,
    l = .mark '\x7b' :: (d.tail ++ r) ∧ d.trees? = some ss
  statements : ∀ {l ss r}, statements n l = .ok ss r → ∃ d : Block,
    l = d.tail ++ r ∧ d.trees? = some ss
  statement : ∀ {l s r}, statement n l = .ok s r → ∃ d : Statement,
    l = d.tokens ++ r ∧ d.tree? = some s
  simple : ∀ {l s r}, simple n l = .ok s r → ∃ d : Statement,
    l = d.tokens ++ r ∧ d.tree? = some s
  branch : ∀ {l s r}, branch n l = .ok s r → ∃ d : Branch,
    l = d.tail ++ r ∧ d.tree? = some s

/-! ### Parameters -/

theorem paramsTail_sound : ∀ {n : Nat} {l : List Lexeme} {ps : List Param} {r : List Lexeme},
    paramsTail n l = .ok ps r → ∃ d : Params, l = d.tail ++ r ∧ d.params = ps
  | 0, _, _, _, h => by cases h
  | n + 1, l, ps, r, h => by
      rw [paramsTail, peek_bind] at h
      split at h
      · next hx =>
          cases h
          exact ⟨.empty, eq_cons_of_headD hx (by simp), rfl⟩
      · obtain ⟨byRef, l₁, hword, h₁⟩ := bind_eq_ok h
        obtain ⟨name, l₂, hname, h₂⟩ := bind_eq_ok h₁
        have hl : l = paramTokens ⟨name, byRef⟩ ++ l₂ := by
          rw [identifier_eq_ok hname] at hword
          obtain ⟨rfl, rfl⟩ | ⟨rfl, rfl, -⟩ := acceptWord_eq_ok hword <;> rfl
        rw [peek_bind] at h₂
        generalize hx : l₂.headD .finish = x at h₂
        split at h₂
        · rw [skip_bind] at h₂
          obtain ⟨rest, l₃, hrest, h₃⟩ := bind_eq_ok h₂
          cases h₃
          obtain ⟨d, hd, rfl⟩ := paramsTail_sound hrest
          have hl₂ : l₂ = .mark ',' :: (d.tail ++ r) :=
            (eq_cons_of_headD hx (by simp)).trans (congrArg _ hd)
          rw [hl, hl₂]
          cases d with
          | empty => exact ⟨.list ⟨name, byRef⟩ [] true, by simp [Params.tail, itemsTail], rfl⟩
          | list first more comma =>
              exact ⟨.list ⟨name, byRef⟩ (first :: more) comma,
                by simp [Params.tail, itemsTail], rfl⟩
        · cases h₂
          rw [hl, eq_cons_of_headD hx (by simp)]
          exact ⟨.list ⟨name, byRef⟩ [] false, by simp [Params.tail, itemsTail], rfl⟩
        · cases h₂

theorem params_sound {ps : List Param} (h : params n l = .ok ps r) :
    ∃ d : Params, l = .mark '(' :: (d.tail ++ r) ∧ d.params = ps := by
  obtain ⟨⟨⟩, l', hmark, htail⟩ := bind_eq_ok h
  obtain ⟨d, rfl, hd⟩ := paramsTail_sound htail
  exact ⟨d, expect_eq_ok hmark, hd⟩

namespace Sound

/-! ### Expressions -/

theorem expression_succ (h : Sound n) {t : Expr} (hr : Parser.expression (n + 1) l = .ok t r) :
    ∃ d : Expression, l = d.tokens ++ r ∧ d.tree? = some t ∧
      Closes 5 d.isOpen r := by
  rw [Parser.expression] at hr
  exact h.binary hr

theorem binary_succ (h : Sound n) {p : Precedence} {t : Expr}
    (hr : Parser.binary (n + 1) p l = .ok t r) : ∃ d : Operand (p.rank + 1),
      l = d.tokens ++ r ∧ d.tree? = some t ∧ Closes (p.rank + 1) d.isOpen r := by
  rw [Parser.binary] at hr
  obtain ⟨e, l', hfirst, hrest⟩ := bind_eq_ok hr
  obtain ⟨first, rfl, he, hc⟩ := h.operand hfirst
  obtain ⟨rest, rfl, hj, hcs⟩ := h.chain hrest
  refine ⟨.level first rest, ?_, ?_, hcs hc⟩
  · rw [Operand.tokens, List.append_assoc]
  · rw [Operand.tree?, he]
    exact hj

theorem operand_succ (h : Sound n) {p : Precedence} {t : Expr}
    (hr : Parser.operand (n + 1) p l = .ok t r) : ∃ d : Operand p.rank,
      l = d.tokens ++ r ∧ d.tree? = some t ∧ Closes p.rank d.isOpen r := by
  rw [Parser.operand_succ] at hr
  rw [← height_tighter p]
  generalize p.tighter? = o at hr ⊢
  cases o with
  | none =>
      obtain ⟨d, hd⟩ := h.unary hr
      exact ⟨.unary d, hd⟩
  | some q => exact h.binary hr

theorem chain_succ (h : Sound n) {p : Precedence} {left t : Expr}
    (hr : Parser.chain (n + 1) p left l = .ok t r) : ∃ d : Chain p.rank,
      l = d.tokens ++ r ∧ d.join? left = some t ∧
        ∀ {b}, Closes p.rank b l → Closes (p.rank + 1) (d.isOpen b) r := by
  rw [Parser.chain, peek_bind] at hr
  cases hop : operatorAt? p (l.headD .finish) with
  | some op =>
      simp only [hop, skip_bind] at hr
      obtain ⟨e, l', hright, hrest⟩ := bind_eq_ok hr
      obtain ⟨right, hl, he, hc⟩ := h.operand hright
      obtain ⟨rest, rfl, hj, hcs⟩ := h.chain hrest
      obtain ⟨symbol, hx, hs⟩ := operatorAt?_eq_some_iff.1 hop
      refine ⟨.more symbol op hs right rest, ?_, ?_, fun _ => hcs hc⟩
      · rw [Chain.tokens, List.cons_append, List.append_assoc, ← hl]
        exact eq_cons_of_headD hx (by simp)
      · rw [Chain.join?, he]
        exact hj
  | none =>
      rw [hop] at hr
      cases hr
      refine ⟨.done, rfl, rfl, fun hc => ⟨hc.arguments, hc.selector, ?_⟩⟩
      intro j symbol op hs hj hx
      obtain hlt | rfl := Nat.lt_succ_iff_lt_or_eq.1 hj
      · exact hc.operator hs hlt hx
      -- An operator of the level itself would have been taken.
      · have hhead : l.headD .finish = .operator symbol := by
          rw [List.headD_eq_head?_getD, hx]
          rfl
        rw [operatorAt?_eq_some_iff.2 ⟨symbol, hhead, hs⟩] at hop
        cases hop

theorem unary_succ (h : Sound n) {t : Expr} (hr : Parser.unary (n + 1) l = .ok t r) :
    ∃ d : Unary, l = d.tokens ++ r ∧ d.tree? = some t ∧ Closes 0 d.isOpen r := by
  rw [Parser.unary, peek_bind] at hr
  cases hop : unaryOperator? (l.headD .finish) with
  | some op =>
      simp only [hop, skip_bind] at hr
      obtain ⟨e, l', hoperand, hret⟩ := bind_eq_ok hr
      cases hret
      obtain ⟨d, hl, he, hc⟩ := h.unary hoperand
      obtain ⟨symbol, hx, hs⟩ := unaryOperator?_eq_some_iff.1 hop
      refine ⟨.op symbol op hs d, ?_, ?_, hc⟩
      · rw [Unary.tokens, List.cons_append, ← hl]
        exact eq_cons_of_headD hx (by simp)
      · rw [Unary.tree?, he]
        rfl
  | none =>
      rw [hop] at hr
      exact h.access hr

theorem access_succ (h : Sound n) {t : Expr} (hr : Parser.access (n + 1) l = .ok t r) :
    ∃ d : Unary, l = d.tokens ++ r ∧ d.tree? = some t ∧ Closes 0 d.isOpen r := by
  rw [Parser.access] at hr
  obtain ⟨e, l', hbase, hrest⟩ := bind_eq_ok hr
  obtain ⟨base, rfl, he, ho⟩ := h.primary hbase
  obtain ⟨selectors, rfl, hs, hc⟩ := h.selectors hrest
  refine ⟨.access base selectors, ?_, ?_, hc ho⟩
  · rw [Unary.tokens, List.append_assoc]
  · rw [Unary.tree?, he]
    exact hs

theorem selectors_succ (h : Sound n) {base t : Expr}
    (hr : Parser.selectors (n + 1) base l = .ok t r) : ∃ d : Selectors,
      l = d.tokens ++ r ∧ d.select? base = some t ∧
        ∀ {b}, (b = true → l.head? ≠ some (.mark '(')) → Closes 0 (d.isOpen b) r := by
  rw [Parser.selectors, peek_bind] at hr
  split at hr
  · next hdot =>
      rw [skip_bind] at hr
      obtain ⟨name, l', hname, hr'⟩ := bind_eq_ok hr
      have hl : l = .mark '.' :: .identifier name :: l' :=
        (eq_cons_of_headD hdot (by simp)).trans (congrArg _ (identifier_eq_ok hname))
      rw [peek_bind] at hr'
      split at hr'
      · obtain ⟨es, l₂, hargs, hrest⟩ := bind_eq_ok hr'
        obtain ⟨args, rfl, hes⟩ := h.arguments hargs
        obtain ⟨rest, rfl, ht, hc⟩ := h.selectors hrest
        refine ⟨.method name args rest, ?_, ?_, fun _ => hc (fun hb => nomatch hb)⟩
        · rw [hl, Selectors.tokens, List.cons_append, List.cons_append, List.cons_append,
            List.append_assoc]
        · rw [Selectors.select?, hes]
          exact ht
      · next hparen =>
          obtain ⟨rest, rfl, ht, hc⟩ := h.selectors hr'
          refine ⟨.field name rest, hl, ht, fun _ => hc fun _ hhead => hparen ?_⟩
          rw [List.headD_eq_head?_getD, hhead]
          rfl
  · next hdot =>
      cases hr
      refine ⟨.done, rfl, rfl, fun hb =>
        ⟨hb, fun hhead => hdot ?_, fun _ hj => absurd hj (Nat.not_lt_zero _)⟩⟩
      rw [List.headD_eq_head?_getD, hhead]
      rfl

theorem arguments_succ (h : Sound n) {es : List Expr}
    (hr : Parser.arguments (n + 1) l = .ok es r) : ∃ d : Arguments,
      l = .mark '(' :: (d.tail ++ r) ∧ d.trees? = some es := by
  rw [Parser.arguments] at hr
  obtain ⟨⟨⟩, l', hmark, htail⟩ := bind_eq_ok hr
  obtain ⟨d, rfl, hd⟩ := h.argumentsTail htail
  exact ⟨d, expect_eq_ok hmark, hd⟩

theorem argumentsTail_succ (h : Sound n) {es : List Expr}
    (hr : Parser.argumentsTail (n + 1) l = .ok es r) : ∃ d : Arguments,
      l = d.tail ++ r ∧ d.trees? = some es := by
  rw [Parser.argumentsTail, peek_bind] at hr
  split at hr
  · next hx =>
      cases hr
      exact ⟨.empty, eq_cons_of_headD hx (by simp), rfl⟩
  · obtain ⟨e, l', hfirst, hr'⟩ := bind_eq_ok hr
    obtain ⟨first, rfl, he, -⟩ := h.expression hfirst
    rw [peek_bind] at hr'
    generalize hx : l'.headD .finish = x at hr'
    split at hr'
    · rw [skip_bind] at hr'
      obtain ⟨es', l₂, hrest, hret⟩ := bind_eq_ok hr'
      cases hret
      obtain ⟨d, hd, hes⟩ := h.argumentsTail hrest
      rw [eq_cons_of_headD hx (by simp), hd]
      cases d with
      | empty =>
          cases hes
          refine ⟨.list first .done true, ?_, ?_⟩
          · simp [Arguments.tail, Expressions.items, itemsTail]
          · rw [Arguments.trees?, he]
            rfl
      | list second more comma =>
          refine ⟨.list first (.more second more) comma, ?_, ?_⟩
          · simp [Arguments.tail, Expressions.items, itemsTail]
          · rw [Arguments.trees?] at hes
            rw [Arguments.trees?, he, Expressions.trees?, hes]
            rfl
    · cases hr'
      rw [eq_cons_of_headD hx (by simp)]
      refine ⟨.list first .done false, ?_, ?_⟩
      · simp [Arguments.tail, Expressions.items, itemsTail]
      · rw [Arguments.trees?, he]
        rfl
    · cases hr'

/-- A lexeme that is an expression by itself is a primary expression. -/
theorem literal_sound {x : Lexeme} {t : Expr} (hx : literal? x = some t) (l : List Lexeme) :
    ∃ d : Primary, x :: l = d.tokens ++ l ∧ d.tree? = some t ∧
      (d.isOpen = true → l.head? ≠ some (.mark '(')) := by
  cases x with
  | integer value => exact ⟨.int value, rfl, hx, nofun⟩
  | text value => exact ⟨.text value, rfl, hx, nofun⟩
  | truth value => exact ⟨.truth value, rfl, hx, nofun⟩
  | keyword word =>
      rw [literal?] at hx
      split at hx
      · next hnil => exact ⟨.nil, by rw [hnil]; rfl, hx, nofun⟩
      · cases hx
  | _ => cases hx

theorem primary_succ (h : Sound n) {t : Expr} (hr : Parser.primary (n + 1) l = .ok t r) :
    ∃ d : Primary, l = d.tokens ++ r ∧ d.tree? = some t ∧
      (d.isOpen = true → r.head? ≠ some (.mark '(')) := by
  cases l with
  | nil => rw [Parser.primary] at hr; cases hr
  | cons x l =>
  have hclosed : false = true → r.head? ≠ some (.mark '(') := fun h => absurd h Bool.false_ne_true
  rw [Parser.primary, peek_bind, List.headD_cons] at hr
  split at hr
  · rw [skip_bind, List.tail_cons] at hr
    obtain ⟨ps, l₁, hps, hr₁⟩ := bind_eq_ok hr
    obtain ⟨ss, l₂, hss, hr₂⟩ := bind_eq_ok hr₁
    cases hr₂
    obtain ⟨params, rfl, rfl⟩ := params_sound hps
    obtain ⟨body, rfl, hbody⟩ := h.block hss
    refine ⟨.lambda params body, ?_, ?_, hclosed⟩
    · rw [Primary.tokens, List.cons_append, List.cons_append, List.append_assoc, List.cons_append]
    · rw [Primary.tree?, hbody]
      rfl
  · cases hr; exact ⟨.newObject, rfl, rfl, hclosed⟩
  · next name =>
      rw [skip_bind, List.tail_cons, peek_bind] at hr
      split at hr
      · obtain ⟨es, l₁, hargs, hret⟩ := bind_eq_ok hr
        cases hret
        obtain ⟨args, rfl, hes⟩ := h.arguments hargs
        refine ⟨.call name args, rfl, ?_, hclosed⟩
        rw [Primary.tree?, hes]
        rfl
      · next hparen =>
          cases hr
          refine ⟨.name name, rfl, rfl, fun _ hhead => hparen ?_⟩
          rw [List.headD_eq_head?_getD, hhead]
          rfl
  · rw [skip_bind, List.tail_cons] at hr
    obtain ⟨e, l₁, hinner, hr₁⟩ := bind_eq_ok hr
    obtain ⟨⟨⟩, l₂, hmark, hret⟩ := bind_eq_ok hr₁
    cases hret
    obtain ⟨inner, rfl, he, -⟩ := h.expression hinner
    refine ⟨.parentheses inner, ?_, he, hclosed⟩
    rw [expect_eq_ok hmark, Primary.tokens, List.cons_append, List.append_assoc,
      List.singleton_append]
  · generalize hliteral : literal? x = found at hr
    cases found with
    | some e =>
        cases hr
        exact literal_sound hliteral l
    | none => cases hr

/-! ### Statements -/

theorem condition_succ (h : Sound n) {t : Expr} (hr : Parser.condition (n + 1) l = .ok t r) :
    ∃ d : Expression, l = .mark '(' :: (d.tokens ++ .mark ')' :: r) ∧ d.tree? = some t := by
  rw [Parser.condition] at hr
  obtain ⟨⟨⟩, l₁, hopen, hr₁⟩ := bind_eq_ok hr
  obtain ⟨e, l₂, hinner, hr₂⟩ := bind_eq_ok hr₁
  obtain ⟨⟨⟩, l₃, hclose, hret⟩ := bind_eq_ok hr₂
  cases hret
  obtain ⟨d, rfl, hd, -⟩ := h.expression hinner
  exact ⟨d, by rw [expect_eq_ok hopen, expect_eq_ok hclose], hd⟩

theorem block_succ (h : Sound n) {ss : List Stmt} (hr : Parser.block (n + 1) l = .ok ss r) :
    ∃ d : Block, l = .mark '\x7b' :: (d.tail ++ r) ∧ d.trees? = some ss := by
  rw [Parser.block] at hr
  obtain ⟨⟨⟩, l', hmark, hrest⟩ := bind_eq_ok hr
  obtain ⟨d, rfl, hd⟩ := h.statements hrest
  exact ⟨d, expect_eq_ok hmark, hd⟩

theorem statements_succ (h : Sound n) {ss : List Stmt}
    (hr : Parser.statements (n + 1) l = .ok ss r) :
    ∃ d : Block, l = d.tail ++ r ∧ d.trees? = some ss := by
  rw [Parser.statements, peek_bind] at hr
  generalize hx : l.headD .finish = x at hr
  split at hr
  · cases hr
    exact ⟨.done, eq_cons_of_headD hx (by simp), rfl⟩
  · cases hr
  · obtain ⟨s, l₁, hfirst, hr₁⟩ := bind_eq_ok hr
    obtain ⟨ss', l₂, hrest, hret⟩ := bind_eq_ok hr₁
    cases hret
    obtain ⟨first, rfl, hs⟩ := h.statement hfirst
    obtain ⟨rest, rfl, hss⟩ := h.statements hrest
    refine ⟨.more first rest, ?_, ?_⟩
    · rw [Block.tail, List.append_assoc]
    · rw [Block.trees?, hs]
      exact congrArg (Option.map (s :: ·)) hss

theorem statement_succ (h : Sound n) {s : Stmt} (hr : Parser.statement (n + 1) l = .ok s r) :
    ∃ d : Statement, l = d.tokens ++ r ∧ d.tree? = some s := by
  rw [Parser.statement, peek_bind] at hr
  generalize hx : l.headD .finish = x at hr
  split at hr
  · rw [eq_cons_of_headD hx (by simp)]
    rw [skip_bind, peek_bind] at hr
    split at hr
    · next hend =>
        cases hr
        exact ⟨.leave, by rw [eq_cons_of_headD hend (by simp)]; rfl, rfl⟩
    · obtain ⟨e, l₁, hvalue, hr₁⟩ := bind_eq_ok hr
      obtain ⟨⟨⟩, l₂, hmark, hret⟩ := bind_eq_ok hr₁
      cases hret
      obtain ⟨value, hl, he, -⟩ := h.expression hvalue
      refine ⟨.give value, ?_, ?_⟩
      · rw [hl, expect_eq_ok hmark, Statement.tokens, List.cons_append, List.append_assoc,
          List.singleton_append]
      · rw [Statement.tree?, he]
        rfl
  · rw [eq_cons_of_headD hx (by simp)]
    rw [skip_bind] at hr
    obtain ⟨b, hl, hb⟩ := h.branch hr
    exact ⟨.branch b, by rw [hl]; rfl, hb⟩
  · rw [eq_cons_of_headD hx (by simp)]
    rw [skip_bind] at hr
    obtain ⟨c, l₁, htest, hr₁⟩ := bind_eq_ok hr
    obtain ⟨ss, l₂, hbody, hret⟩ := bind_eq_ok hr₁
    cases hret
    obtain ⟨test, hl, hc⟩ := h.condition htest
    obtain ⟨body, rfl, hss⟩ := h.block hbody
    refine ⟨.loop test body, ?_, ?_⟩
    · rw [hl, Statement.tokens, List.cons_append, List.cons_append, List.append_assoc,
        List.cons_append, List.cons_append]
    · rw [Statement.tree?, hc]
      exact congrArg (Option.map (Stmt.loop c)) hss
  · exact h.simple hr

theorem simple_succ (h : Sound n) {s : Stmt} (hr : Parser.simple (n + 1) l = .ok s r) :
    ∃ d : Statement, l = d.tokens ++ r ∧ d.tree? = some s := by
  rw [Parser.simple] at hr
  obtain ⟨e, l₁, hfirst, hr₁⟩ := bind_eq_ok hr
  obtain ⟨first, rfl, he, -⟩ := h.expression hfirst
  rw [peek_bind] at hr₁
  split at hr₁
  · next hassign =>
      rw [eq_cons_of_headD hassign (by simp)]
      rw [skip_bind] at hr₁
      cases htarget : target? e with
      | none => rw [htarget] at hr₁; cases hr₁
      | some t =>
          rw [htarget] at hr₁
          obtain ⟨v, l₂, hvalue, hr₂⟩ := bind_eq_ok hr₁
          obtain ⟨⟨⟩, l₃, hmark, hret⟩ := bind_eq_ok hr₂
          cases hret
          obtain ⟨value, hl, hv, -⟩ := h.expression hvalue
          refine ⟨.assign first value, ?_, ?_⟩
          · rw [hl, expect_eq_ok hmark, Statement.tokens, List.append_assoc, List.cons_append,
              List.append_assoc, List.singleton_append]
          · rw [Statement.tree?, he, hv, Option.bind_some, ← target?_eq, htarget]
            rfl
  · cases e with
    | call c =>
        obtain ⟨⟨⟩, l₂, hmark, hret⟩ := bind_eq_ok hr₁
        cases hret
        refine ⟨.call first, ?_, ?_⟩
        · rw [expect_eq_ok hmark, Statement.tokens, List.append_assoc, List.singleton_append]
        · rw [Statement.tree?, he]
          rfl
    | _ => cases hr₁

theorem otherwise_sound (h : Sound n) {test : Expr} {yes : List Stmt} {s : Stmt}
    (hr : Parser.otherwise n test yes l = .ok s r) : ∃ (d : Alternative) (no : Option (List Stmt)),
      l = d.tokens ++ r ∧ d.trees? = some no ∧ s = .branch test yes no := by
  obtain ⟨b, l₁, helse, hr₁⟩ := bind_eq_ok hr
  obtain ⟨rfl, rfl⟩ | ⟨rfl, rfl, -⟩ := acceptWord_eq_ok helse
  · obtain ⟨b, l₂, hif, hr₂⟩ := bind_eq_ok hr₁
    obtain ⟨rfl, rfl⟩ | ⟨rfl, rfl, -⟩ := acceptWord_eq_ok hif
    · obtain ⟨inner, l₃, hinner, hret⟩ := bind_eq_ok hr₂
      cases hret
      obtain ⟨no, rfl, hno⟩ := h.branch hinner
      refine ⟨.branch no, some [inner], rfl, ?_, rfl⟩
      rw [Alternative.trees?, hno]
      rfl
    · obtain ⟨ss, l₃, hblock, hret⟩ := bind_eq_ok hr₂
      cases hret
      obtain ⟨no, rfl, hno⟩ := h.block hblock
      refine ⟨.block no, some ss, rfl, ?_, rfl⟩
      rw [Alternative.trees?, hno]
      rfl
  · cases hr₁
    exact ⟨.none, none, rfl, rfl, rfl⟩

theorem branch_succ (h : Sound n) {s : Stmt} (hr : Parser.branch (n + 1) l = .ok s r) :
    ∃ d : Branch, l = d.tail ++ r ∧ d.tree? = some s := by
  rw [Parser.branch_succ] at hr
  obtain ⟨c, l₁, htest, hr₁⟩ := bind_eq_ok hr
  obtain ⟨ss, l₂, hyes, hr₂⟩ := bind_eq_ok hr₁
  obtain ⟨test, rfl, hc⟩ := h.condition htest
  obtain ⟨yes, rfl, hss⟩ := h.block hyes
  obtain ⟨other, no, rfl, hno, rfl⟩ := h.otherwise_sound hr₂
  refine ⟨.mk test yes other, ?_, ?_⟩
  · rw [Branch.tail, List.cons_append, List.append_assoc, List.cons_append, List.cons_append,
      List.append_assoc]
  · rw [Branch.tree?, hc, Option.bind_some, hss, Option.bind_some, hno]
    rfl

end Sound

/-- **What readers read are derivations**, under every bound. -/
theorem sound : ∀ n, Sound n
  | 0 => by constructor <;> nofun
  | n + 1 => by
      have h := sound n
      exact ⟨h.expression_succ, h.binary_succ, h.operand_succ, h.chain_succ, h.unary_succ,
        h.access_succ, h.selectors_succ, h.arguments_succ, h.argumentsTail_succ, h.primary_succ,
        h.condition_succ, h.block_succ, h.statements_succ, h.statement_succ, h.simple_succ,
        h.branch_succ⟩

theorem routine_sound {t : Routine} (hr : routine n l = .ok t r) :
    ∃ f : Func, Lexeme.keyword "func" :: l = f.tokens ++ r ∧ f.tree? = some t := by
  obtain ⟨name, l₁, hname, hr₁⟩ := bind_eq_ok hr
  obtain ⟨ps, l₂, hps, hr₂⟩ := bind_eq_ok hr₁
  obtain ⟨ss, l₃, hss, hret⟩ := bind_eq_ok hr₂
  cases hret
  obtain ⟨params, rfl, rfl⟩ := params_sound hps
  obtain ⟨body, rfl, hbody⟩ := (sound n).block hss
  refine ⟨⟨name, params, body⟩, ?_, ?_⟩
  · rw [identifier_eq_ok hname]
    simp [Func.tokens]
  · rw [Func.tree?, hbody]
    rfl

/-- What the reader of routines reads is a derivation, and the text ends after it. -/
theorem routines_sound : ∀ {n : Nat} {l : List Lexeme} {ts : List Routine} {r : List Lexeme},
    routines n l = .ok ts r → ∃ d : List Func,
      l = programTokens d ++ r ∧ programTrees? d = some ts ∧ r.headD .finish = .finish
  | 0, _, _, _, h => by cases h
  | n + 1, l, ts, r, h => by
      rw [routines, peek_bind] at h
      generalize hx : l.headD .finish = x at h
      split at h
      · cases h
        exact ⟨[], rfl, rfl, hx⟩
      · rw [skip_bind] at h
        obtain ⟨t, l₁, hfirst, h₁⟩ := bind_eq_ok h
        obtain ⟨ts', l₂, hrest, hret⟩ := bind_eq_ok h₁
        cases hret
        obtain ⟨f, hl, hf⟩ := routine_sound hfirst
        obtain ⟨d, rfl, hd, hend⟩ := routines_sound hrest
        refine ⟨f :: d, ?_, ?_, hend⟩
        · rw [eq_cons_of_headD hx (by simp), hl, programTokens_cons, List.append_assoc]
        · rw [programTrees?, hf, Option.bind_some, hd]
          rfl
      · cases h

end Parser
end ProtoScript
