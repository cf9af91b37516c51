import ProtoScript.Proofs.Recognition
/-!
# One token of lookahead

What a reader does is decided by the lexemes that it takes and by the next one: it
looks no further, and it never takes the end of the text.  This holds of a problem
as well, which is decided by the lexemes up to the one where it is found.

The bound on nested calls is told from the number of tokens, so what comes later
could only matter through it.  It does not: a reader that keeps within one bound does
the same under every larger one, and the bound is large enough for every list.
`Foresees` puts both into one relation between a reader under a bound and the same
reader under a larger one, which passes from the calls that a reader makes to the
reader itself.
-/

namespace ProtoScript

namespace Grammar

theorem Statement.length_pos (d : Statement) : 0 < d.tokens.length := by
  cases d with
  | assign target value => exact Nat.lt_of_lt_of_le target.length_pos (by simp [Statement.tokens])
  | call e => simp [Statement.tokens]
  | _ => exact Nat.succ_pos _

end Grammar

/-- The problem is one that is found where the lexeme `x` comes next: what its message says about
the lexeme found there is true of `x`.  The bound on nested calls is no such problem. -/
def ParseProblem.FoundAt (x : Lexeme) : ParseProblem → Prop
  | .expected _ found | .expectedName found | .expectedRoutine found
  | .expectedExpression found | .openParams found | .openArguments found => found = x
  | .openBlock => x = .finish
  | .invalidTarget | .noStatement => True
  | .tooDeep => False

theorem ParseProblem.FoundAt.ne_tooDeep {x : Lexeme} {e : ParseProblem} (h : e.FoundAt x) :
    e ≠ .tooDeep := by
  rintro rfl
  exact h

namespace Parser

open Grammar

variable {α β : Type} {small : Prop} {l r : List Lexeme} {n m k k' : Nat}

theorem bind_of_error {x : Parser α} {f : α → Parser β} {e : ParseProblem}
    (h : x l = .error e r) : (x >>= f) l = .error e r := by
  simp only [bind, EStateM.bind, h]

/-- What is next after some lexemes is decided by these and by what is next after them. -/
theorem headD_append {c r r' : List Lexeme} (h : r'.headD .finish = r.headD .finish) :
    (c ++ r').headD .finish = (c ++ r).headD .finish := by
  cases c with
  | nil => exact h
  | cons x c => rfl

/-- What `p` does with the lexemes `l` is decided by those that it takes, which do not reach the
end of the text, and by the next one: where these are the same, `p'` does the same.  Or `p` is
stopped by its bound, and then the bound is `small`. -/
inductive Foresees (small : Prop) (p p' : Parser α) (l : List Lexeme) : Prop where
  | tooDeep {r : List Lexeme} (stopped : p l = .error .tooDeep r) (isSmall : small)
  | ok {c r : List Lexeme} {a : α} (split : l = c ++ r) (noFinish : .finish ∉ c)
      (read : p l = .ok a r)
      (always : ∀ r', r'.headD .finish = r.headD .finish → p' (c ++ r') = .ok a r')
  | error {c r : List Lexeme} {e : ParseProblem} (split : l = c ++ r) (noFinish : .finish ∉ c)
      (foundAt : e.FoundAt (r.headD .finish)) (read : p l = .error e r)
      (always : ∀ r', r'.headD .finish = r.headD .finish → p' (c ++ r') = .error e r')

namespace Foresees

theorem mono {small' : Prop} {p p' : Parser α} (h : Foresees small p p' l)
    (hsmall : small → small') : Foresees small' p p' l := by
  cases h with
  | tooDeep stopped isSmall => exact .tooDeep stopped (hsmall isSmall)
  | ok split noFinish read always => exact .ok split noFinish read always
  | error split noFinish foundAt read always => exact .error split noFinish foundAt read always

/-- A larger bound changes nothing where the bound is not reached. -/
theorem agrees {p p' : Parser α} (h : Foresees small p p' l)
    (hdeep : ∀ r, p l ≠ .error .tooDeep r) : p' l = p l := by
  cases h with
  | tooDeep stopped _ => exact absurd stopped (hdeep _)
  | ok split _ read always => rw [read, split]; exact always _ rfl
  | error split _ _ read always => rw [read, split]; exact always _ rfl

/-! ### Steps -/

theorem pure (a : α) : Foresees small (pure a : Parser α) (pure a) l :=
  .ok (List.nil_append l).symm List.not_mem_nil rfl fun _ _ => rfl

theorem throw {e : ParseProblem} (he : e.FoundAt (l.headD .finish)) :
    Foresees small (throw e : Parser α) (throw e) l :=
  .error (List.nil_append l).symm List.not_mem_nil he rfl fun _ _ => rfl

theorem skip {x : Lexeme} (hx : l.headD .finish = x) (hne : x ≠ .finish) :
    Foresees small skip skip l :=
  .ok (c := [x]) (eq_cons_of_headD hx hne) (by simpa using hne.symm) rfl fun _ _ => rfl

/-- One reader after another. -/
theorem bind {x x' : Parser α} {f f' : α → Parser β} (hx : Foresees small x x' l)
    (hf : ∀ a r, x l = .ok a r → r.length ≤ l.length → Foresees small (f a) (f' a) r) :
    Foresees small (x >>= f) (x' >>= f') l := by
  cases hx with
  | tooDeep stopped isSmall => exact .tooDeep (bind_of_error stopped) isSmall
  | error split noFinish foundAt read always =>
      exact .error split noFinish foundAt (bind_of_error read) fun r' h =>
        bind_of_error (always r' h)
  | @ok c r a split noFinish read always =>
      have hlength : r.length ≤ l.length := by simp [split]
      have happend : ∀ {c₂ r₂}, r = c₂ ++ r₂ → l = (c ++ c₂) ++ r₂ := fun h => by
        rw [split, h, List.append_assoc]
      -- The lexeme after those of the first reader is taken by the second one or is its next one.
      have hbefore : ∀ {c₂ r₂ r' : List Lexeme}, r = c₂ ++ r₂ →
          r'.headD .finish = r₂.headD .finish →
          (x' >>= f') ((c ++ c₂) ++ r') = f' a (c₂ ++ r') := by
        intro c₂ r₂ r' hr h
        rw [List.append_assoc]
        exact bind_of_ok (always _ (hr ▸ headD_append h))
      cases hf a r read hlength with
      | tooDeep stopped isSmall => exact .tooDeep ((bind_of_ok read).trans stopped) isSmall
      | ok split₂ noFinish₂ read₂ always₂ =>
          exact .ok (happend split₂) (List.not_mem_append noFinish noFinish₂)
            ((bind_of_ok read).trans read₂) fun r' h => (hbefore split₂ h).trans (always₂ r' h)
      | error split₂ noFinish₂ foundAt read₂ always₂ =>
          exact .error (happend split₂) (List.not_mem_append noFinish noFinish₂) foundAt
            ((bind_of_ok read).trans read₂) fun r' h => (hbefore split₂ h).trans (always₂ r' h)

theorem peek_bind {f f' : Lexeme → Parser β}
    (h : Foresees small (f (l.headD .finish)) (f' (l.headD .finish)) l) :
    Foresees small (peek >>= f) (peek >>= f') l := by
  refine bind (.ok (List.nil_append l).symm List.not_mem_nil rfl fun r' hr' => ?_) ?_
  · exact congrArg (EStateM.Result.ok · r') hr'
  · rintro _ _ ⟨⟩ -
    exact h

theorem skip_bind {x : Lexeme} {f f' : Unit → Parser β} (hx : l.headD .finish = x)
    (hne : x ≠ .finish) (h : l.tail.length < l.length → Foresees small (f ()) (f' ()) l.tail) :
    Foresees small (Parser.skip >>= f) (Parser.skip >>= f') l := by
  refine (skip hx hne).bind ?_
  rintro _ _ ⟨⟩ -
  refine h ?_
  rw [eq_cons_of_headD hx hne]
  exact Nat.lt_succ_self _

theorem expect (symbol : Char) : Foresees small (expect symbol) (expect symbol) l := by
  refine peek_bind ?_
  split
  · next hx => exact skip hx (by simp)
  · exact throw rfl

theorem expect_bind {symbol : Char} {f f' : Unit → Parser β}
    (h : ∀ {r : List Lexeme}, r.length < l.length → Foresees small (f ()) (f' ()) r) :
    Foresees small (Parser.expect symbol >>= f) (Parser.expect symbol >>= f') l := by
  refine (expect symbol).bind fun _ r hr _ => h ?_
  rw [expect_eq_ok hr]
  exact Nat.lt_succ_self _

theorem identifier : Foresees small identifier identifier l := by
  refine peek_bind ?_
  generalize hx : l.headD .finish = x
  split
  · exact skip_bind hx (by simp) fun _ => pure _
  · exact throw hx.symm

theorem acceptWord (word : String) : Foresees small (acceptWord word) (acceptWord word) l := by
  refine peek_bind ?_
  split
  · next hx => exact skip_bind hx (by simp) fun _ => pure _
  · exact pure _

end Foresees

/-- A statement takes lexemes. -/
theorem statement_shorter {s : Stmt} (h : statement n l = .ok s r) : r.length < l.length := by
  obtain ⟨d, rfl, -⟩ := (sound n).statement h
  have hpos := d.length_pos
  simp only [List.length_append]
  omega

/-! ### Bounds -/

/-- Under the bound `n` the reader `p` foresees what it does under the bound `m`.  The bound `n` is
too small only if it allows less than `callsPerToken` calls for every lexeme and `k` more, for
those that come before the first lexeme is taken. -/
def Looks (n m k : Nat) (p : Nat → Parser α) : Prop :=
  ∀ l, Foresees (n < callsPerToken * l.length + k) (p n) (p m) l

/-- A call of a reader before any lexeme is taken. -/
theorem Looks.here {p : Nat → Parser α} (h : Looks n m k p) (hr : r.length ≤ l.length)
    (hk : k < k') : Foresees (n + 1 < callsPerToken * l.length + k') (p n) (p m) r := by
  refine (h r).mono fun hn => ?_
  simp only [callsPerToken] at hn ⊢
  omega

/-- A call of a reader after a lexeme was taken. -/
theorem Looks.later {p : Nat → Parser α} (h : Looks n m k p) (hr : r.length < l.length)
    (hk : k ≤ callsPerToken) :
    Foresees (n + 1 < callsPerToken * l.length + (k' + 1)) (p n) (p m) r := by
  refine (h r).mono fun hn => ?_
  simp only [callsPerToken] at hn hk ⊢
  omega

/-- Every reader of expressions and statements foresees under the bound `n` what it does under the
bound `m`.  Before an operand takes a lexeme there are two calls for each level of operators. -/
structure Foresight (n m : Nat) : Prop where
  expression : Looks n m 14 expression
  binary : ∀ p, Looks n m (2 * p.rank + 5) (binary · p)
  operand : ∀ p, Looks n m (2 * p.rank + 4) (operand · p)
  chain : ∀ p left, Looks n m 1 (chain · p left)
  unary : Looks n m 3 unary
  access : Looks n m 2 access
  selectors : ∀ base, Looks n m 1 (selectors · base)
  arguments : Looks n m 1 arguments
  argumentsTail : Looks n m 15 argumentsTail
  primary : Looks n m 1 primary
  condition : Looks n m 1 condition
  block : Looks n m 1 block
  statements : Looks n m 17 statements
  statement : Looks n m 16 statement
  simple : Looks n m 15 simple
  branch : Looks n m 2 branch

/-! ### Parameters -/

theorem paramsTail_looks : ∀ {n m : Nat}, n ≤ m → Looks n m 1 paramsTail
  | 0, _, _, _ => .tooDeep rfl (Nat.succ_pos _)
  | n + 1, m + 1, hnm, l => by
      rw [paramsTail, paramsTail]
      refine .peek_bind ?_
      split
      · next hx => exact .skip_bind hx (by simp) fun _ => .pure _
      · refine (Foresees.acceptWord "ref").bind fun byRef l₁ _ hl₁ => ?_
        refine Foresees.identifier.bind fun name l₂ _ hl₂ => .peek_bind ?_
        generalize hx : l₂.headD .finish = x
        split
        · refine .skip_bind hx (by simp) fun hlt => ?_
          have htail := paramsTail_looks (Nat.le_of_succ_le_succ hnm)
          refine (htail.later (by omega) (by decide)).bind fun _ _ _ _ => .pure _
        · exact .skip_bind hx (by simp) fun _ => .pure _
        · exact .throw hx.symm

theorem params_looks (hnm : n ≤ m) : Looks n m 1 params := by
  intro l
  refine (Foresees.expect '(').bind fun _ r _ hr => ?_
  exact ((paramsTail_looks hnm).here hr Nat.one_lt_two).mono Nat.lt_of_succ_lt_succ

namespace Foresight

/-! ### Expressions -/

theorem expression_succ (h : Foresight n m) : Looks (n + 1) (m + 1) 14 Parser.expression := by
  intro l
  rw [Parser.expression, Parser.expression]
  exact (h.binary .disjunction).here Nat.le.refl (by decide)

theorem binary_succ (h : Foresight n m) (p : Precedence) :
    Looks (n + 1) (m + 1) (2 * p.rank + 5) (Parser.binary · p) := by
  intro l
  simp only [Parser.binary]
  refine ((h.operand p).here Nat.le.refl (by omega)).bind fun first r _ hr => ?_
  exact (h.chain p first).here hr (by omega)

theorem operand_succ (h : Foresight n m) (p : Precedence) :
    Looks (n + 1) (m + 1) (2 * p.rank + 4) (Parser.operand · p) := by
  intro l
  simp only [Parser.operand]
  cases hp : p.tighter? with
  | some q =>
      have hrank : q.rank + 1 = p.rank := by rw [← height_tighter p, hp]; rfl
      exact (h.binary q).here Nat.le.refl (by omega)
  | none => exact h.unary.here Nat.le.refl (by omega)

theorem chain_succ (h : Foresight n m) (p : Precedence) (left : Expr) :
    Looks (n + 1) (m + 1) 1 (Parser.chain · p left) := by
  intro l
  simp only [Parser.chain]
  refine .peek_bind ?_
  have hrank := p.rank_le
  cases hop : operatorAt? p (l.headD .finish) with
  | some op =>
      obtain ⟨symbol, hx, -⟩ := operatorAt?_eq_some_iff.1 hop
      refine .skip_bind hx (by simp) fun hlt => ?_
      refine ((h.operand p).later hlt ?_).bind fun right r _ hr => ?_
      · simp only [callsPerToken]
        omega
      · exact (h.chain p _).later (Nat.lt_of_le_of_lt hr hlt) (by decide)
  | none => exact .pure _

theorem unary_succ (h : Foresight n m) : Looks (n + 1) (m + 1) 3 Parser.unary := by
  intro l
  rw [Parser.unary, Parser.unary]
  refine .peek_bind ?_
  cases hop : unaryOperator? (l.headD .finish) with
  | some op =>
      obtain ⟨symbol, hx, -⟩ := unaryOperator?_eq_some_iff.1 hop
      refine .skip_bind hx (by simp) fun hlt => ?_
      exact (h.unary.later hlt (by decide)).bind fun _ _ _ _ => .pure _
  | none => exact h.access.here Nat.le.refl (by decide)

theorem access_succ (h : Foresight n m) : Looks (n + 1) (m + 1) 2 Parser.access := by
  intro l
  rw [Parser.access, Parser.access]
  refine (h.primary.here Nat.le.refl (by decide)).bind fun base r _ hr => ?_
  exact (h.selectors base).here hr (by decide)

theorem selectors_succ (h : Foresight n m) (base : Expr) :
    Looks (n + 1) (m + 1) 1 (Parser.selectors · base) := by
  intro l
  simp only [Parser.selectors]
  refine .peek_bind ?_
  split
  · next hx =>
      refine .skip_bind hx (by simp) fun hlt => ?_
      refine Foresees.identifier.bind fun name r _ hr => .peek_bind ?_
      have hlt' := Nat.lt_of_le_of_lt hr hlt
      split
      · refine (h.arguments.later hlt' (by decide)).bind fun args r' _ hr' => ?_
        exact (h.selectors _).later (Nat.lt_of_le_of_lt hr' hlt') (by decide)
      · exact (h.selectors _).later hlt' (by decide)
  · exact .pure _

theorem arguments_succ (h : Foresight n m) : Looks (n + 1) (m + 1) 1 Parser.arguments := by
  intro l
  rw [Parser.arguments, Parser.arguments]
  refine .expect_bind fun hlt => ?_
  exact h.argumentsTail.later hlt (by decide)

theorem argumentsTail_succ (h : Foresight n m) :
    Looks (n + 1) (m + 1) 15 Parser.argumentsTail := by
  intro l
  rw [Parser.argumentsTail, Parser.argumentsTail]
  refine .peek_bind ?_
  split
  · next hx => exact .skip_bind hx (by simp) fun _ => .pure _
  · refine (h.expression.here Nat.le.refl (by decide)).bind fun first r _ hr => .peek_bind ?_
    generalize hx : r.headD .finish = x
    split
    · refine .skip_bind hx (by simp) fun hlt => ?_
      have hlt' := Nat.lt_of_lt_of_le hlt hr
      exact (h.argumentsTail.later hlt' (by decide)).bind fun _ _ _ _ => .pure _
    · exact .skip_bind hx (by simp) fun _ => .pure _
    · exact .throw hx.symm

theorem primary_succ (h : Foresight n m) (hnm : n ≤ m) :
    Looks (n + 1) (m + 1) 1 Parser.primary := by
  intro l
  rw [Parser.primary, Parser.primary]
  refine .peek_bind ?_
  generalize hx : l.headD .finish = x
  split
  · refine .skip_bind hx (by simp) fun hlt => ?_
    refine ((params_looks hnm).later hlt (by decide)).bind fun ps r _ hr => ?_
    exact (h.block.later (Nat.lt_of_le_of_lt hr hlt) (by decide)).bind fun _ _ _ _ => .pure _
  · exact .skip_bind hx (by simp) fun _ => .pure _
  · refine .skip_bind hx (by simp) fun hlt => .peek_bind ?_
    split
    · exact (h.arguments.later hlt (by decide)).bind fun _ _ _ _ => .pure _
    · exact .pure _
  · refine .skip_bind hx (by simp) fun hlt => ?_
    refine (h.expression.later hlt (by decide)).bind fun inner r _ _ => ?_
    exact (Foresees.expect ')').bind fun _ _ _ _ => .pure _
  · cases hliteral : literal? x with
    | some e =>
        have hne : x ≠ .finish := by
          rintro rfl
          cases hliteral
        exact .skip_bind hx hne fun _ => .pure _
    | none => exact .throw hx.symm

/-! ### Statements -/

theorem condition_succ (h : Foresight n m) : Looks (n + 1) (m + 1) 1 Parser.condition := by
  intro l
  rw [Parser.condition, Parser.condition]
  refine .expect_bind fun hlt => ?_
  refine (h.expression.later hlt (by decide)).bind fun inner r _ _ => ?_
  exact (Foresees.expect ')').bind fun _ _ _ _ => .pure _

theorem block_succ (h : Foresight n m) : Looks (n + 1) (m + 1) 1 Parser.block := by
  intro l
  rw [Parser.block, Parser.block]
  refine .expect_bind fun hlt => ?_
  exact h.statements.later hlt (by decide)

theorem statements_succ (h : Foresight n m) : Looks (n + 1) (m + 1) 17 Parser.statements := by
  intro l
  rw [Parser.statements, Parser.statements]
  refine .peek_bind ?_
  generalize hx : l.headD .finish = x
  split
  · exact .skip_bind hx (by simp) fun _ => .pure _
  · exact .throw hx
  · refine (h.statement.here Nat.le.refl (by decide)).bind fun first r hfirst _ => ?_
    have hlt := statement_shorter hfirst
    exact (h.statements.later hlt (by decide)).bind fun _ _ _ _ => .pure _

theorem statement_succ (h : Foresight n m) : Looks (n + 1) (m + 1) 16 Parser.statement := by
  intro l
  rw [Parser.statement, Parser.statement]
  refine .peek_bind ?_
  generalize hx : l.headD .finish = x
  split
  · refine .skip_bind hx (by simp) fun hlt => .peek_bind ?_
    split
    · next hx' => exact .skip_bind hx' (by simp) fun _ => .pure _
    · refine (h.expression.later hlt (by decide)).bind fun value r _ _ => ?_
      exact (Foresees.expect ';').bind fun _ _ _ _ => .pure _
  · exact .skip_bind hx (by simp) fun hlt => h.branch.later hlt (by decide)
  · refine .skip_bind hx (by simp) fun hlt => ?_
    refine (h.condition.later hlt (by decide)).bind fun test r _ hr => ?_
    exact (h.block.later (Nat.lt_of_le_of_lt hr hlt) (by decide)).bind fun _ _ _ _ => .pure _
  · exact h.simple.here Nat.le.refl (by decide)

theorem simple_succ (h : Foresight n m) : Looks (n + 1) (m + 1) 15 Parser.simple := by
  intro l
  rw [Parser.simple, Parser.simple]
  refine (h.expression.here Nat.le.refl (by decide)).bind fun first r _ hr => .peek_bind ?_
  split
  · next hx =>
      refine .skip_bind hx (by simp) fun hlt => ?_
      cases target? first with
      | some target =>
          have hlt' := Nat.lt_of_lt_of_le hlt hr
          refine (h.expression.later hlt' (by decide)).bind fun value r' _ _ => ?_
          exact (Foresees.expect ';').bind fun _ _ _ _ => .pure _
      | none => exact .throw trivial
  · cases first with
    | call c => exact (Foresees.expect ';').bind fun _ _ _ _ => .pure _
    | _ => exact .throw trivial

theorem otherwise_foresees (h : Foresight n m) (test : Expr) (yes : List Stmt)
    (hr : r.length ≤ l.length) :
    Foresees (n + 1 < callsPerToken * l.length + (k' + 1)) (otherwise n test yes)
      (otherwise m test yes) r := by
  refine (Foresees.acceptWord "else").bind fun elseNext r₁ helse _ => ?_
  obtain ⟨rfl, rfl⟩ | ⟨rfl, rfl, -⟩ := acceptWord_eq_ok helse
  · refine (Foresees.acceptWord "if").bind fun ifNext r₂ _ hr₂ => ?_
    have hlt : r₂.length < l.length := Nat.lt_of_le_of_lt hr₂ hr
    cases ifNext with
    | true => exact (h.branch.later hlt (by decide)).bind fun _ _ _ _ => .pure _
    | false => exact (h.block.later hlt (by decide)).bind fun _ _ _ _ => .pure _
  · exact .pure _

theorem branch_succ (h : Foresight n m) : Looks (n + 1) (m + 1) 2 Parser.branch := by
  intro l
  rw [Parser.branch_succ, Parser.branch_succ]
  refine (h.condition.here Nat.le.refl (by decide)).bind fun test r _ hr => ?_
  refine (h.block.here hr (by decide)).bind fun yes r' _ hr' => ?_
  exact h.otherwise_foresees test yes (Nat.le_trans hr' hr)

end Foresight

/-- **Every reader looks one lexeme ahead**, and a larger bound changes nothing. -/
theorem foresight : ∀ {n m : Nat}, n ≤ m → Foresight n m
  | 0, _, _ => by constructor <;> intros <;> exact fun l => .tooDeep (r := l) rfl (Nat.succ_pos _)
  | n + 1, m + 1, hnm => by
      have hnm := Nat.le_of_succ_le_succ hnm
      have h := foresight hnm
      exact ⟨h.expression_succ, h.binary_succ, h.operand_succ, h.chain_succ, h.unary_succ,
        h.access_succ, h.selectors_succ, h.arguments_succ, h.argumentsTail_succ,
        h.primary_succ hnm, h.condition_succ, h.block_succ, h.statements_succ, h.statement_succ,
        h.simple_succ, h.branch_succ⟩

theorem routine_looks (hnm : n ≤ m) : Looks n m 1 routine := by
  intro l
  suffices h : Foresees (n + 1 < callsPerToken * l.length + 1) (routine n) (routine m) l from
    h.mono Nat.lt_of_succ_lt
  refine Foresees.identifier.bind fun name r hname _ => ?_
  have hlt : r.length < l.length := by
    rw [identifier_eq_ok hname]
    exact Nat.lt_succ_self _
  refine ((params_looks hnm).later hlt (by decide)).bind fun ps r' _ hr' => ?_
  have hblock := (foresight hnm).block
  exact (hblock.later (Nat.lt_of_le_of_lt hr' hlt) (by decide)).bind fun _ _ _ _ => .pure _

theorem routines_looks : ∀ {n m : Nat}, n ≤ m → Looks n m 1 routines
  | 0, _, _, _ => .tooDeep rfl (Nat.succ_pos _)
  | n + 1, m + 1, hnm, l => by
      have hnm := Nat.le_of_succ_le_succ hnm
      rw [routines, routines]
      refine .peek_bind ?_
      generalize hx : l.headD .finish = x
      split
      · exact .pure _
      · refine .skip_bind hx (by simp) fun hlt => ?_
        refine ((routine_looks hnm).later hlt (by decide)).bind fun first r _ hr => ?_
        have hrest := routines_looks hnm
        exact (hrest.later (Nat.lt_of_le_of_lt hr hlt) (by decide)).bind fun _ _ _ _ => .pure _
      · exact .throw hx.symm

theorem program_looks (hnm : n ≤ m) : Looks n m 1 program := fun l =>
  (routines_looks hnm l).bind fun _ _ _ _ => .pure _

/-! ### The bound for a list of lexemes -/

/-- A reader under the bound that the number of lexemes gives. -/
def bounded (p : Nat → Parser α) : Parser α := fun l => p (bound l.length) l

section

variable {p : Nat → Parser α}

theorem eq_of_not_tooDeep (hp : ∀ {n m}, n ≤ m → Looks n m k p)
    (hn : ∀ r, p n l ≠ .error .tooDeep r) (hm : ∀ r, p m l ≠ .error .tooDeep r) :
    p n l = p m l := by
  obtain hle | hle := Nat.le_total n m
  · exact ((hp hle l).agrees hn).symm
  · exact (hp hle l).agrees hm

/-- **Under the bound for its lexemes a reader looks one lexeme ahead**, and it is not stopped by
the bound. -/
theorem bounded_foresees (hp : ∀ {n m}, n ≤ m → Looks n m k p) (hk : k ≤ callsPerToken)
    (l : List Lexeme) : Foresees False (bounded p) (bounded p) l := by
  have hlarge : ∀ l : List Lexeme, ¬bound l.length < callsPerToken * l.length + k := by
    intro l
    simp only [bound, Nat.mul_succ]
    omega
  have hdeep : ∀ l r, bounded p l ≠ .error .tooDeep r := by
    intro l r h
    cases hp Nat.le.refl l with
    | tooDeep _ hsmall => exact hlarge l hsmall
    | ok _ _ read _ => cases read.symm.trans h
    | error _ _ foundAt read _ =>
        cases read.symm.trans h
        exact foundAt.ne_tooDeep rfl
  -- The reader does the same under the bound for `l` and under the one for another list.
  cases hp Nat.le.refl l with
  | tooDeep _ hsmall => exact absurd hsmall (hlarge l)
  | ok split noFinish read always =>
      refine .ok split noFinish read fun r' hr' => ?_
      have hother := always r' hr'
      exact (eq_of_not_tooDeep hp (hdeep _) (by simp [hother])).trans hother
  | error split noFinish foundAt read always =>
      refine .error split noFinish foundAt read fun r' hr' => ?_
      have hother := always r' hr'
      exact (eq_of_not_tooDeep hp (hdeep _) (by simp [hother, foundAt.ne_tooDeep])).trans hother

end
end Parser

/-! ### Readings of tokens -/

/-- The next lexeme; the end of the list is the end of the text. -/
def nextLexeme (tokens : List Token) : Lexeme := (tokens.map Located.item).headD .finish

/-- Where the first one of the tokens `rest` stands; if there is none, where the last one of all
tokens stands. -/
def stopPosition (tokens rest : List Token) : Position :=
  (rest.head?.or tokens.getLast?).elim .unknown Located.position

/-- What `read` does at any place of a list of tokens is decided by the lexemes of the tokens that
it takes and by the next lexeme. -/
structure LooksOneAhead {α : Type}
    (read : Reading → Except (Located ParseProblem) (α × Reading)) : Prop where
  /-- Where a tree is read, the reading goes on after the tokens taken, and the end of the text is
  none of them.  Wherever the same lexemes are taken and the next lexeme is the same, the same
  tree is read, whatever else comes before and after and wherever the tokens stand. -/
  tree : ∀ {before after : List Token} {t : α} {r : Reading},
    read ⟨before ++ after, before.length⟩ = .ok (t, r) →
      ∃ taken rest : List Token, after = taken ++ rest ∧ .finish ∉ taken.map Located.item ∧
        r = ⟨before ++ after, before.length + taken.length⟩ ∧
        ∀ before' taken' rest' : List Token, taken'.map Located.item = taken.map Located.item →
          nextLexeme rest' = nextLexeme rest →
          read ⟨before' ++ (taken' ++ rest'), before'.length⟩ =
            .ok (t, ⟨before' ++ (taken' ++ rest'), before'.length + taken'.length⟩)
  /-- Where no tree is read, the diagnostic tells the place after the tokens taken, the end of the
  text is none of them, and a message about a lexeme is about the one at this place.  Wherever the
  same lexemes are taken and the next lexeme is the same, the problem is the same, and its place is
  told in the same way. -/
  problem : ∀ {before after : List Token} {p : Located ParseProblem},
    read ⟨before ++ after, before.length⟩ = .error p →
      ∃ taken rest : List Token, after = taken ++ rest ∧ .finish ∉ taken.map Located.item ∧
        Diagnostic.ofParseProblem p =
          { kind := .parse
            message := p.item.message
            position := stopPosition (before ++ after) rest } ∧
        p.item.FoundAt (nextLexeme rest) ∧
        ∀ before' taken' rest' : List Token, taken'.map Located.item = taken.map Located.item →
          nextLexeme rest' = nextLexeme rest →
          read ⟨before' ++ (taken' ++ rest'), before'.length⟩ =
            .error ⟨p.item, stopPosition (before' ++ (taken' ++ rest')) rest'⟩

namespace Reading

variable {α : Type} {p : Nat → Parser α} {before taken rest : List Token}

theorem rest_append (before after : List Token) :
    (Reading.mk (before ++ after) before.length).rest = after.map Located.item := by
  simp [Reading.rest]

theorem positionAt_append (before taken rest : List Token) (next : Nat) :
    (Reading.mk (before ++ (taken ++ rest)) next).positionAt (before.length + taken.length) =
      stopPosition (before ++ (taken ++ rest)) rest := by
  have hfirst : (before ++ (taken ++ rest))[before.length + taken.length]? = rest.head? := by
    rw [← List.append_assoc, ← List.length_append, List.getElem?_append_right Nat.le.refl,
      Nat.sub_self, List.head?_eq_getElem?]
  rw [positionAt, hfirst, stopPosition]
  cases rest.head? with
  | some token => rfl
  | none =>
      cases (before ++ (taken ++ rest)).getLast? <;> rfl

theorem apply_of_ok {t : α}
    (h : Parser.bounded p ((taken ++ rest).map Located.item) = .ok t (rest.map Located.item)) :
    (Reading.mk (before ++ (taken ++ rest)) before.length).apply p =
      .ok (t, ⟨before ++ (taken ++ rest), before.length + taken.length⟩) := by
  rw [Parser.bounded, ← rest_append before] at h
  rw [apply, h]
  simp only [List.length_append, List.length_map, Nat.add_sub_cancel, ← Nat.add_assoc]

theorem apply_of_error {e : ParseProblem}
    (h : Parser.bounded p ((taken ++ rest).map Located.item) = .error e (rest.map Located.item)) :
    (Reading.mk (before ++ (taken ++ rest)) before.length).apply p =
      .error ⟨e, stopPosition (before ++ (taken ++ rest)) rest⟩ := by
  rw [Parser.bounded, ← rest_append before] at h
  rw [apply, h]
  simp only [List.length_append, List.length_map, Nat.add_sub_cancel, ← Nat.add_assoc,
    positionAt_append]

/-- What a reader that looks one lexeme ahead does with tokens, here and wherever the lexemes that
it takes and the next one are the same. -/
theorem apply_cases (hp : ∀ l, Parser.Foresees False (Parser.bounded p) (Parser.bounded p) l)
    (after : List Token) : ∃ taken rest : List Token,
      after = taken ++ rest ∧ .finish ∉ taken.map Located.item ∧
        ((∃ t, ∀ before' taken' rest' : List Token,
            taken'.map Located.item = taken.map Located.item →
            nextLexeme rest' = nextLexeme rest →
            (Reading.mk (before' ++ (taken' ++ rest')) before'.length).apply p =
              .ok (t, ⟨before' ++ (taken' ++ rest'), before'.length + taken'.length⟩)) ∨
          ∃ e : ParseProblem, e.FoundAt (nextLexeme rest) ∧ ∀ before' taken' rest' : List Token,
            taken'.map Located.item = taken.map Located.item →
            nextLexeme rest' = nextLexeme rest →
            (Reading.mk (before' ++ (taken' ++ rest')) before'.length).apply p =
              .error ⟨e, stopPosition (before' ++ (taken' ++ rest')) rest'⟩) := by
  cases hp (after.map Located.item) with
  | tooDeep _ h => exact h.elim
  | @ok _ _ t split noFinish read always =>
      obtain ⟨taken, rest, rfl, rfl, rfl⟩ := List.map_eq_append_iff.1 split
      refine ⟨taken, rest, rfl, noFinish, .inl ⟨t, fun before' taken' rest' htaken hnext => ?_⟩⟩
      refine apply_of_ok ?_
      rw [List.map_append, htaken]
      exact always _ hnext
  | @error _ _ e split noFinish foundAt read always =>
      obtain ⟨taken, rest, rfl, rfl, rfl⟩ := List.map_eq_append_iff.1 split
      refine ⟨taken, rest, rfl, noFinish,
        .inr ⟨e, foundAt, fun before' taken' rest' htaken hnext => ?_⟩⟩
      refine apply_of_error ?_
      rw [List.map_append, htaken]
      exact always _ hnext

/-- A reader of lexemes that looks one lexeme ahead does so with tokens. -/
theorem apply_looksOneAhead
    (hp : ∀ l, Parser.Foresees False (Parser.bounded p) (Parser.bounded p) l) :
    LooksOneAhead fun r => r.apply p where
  tree {before after t r} hr := by
    obtain ⟨taken, rest, rfl, noFinish, ⟨t', hok⟩ | ⟨e, -, herror⟩⟩ := apply_cases hp after
    · cases hr.symm.trans (hok before taken rest rfl rfl)
      exact ⟨taken, rest, rfl, noFinish, rfl, hok⟩
    · cases hr.symm.trans (herror before taken rest rfl rfl)
  problem {before after e} hr := by
    obtain ⟨taken, rest, rfl, noFinish, ⟨t', hok⟩ | ⟨e, foundAt, herror⟩⟩ := apply_cases hp after
    · cases hr.symm.trans (hok before taken rest rfl rfl)
    · cases hr.symm.trans (herror before taken rest rfl rfl)
      exact ⟨taken, rest, rfl, noFinish, rfl, foundAt, herror⟩

end Reading

/-- **The parser looks one token ahead and never back.**  At every place of every list of tokens
the reader of expressions and the reader of programs go on to a later place or stay, take no end of
the text, and depend on nothing but the lexemes that they take and the next one; a problem is
reported where the reader stopped, and it is never the bound on nested calls.  So neither positions
nor tokens after the next one change a tree or a message.  An expression takes a token at least. -/
theorem one_token_lookahead :
    LooksOneAhead Reading.expression ∧ LooksOneAhead Reading.program ∧
      ∀ {r r' : Reading} {e : Expr}, r.expression = .ok (e, r') → r.next < r'.next := by
  refine ⟨Reading.apply_looksOneAhead ?_, Reading.apply_looksOneAhead ?_, fun {r r' e} h => ?_⟩
  · exact Parser.bounded_foresees (fun hnm => (Parser.foresight hnm).expression) (by decide)
  · exact Parser.bounded_foresees Parser.program_looks (by decide)
  · obtain ⟨d, -, rfl, -⟩ := (Reading.expression_eq_ok_iff r r' e).1 h
    exact Nat.lt_add_of_pos_right d.length_pos

/-- A name before a semicolon is read in the middle of a statement, and on other lines, as it is
read at the beginning. -/
theorem one_token_lookahead_name :
    Reading.expression ⟨[] ++ [⟨.identifier "x", ⟨1, 1⟩⟩, ⟨.mark ';', ⟨1, 2⟩⟩], 0⟩ =
        .ok (.variable "x", ⟨[⟨.identifier "x", ⟨1, 1⟩⟩, ⟨.mark ';', ⟨1, 2⟩⟩], 1⟩) ∧
      Reading.expression
          ⟨[⟨.keyword "return", ⟨7, 1⟩⟩, ⟨.identifier "x", ⟨7, 8⟩⟩, ⟨.mark ';', ⟨8, 1⟩⟩], 1⟩ =
        .ok (.variable "x",
          ⟨[⟨.keyword "return", ⟨7, 1⟩⟩, ⟨.identifier "x", ⟨7, 8⟩⟩, ⟨.mark ';', ⟨8, 1⟩⟩], 2⟩) := by
  have hread : Reading.expression
      ⟨[] ++ [⟨.identifier "x", ⟨1, 1⟩⟩, ⟨.mark ';', ⟨1, 2⟩⟩], 0⟩ =
        .ok (.variable "x", ⟨[⟨.identifier "x", ⟨1, 1⟩⟩, ⟨.mark ';', ⟨1, 2⟩⟩], 1⟩) := rfl
  obtain ⟨taken, rest, hsplit, -, hnext, halike⟩ := one_token_lookahead.1.tree hread
  obtain _ | ⟨token, _ | ⟨_, _⟩⟩ := taken
  · cases hnext
  · cases hsplit
    exact ⟨hread, halike [⟨.keyword "return", ⟨7, 1⟩⟩] [⟨.identifier "x", ⟨7, 8⟩⟩]
      [⟨.mark ';', ⟨8, 1⟩⟩] rfl rfl⟩
  · simp at hnext

end ProtoScript
