import ProtoScript.Proofs.Grammar
/-!
# The grammar is unambiguous

Lexemes have one derivation at most.  More is true, and is needed for the proof by
recursion: if two derivations start at the same place of a list of lexemes, and what
follows does not go on with either of them, they are the same and end at the same
place.  An expression goes on with an operator of one of its levels, with `.`, and
after a name with `(` (`Grammar.Closes`); a conditional statement goes on with `else`.
-/

namespace ProtoScript

theorem BinaryOperator.symbol_injective {op op' : BinaryOperator} (h : op.symbol = op'.symbol) :
    op = op' :=
  Option.some.inj ((ofSymbol?_symbol op).symm.trans (h ▸ ofSymbol?_symbol op'))

theorem UnaryOperator.symbol_injective {op op' : UnaryOperator} (h : op.symbol = op'.symbol) :
    op = op' :=
  Option.some.inj ((ofSymbol?_symbol op).symm.trans (h ▸ ofSymbol?_symbol op'))

/-- The number of tighter levels. -/
def Precedence.rank : Precedence → Nat
  | product => 0
  | sum => 1
  | comparison => 2
  | conjunction => 3
  | disjunction => 4

namespace Grammar

/-- **The table of the operators** has every operator once, with its symbol and at its level. -/
theorem mem_operators {k : Nat} {symbol : String} {op : BinaryOperator} :
    (symbol, op) ∈ operators k ↔ op.symbol = symbol ∧ op.precedence.rank = k := by
  match k with
  | 0 | 1 | 2 | 3 | 4 =>
      cases op <;>
        simp [operators, BinaryOperator.symbol, BinaryOperator.precedence, Precedence.rank, eq_comm]
  | k + 5 => cases op <;> simp [operators, BinaryOperator.precedence, Precedence.rank]

theorem mem_signs {symbol : String} {op : UnaryOperator} :
    (symbol, op) ∈ signs ↔ op.symbol = symbol := by
  cases op <;> simp [signs, UnaryOperator.symbol, eq_comm]

/-- The symbol determines the operator and its level. -/
theorem operators_unique {j k : Nat} {symbol : String} {op op' : BinaryOperator}
    (h : (symbol, op) ∈ operators j) (h' : (symbol, op') ∈ operators k) : j = k ∧ op = op' := by
  obtain ⟨hs, rfl⟩ := mem_operators.1 h
  obtain ⟨hs', rfl⟩ := mem_operators.1 h'
  obtain rfl := BinaryOperator.symbol_injective (hs.trans hs'.symm)
  exact ⟨rfl, rfl⟩

theorem signs_unique {symbol : String} {op op' : UnaryOperator} (h : (symbol, op) ∈ signs)
    (h' : (symbol, op') ∈ signs) : op = op' :=
  UnaryOperator.symbol_injective ((mem_signs.1 h).trans (mem_signs.1 h').symm)

end Grammar

/-- A lexeme with which an expression can begin. -/
def Lexeme.Opens : Lexeme → Prop
  | identifier _ | integer _ | text _ | truth _ => True
  | operator symbol => symbol = "@" ∨ ∃ op, (symbol, op) ∈ Grammar.signs
  | mark symbol => symbol = '('
  | keyword word => word = "nil" ∨ word = "lambda"
  | finish => False

namespace Grammar

/-! ### Where derivations begin -/

/-- A primary expression begins with no sign. -/
theorem Primary.begins (d : Primary) : ∃ x l, d.tokens = x :: l ∧ x.Opens ∧
    ∀ {symbol op}, (symbol, op) ∈ signs → x ≠ .operator symbol := by
  cases d with
  | newObject =>
      refine ⟨_, _, rfl, by simp [Lexeme.Opens], fun {symbol op} h hx => ?_⟩
      cases Lexeme.operator.inj hx
      cases op <;> simp [signs] at h
  | _ => exact ⟨_, _, rfl, by simp [Lexeme.Opens], fun _ => by simp⟩

theorem Unary.begins (d : Unary) : ∃ x l, d.tokens = x :: l ∧ x.Opens := by
  cases d with
  | op symbol op h operand => exact ⟨_, _, rfl, .inr ⟨op, h⟩⟩
  | access base selectors =>
      obtain ⟨x, l, hl, hx, -⟩ := base.begins
      exact ⟨x, l ++ selectors.tokens, by rw [tokens, hl]; rfl, hx⟩

theorem Operand.begins : ∀ {k : Nat} (d : Operand k),
    ∃ x l, d.tokens = x :: l ∧ x.Opens
  | _, .unary u => u.begins
  | _, .level first rest => by
      obtain ⟨x, l, hl, hx⟩ := first.begins
      exact ⟨x, l ++ rest.tokens, by rw [tokens, hl]; rfl, hx⟩

theorem Operand.ne_cons {k : Nat} (d : Operand k) {x : Lexeme} (hx : ¬x.Opens)
    {l r : List Lexeme} : d.tokens ++ r ≠ x :: l := by
  obtain ⟨y, l', hl, hy⟩ := d.begins
  rw [hl]
  rintro ⟨⟩
  exact hx hy

/-- A statement begins with none of the lexemes that end what stands before it. -/
theorem Statement.begins (d : Statement) : ∃ x l, d.tokens = x :: l ∧
    x ≠ .mark '\x7d' ∧ x ≠ .keyword "else" ∧ x ≠ .finish := by
  have hopens : ∀ {x : Lexeme}, x.Opens →
      x ≠ .mark '\x7d' ∧ x ≠ .keyword "else" ∧ x ≠ .finish := by
    intro x hx
    refine ⟨?_, ?_, ?_⟩ <;> rintro rfl <;> simp [Lexeme.Opens] at hx
  cases d with
  | assign target value =>
      obtain ⟨x, l, hl, hx⟩ := target.begins
      exact ⟨x, _, by rw [tokens, hl]; rfl, hopens hx⟩
  | call e =>
      obtain ⟨x, l, hl, hx⟩ := e.begins
      exact ⟨x, _, by rw [tokens, hl]; rfl, hopens hx⟩
  | _ => exact ⟨_, _, rfl, by simp⟩

/-- The word with which a statement begins. -/
def Statement.word? : Statement → Option String
  | .leave | .give _ => some "return"
  | .branch _ => some "if"
  | .loop .. => some "while"
  | .assign .. | .call _ => none

/-- **The first lexeme tells the kinds of statement apart.** -/
theorem Statement.word?_eq {d d' : Statement} {r r' : List Lexeme}
    (h : d.tokens ++ r = d'.tokens ++ r') : d.word? = d'.word? := by
  have hopens : ∀ {x : Lexeme}, x.Opens → ∀ {w}, w = "return" ∨ w = "if" ∨ w = "while" →
      x ≠ .keyword w := by
    rintro _ hx w hw rfl
    obtain rfl | rfl := hx <;> simp at hw
  have hhead : ∀ d : Statement, ∃ x l, d.tokens = x :: l ∧
      ∀ w, w = "return" ∨ w = "if" ∨ w = "while" → (x = .keyword w ↔ d.word? = some w) := by
    intro d
    cases d with
    | assign target value =>
        obtain ⟨x, l, hl, hx⟩ := target.begins
        exact ⟨x, _, by rw [tokens, hl]; rfl, fun w hw => by simp [hopens hx hw, word?]⟩
    | call e =>
        obtain ⟨x, l, hl, hx⟩ := e.begins
        exact ⟨x, _, by rw [tokens, hl]; rfl, fun w hw => by simp [hopens hx hw, word?]⟩
    | _ => exact ⟨_, _, rfl, fun w _ => by simp [word?]⟩
  obtain ⟨x, l, hl, hx⟩ := hhead d
  obtain ⟨x', l', hl', hx'⟩ := hhead d'
  rw [hl, hl'] at h
  obtain rfl := (List.cons.inj h).1
  -- Every word of a statement is one of the three.
  have hwords : ∀ d : Statement, ∀ w, d.word? = some w → w = "return" ∨ w = "if" ∨ w = "while" := by
    intro d w hw
    cases d <;> simp_all [word?]
  refine Option.ext fun w => ⟨fun hw => ?_, fun hw => ?_⟩
  · exact (hx' w (hwords d w hw)).1 ((hx w (hwords d w hw)).2 hw)
  · exact (hx w (hwords d' w hw)).1 ((hx' w (hwords d' w hw)).2 hw)

theorem Block.head_ne_else (d : Block) {r : List Lexeme} :
    (d.tail ++ r).head? ≠ some (.keyword "else") := by
  cases d with
  | done => simp [tail]
  | more first rest =>
      obtain ⟨x, l, hl, -, hx, -⟩ := first.begins
      simpa [tail, hl] using hx

/-! ### Where expressions end -/

/-- Whether the last lexeme is a name that `(` would make a call of. -/
def Primary.isOpen : Primary → Bool
  | .name _ => true
  | _ => false

/-- Whether the last lexeme is a name, where it is said of what stands before. -/
def Selectors.isOpen : Selectors → Bool → Bool
  | .done, before => before
  | .field _ rest, _ => rest.isOpen true
  | .method _ _ rest, _ => rest.isOpen false

mutual

/-- Whether the last lexeme is a name that `(` would make a call of. -/
def Unary.isOpen : Unary → Bool
  | .op _ _ _ operand => operand.isOpen
  | .access base selectors => selectors.isOpen base.isOpen

/-- Whether the last lexeme is a name that `(` would make a call of. -/
def Operand.isOpen : {k : Nat} → Operand k → Bool
  | _, .unary u => u.isOpen
  | _, .level first rest => rest.isOpen first.isOpen

/-- Whether the last lexeme is a name, where it is said of what stands before. -/
def Chain.isOpen : {k : Nat} → Chain k → Bool → Bool
  | _, .done, before => before
  | _, .more _ _ _ right rest, _ => rest.isOpen right.isOpen

end

/-- What follows does not go on with an operand: no operator of one of the `k` tightest levels comes
next, no selector, and no arguments after a name. -/
structure Closes (k : Nat) (isOpen : Bool) (rest : List Lexeme) : Prop where
  arguments : isOpen = true → rest.head? ≠ some (.mark '(')
  selector : rest.head? ≠ some (.mark '.')
  operator : ∀ {j symbol op}, (symbol, op) ∈ operators j → j < k →
    rest.head? ≠ some (.operator symbol)

namespace Closes

variable {k k' : Nat} {b : Bool} {rest l : List Lexeme}

theorem mono (h : Closes k b rest) (hk : k' ≤ k) : Closes k' b rest :=
  ⟨h.arguments, h.selector, fun hs hj => h.operator hs (Nat.lt_of_lt_of_le hj hk)⟩

/-- A mark that is no opening parenthesis and no point closes every operand. -/
theorem mark {c : Char} (hc : c ≠ '(' ∧ c ≠ '.') : Closes k b (.mark c :: l) where
  arguments _ := by simpa using hc.1
  selector := by simpa using hc.2
  operator _ _ := by simp

/-- So does the sign of an assignment. -/
theorem assign : Closes k b (.operator "=" :: l) where
  arguments _ := by simp
  selector := by simp
  operator {j symbol op} hs _ hx := by
    cases hx
    have hsymbol := (mem_operators.1 hs).1
    cases op <;> simp [BinaryOperator.symbol] at hsymbol

theorem items (comma : Bool) (items : List (List Lexeme)) :
    Closes k b (itemsTail comma items ++ rest) := by
  cases items with
  | nil => cases comma <;> exact mark (by decide)
  | cons item items => exact mark (by decide)

/-- A selector closes what stands before it. -/
theorem selectors {s : Selectors} (h : Closes k (s.isOpen b) rest) (hb : b = true) :
    (s.tokens ++ rest).head? ≠ some (.mark '(') := by
  cases s with
  | done => exact h.arguments hb
  | _ => simp [Selectors.tokens]

/-- An operator closes the tighter operand before it. -/
theorem chain {c : Chain k} (h : Closes (k + 1) (c.isOpen b) rest) :
    Closes k b (c.tokens ++ rest) := by
  cases c with
  | done => exact h.mono (Nat.le_succ _)
  | more symbol op hop right rest' =>
      refine ⟨fun _ => by simp [Chain.tokens], by simp [Chain.tokens], fun hs hj hx => ?_⟩
      cases hx
      exact Nat.ne_of_lt hj (operators_unique hs hop).1

/-- No operator of the level comes next. -/
theorem ne_operator {symbol : String} {op : BinaryOperator} (h : Closes (k + 1) b rest)
    (hop : (symbol, op) ∈ operators k) : rest ≠ .operator symbol :: l := by
  rintro rfl
  exact h.operator hop (Nat.lt_succ_self k) rfl

end Closes

/-! ### Parameters -/

theorem paramTokens_unique {p p' : Param} {r r' : List Lexeme}
    (h : paramTokens p ++ r = paramTokens p' ++ r') : p = p' ∧ r = r' := by
  obtain ⟨name, byRef⟩ := p
  obtain ⟨name', byRef'⟩ := p'
  cases byRef <;> cases byRef' <;> simp_all [paramTokens]

theorem paramTokens_ne_cons {p : Param} {r l : List Lexeme} {c : Char} :
    paramTokens p ++ r ≠ .mark c :: l := by
  obtain ⟨name, byRef⟩ := p
  cases byRef <;> simp [paramTokens]

theorem params_unique {comma comma' : Bool} :
    ∀ {more more' : List Param} {r r' : List Lexeme},
      itemsTail comma (more.map paramTokens) ++ r = itemsTail comma' (more'.map paramTokens) ++ r' →
        more = more' ∧ comma = comma' ∧ r = r'
  | [], [], r, r', h => by cases comma <;> cases comma' <;> simp_all [itemsTail]
  | [], p :: more, r, r', h => by
      cases comma with
      | false => simp [itemsTail] at h
      | true =>
          simp only [List.map_nil, List.map_cons, itemsTail, if_pos, List.cons_append,
            List.append_assoc, List.cons.injEq, true_and] at h
          exact absurd h.symm paramTokens_ne_cons
  | p :: more, [], r, r', h => by
      cases comma' with
      | false => simp [itemsTail] at h
      | true =>
          simp only [List.map_nil, List.map_cons, itemsTail, if_pos, List.cons_append,
            List.append_assoc, List.cons.injEq, true_and] at h
          exact absurd h paramTokens_ne_cons
  | p :: more, p' :: more', r, r', h => by
      simp only [List.map_cons, itemsTail, List.cons_append, List.append_assoc, List.cons.injEq,
        true_and] at h
      obtain ⟨rfl, hm⟩ := paramTokens_unique h
      obtain ⟨rfl, rfl, rfl⟩ := params_unique hm
      exact ⟨rfl, rfl, rfl⟩

theorem Params.unique {d d' : Params} {r r' : List Lexeme} (h : d.tail ++ r = d'.tail ++ r') :
    d = d' ∧ r = r' := by
  cases d with
  | empty =>
      cases d' with
      | empty => exact ⟨rfl, by simpa [tail] using h⟩
      | list first more comma =>
          rw [tail, tail, List.append_assoc] at h
          exact absurd h.symm paramTokens_ne_cons
  | list first more comma =>
      rw [tail, List.append_assoc] at h
      cases d' with
      | empty => exact absurd h paramTokens_ne_cons
      | list first' more' comma' =>
          rw [tail, List.append_assoc] at h
          obtain ⟨rfl, hm⟩ := paramTokens_unique h
          obtain ⟨rfl, rfl, rfl⟩ := params_unique hm
          exact ⟨rfl, rfl⟩

/-! ### Expressions and statements -/

mutual

theorem Primary.unique : ∀ (d d' : Primary) {r r' : List Lexeme},
    d.tokens ++ r = d'.tokens ++ r' → (d.isOpen = true → r.head? ≠ some (.mark '(')) →
      (d'.isOpen = true → r'.head? ≠ some (.mark '(')) → d = d' ∧ r = r'
  | .int value, d', _, _, h, _, _ => by cases d' <;> simp_all [Primary.tokens]
  | .text value, d', _, _, h, _, _ => by cases d' <;> simp_all [Primary.tokens]
  | .truth value, d', _, _, h, _, _ => by cases d' <;> simp_all [Primary.tokens]
  | .nil, d', _, _, h, _, _ => by cases d' <;> simp_all [Primary.tokens]
  | .newObject, d', _, _, h, _, _ => by cases d' <;> simp_all [Primary.tokens]
  | .lambda params body, d', r, r', h, _, _ => by
      cases d' with
      | lambda params' body' =>
          simp only [Primary.tokens, List.cons_append, List.append_assoc, List.cons.injEq,
            true_and] at h
          obtain ⟨rfl, hb⟩ := Params.unique h
          obtain ⟨rfl, rfl⟩ := Block.unique body body' (List.cons.inj hb).2
          exact ⟨rfl, rfl⟩
      | _ => simp [Primary.tokens] at h
  | .name name, d', r, r', h, ho, _ => by
      cases d' with
      | name name' => simpa [Primary.tokens] using h
      | call name' args =>
          simp only [Primary.tokens, List.cons_append, List.nil_append, List.cons.injEq] at h
          exact absurd (by rw [h.2]; rfl) (ho rfl)
      | _ => simp [Primary.tokens] at h
  | .call name args, d', r, r', h, _, ho' => by
      cases d' with
      | name name' =>
          simp only [Primary.tokens, List.cons_append, List.nil_append, List.cons.injEq] at h
          exact absurd (by rw [← h.2]; rfl) (ho' rfl)
      | call name' args' =>
          simp only [Primary.tokens, List.cons_append, List.cons.injEq, Lexeme.identifier.injEq,
            true_and] at h
          obtain ⟨rfl, ha⟩ := h
          obtain ⟨rfl, rfl⟩ := Arguments.unique args args' ha
          exact ⟨rfl, rfl⟩
      | _ => simp [Primary.tokens] at h
  | .parentheses inner, d', r, r', h, _, _ => by
      cases d' with
      | parentheses inner' =>
          simp only [Primary.tokens, List.cons_append, List.append_assoc, List.cons.injEq,
            true_and] at h
          obtain ⟨rfl, hr⟩ := Operand.unique inner inner' h (.mark (by decide)) (.mark (by decide))
          exact ⟨rfl, by simpa using hr⟩
      | _ => simp [Primary.tokens] at h
termination_by structural d => d

theorem Selectors.unique : ∀ (d d' : Selectors) {b b' : Bool} {r r' : List Lexeme},
    d.tokens ++ r = d'.tokens ++ r' → Closes 0 (d.isOpen b) r → Closes 0 (d'.isOpen b') r' →
      d = d' ∧ r = r'
  | .done, d', b, b', r, r', h, hc, _ => by
      cases d' with
      | done => exact ⟨rfl, h⟩
      | _ =>
          change r = _ at h
          exact absurd (by rw [h]; rfl) hc.selector
  | .field name rest, d', b, b', r, r', h, hc, hc' => by
      cases d' with
      | done =>
          change _ = r' at h
          exact absurd (by rw [← h]; rfl) hc'.selector
      | field name' rest' =>
          simp only [Selectors.tokens, List.cons_append, List.cons.injEq,
            Lexeme.identifier.injEq, true_and] at h
          obtain ⟨rfl, hr⟩ := h
          obtain ⟨rfl, rfl⟩ := Selectors.unique rest rest' hr hc hc'
          exact ⟨rfl, rfl⟩
      | method name' args rest' =>
          simp only [Selectors.tokens, List.cons_append, List.cons.injEq, true_and] at h
          exact absurd (by rw [h.2]; rfl) (Closes.selectors (s := rest) (b := true) hc rfl)
  | .method name args rest, d', b, b', r, r', h, hc, hc' => by
      cases d' with
      | done =>
          change _ = r' at h
          exact absurd (by rw [← h]; rfl) hc'.selector
      | field name' rest' =>
          simp only [Selectors.tokens, List.cons_append, List.cons.injEq, true_and] at h
          exact absurd (by rw [← h.2]; rfl) (Closes.selectors (s := rest') (b := true) hc' rfl)
      | method name' args' rest' =>
          simp only [Selectors.tokens, List.cons_append, List.append_assoc, List.cons.injEq,
            Lexeme.identifier.injEq, true_and] at h
          obtain ⟨rfl, ha⟩ := h
          obtain ⟨rfl, hr⟩ := Arguments.unique args args' ha
          obtain ⟨rfl, rfl⟩ := Selectors.unique rest rest' hr hc hc'
          exact ⟨rfl, rfl⟩
termination_by structural d => d

theorem Unary.unique : ∀ (d d' : Unary) {r r' : List Lexeme}, d.tokens ++ r = d'.tokens ++ r' →
    Closes 0 d.isOpen r → Closes 0 d'.isOpen r' → d = d' ∧ r = r'
  | .op symbol op hop operand, d', r, r', h, hc, hc' => by
      cases d' with
      | op symbol' op' hop' operand' =>
          simp only [Unary.tokens, List.cons_append, List.cons.injEq,
            Lexeme.operator.injEq] at h
          obtain ⟨rfl, hr⟩ := h
          obtain rfl := signs_unique hop hop'
          obtain ⟨rfl, rfl⟩ := Unary.unique operand operand' hr hc hc'
          exact ⟨rfl, rfl⟩
      | access base selectors =>
          obtain ⟨x, l, hl, -, hx⟩ := base.begins
          simp only [Unary.tokens, hl, List.cons_append, List.cons.injEq] at h
          exact absurd h.1.symm (hx hop)
  | .access base selectors, d', r, r', h, hc, hc' => by
      cases d' with
      | op symbol' op' hop' operand' =>
          obtain ⟨x, l, hl, -, hx⟩ := base.begins
          simp only [Unary.tokens, hl, List.cons_append, List.cons.injEq] at h
          exact absurd h.1 (hx hop')
      | access base' selectors' =>
          rw [Unary.tokens, Unary.tokens, List.append_assoc, List.append_assoc] at h
          obtain ⟨rfl, hs⟩ := Primary.unique base base' h hc.selectors hc'.selectors
          obtain ⟨rfl, rfl⟩ := Selectors.unique selectors selectors' hs hc hc'
          exact ⟨rfl, rfl⟩
termination_by structural d => d

theorem Operand.unique : ∀ {k : Nat} (d d' : Operand k) {r r' : List Lexeme},
    d.tokens ++ r = d'.tokens ++ r' → Closes k d.isOpen r → Closes k d'.isOpen r' →
      d = d' ∧ r = r'
  | _, .unary u, d', r, r', h, hc, hc' => by
      cases d' with
      | unary u' =>
          obtain ⟨rfl, rfl⟩ := Unary.unique u u' h hc hc'
          exact ⟨rfl, rfl⟩
  | _, .level first rest, d', r, r', h, hc, hc' => by
      cases d' with
      | level first' rest' =>
          rw [Operand.tokens, Operand.tokens, List.append_assoc, List.append_assoc] at h
          obtain ⟨rfl, hr⟩ := Operand.unique first first' h (Closes.chain hc) (Closes.chain hc')
          obtain ⟨rfl, rfl⟩ := Chain.unique rest rest' hr hc hc'
          exact ⟨rfl, rfl⟩
termination_by structural _ d => d

theorem Chain.unique : ∀ {k : Nat} (d d' : Chain k) {b b' : Bool} {r r' : List Lexeme},
    d.tokens ++ r = d'.tokens ++ r' → Closes (k + 1) (d.isOpen b) r →
      Closes (k + 1) (d'.isOpen b') r' → d = d' ∧ r = r'
  | _, .done, d', b, b', r, r', h, hc, _ => by
      cases d' with
      | done => exact ⟨rfl, h⟩
      | more symbol' op' hop' right' rest' => exact absurd h (hc.ne_operator hop')
  | _, .more symbol op hop right rest, d', b, b', r, r', h, hc, hc' => by
      cases d' with
      | done => exact absurd h.symm (hc'.ne_operator hop)
      | more symbol' op' hop' right' rest' =>
          simp only [Chain.tokens, List.cons_append, List.append_assoc, List.cons.injEq,
            Lexeme.operator.injEq] at h
          obtain ⟨rfl, ho⟩ := h
          obtain ⟨-, rfl⟩ := operators_unique hop hop'
          obtain ⟨rfl, hr⟩ := Operand.unique right right' ho (Closes.chain hc) (Closes.chain hc')
          obtain ⟨rfl, rfl⟩ := Chain.unique rest rest' hr hc hc'
          exact ⟨rfl, rfl⟩
termination_by structural _ d => d

theorem Arguments.unique : ∀ (d d' : Arguments) {r r' : List Lexeme},
    d.tail ++ r = d'.tail ++ r' → d = d' ∧ r = r'
  | .empty, d', r, r', h => by
      cases d' with
      | empty => exact ⟨rfl, by simpa [Arguments.tail] using h⟩
      | list first more comma =>
          rw [Arguments.tail, Arguments.tail, List.append_assoc] at h
          exact absurd h.symm (first.ne_cons (by simp [Lexeme.Opens]))
  | .list first more comma, d', r, r', h => by
      rw [Arguments.tail, List.append_assoc] at h
      cases d' with
      | empty => exact absurd h (first.ne_cons (by simp [Lexeme.Opens]))
      | list first' more' comma' =>
          rw [Arguments.tail, List.append_assoc] at h
          obtain ⟨rfl, hm⟩ := Operand.unique first first' h (.items _ _) (.items _ _)
          obtain ⟨rfl, rfl, rfl⟩ := Expressions.unique more more' hm
          exact ⟨rfl, rfl⟩
termination_by structural d => d

theorem Expressions.unique : ∀ (d d' : Expressions) {comma comma' : Bool} {r r' : List Lexeme},
    itemsTail comma d.items ++ r = itemsTail comma' d'.items ++ r' →
      d = d' ∧ comma = comma' ∧ r = r'
  | .done, d', comma, comma', r, r', h => by
      cases d' with
      | done => cases comma <;> cases comma' <;> simp_all [Expressions.items, itemsTail]
      | more first rest =>
          cases comma with
          | false => simp [Expressions.items, itemsTail] at h
          | true =>
              simp only [Expressions.items, itemsTail, if_pos, List.cons_append,
                List.append_assoc, List.cons.injEq, true_and] at h
              exact absurd h.symm (first.ne_cons (by simp [Lexeme.Opens]))
  | .more first rest, d', comma, comma', r, r', h => by
      cases d' with
      | done =>
          cases comma' with
          | false => simp [Expressions.items, itemsTail] at h
          | true =>
              simp only [Expressions.items, itemsTail, if_pos, List.cons_append,
                List.append_assoc, List.cons.injEq, true_and] at h
              exact absurd h (first.ne_cons (by simp [Lexeme.Opens]))
      | more first' rest' =>
          simp only [Expressions.items, itemsTail, List.cons_append, List.append_assoc,
            List.cons.injEq, true_and] at h
          obtain ⟨rfl, hm⟩ := Operand.unique first first' h (.items _ _) (.items _ _)
          obtain ⟨rfl, rfl, rfl⟩ := Expressions.unique rest rest' hm
          exact ⟨rfl, rfl, rfl⟩
termination_by structural d => d

theorem Block.unique : ∀ (d d' : Block) {r r' : List Lexeme},
    d.tail ++ r = d'.tail ++ r' → d = d' ∧ r = r'
  | .done, d', r, r', h => by
      cases d' with
      | done => exact ⟨rfl, by simpa [Block.tail] using h⟩
      | more first rest =>
          obtain ⟨x, l, hl, hx, -⟩ := first.begins
          simp only [Block.tail, hl, List.cons_append, List.cons.injEq] at h
          exact absurd h.1.symm hx
  | .more first rest, d', r, r', h => by
      cases d' with
      | done =>
          obtain ⟨x, l, hl, hx, -⟩ := first.begins
          simp only [Block.tail, hl, List.cons_append, List.cons.injEq] at h
          exact absurd h.1 hx
      | more first' rest' =>
          rw [Block.tail, Block.tail, List.append_assoc, List.append_assoc] at h
          obtain ⟨rfl, hr⟩ := Statement.unique first first' h rest.head_ne_else rest'.head_ne_else
          obtain ⟨rfl, rfl⟩ := Block.unique rest rest' hr
          exact ⟨rfl, rfl⟩
termination_by structural d => d

theorem Statement.unique : ∀ (d d' : Statement) {r r' : List Lexeme},
    d.tokens ++ r = d'.tokens ++ r' → r.head? ≠ some (.keyword "else") →
      r'.head? ≠ some (.keyword "else") → d = d' ∧ r = r'
  | .leave, d', r, r', h, _, _ => by
      have hw := Statement.word?_eq h
      cases d' with
      | leave => simpa [Statement.tokens] using h
      | give value =>
          simp only [Statement.tokens, List.cons_append, List.append_assoc, List.cons.injEq,
            true_and] at h
          exact absurd h.symm (value.ne_cons (by simp [Lexeme.Opens]))
      | _ => simp [Statement.word?] at hw
  | .give value, d', r, r', h, _, _ => by
      have hw := Statement.word?_eq h
      cases d' with
      | leave =>
          simp only [Statement.tokens, List.cons_append, List.append_assoc, List.cons.injEq,
            true_and] at h
          exact absurd h (value.ne_cons (by simp [Lexeme.Opens]))
      | give value' =>
          simp only [Statement.tokens, List.cons_append, List.append_assoc, List.cons.injEq,
            true_and] at h
          obtain ⟨rfl, hr⟩ := Operand.unique value value' h (.mark (by decide)) (.mark (by decide))
          exact ⟨rfl, by simpa using hr⟩
      | _ => simp [Statement.word?] at hw
  | .branch b, d', r, r', h, hr, hr' => by
      have hw := Statement.word?_eq h
      cases d' with
      | branch b' =>
          obtain ⟨rfl, rfl⟩ := Branch.unique b b' (List.cons.inj h).2 hr hr'
          exact ⟨rfl, rfl⟩
      | _ => simp [Statement.word?] at hw
  | .loop condition body, d', r, r', h, _, _ => by
      have hw := Statement.word?_eq h
      cases d' with
      | loop condition' body' =>
          simp only [Statement.tokens, List.cons_append, List.append_assoc, List.cons.injEq,
            true_and] at h
          obtain ⟨rfl, hb⟩ :=
            Operand.unique condition condition' h (.mark (by decide)) (.mark (by decide))
          obtain ⟨rfl, rfl⟩ := Block.unique body body' (List.cons.inj (List.cons.inj hb).2).2
          exact ⟨rfl, rfl⟩
      | _ => simp [Statement.word?] at hw
  | .assign target value, d', r, r', h, _, _ => by
      have hw := Statement.word?_eq h
      cases d' with
      | assign target' value' =>
          simp only [Statement.tokens, List.cons_append, List.append_assoc] at h
          obtain ⟨rfl, hv⟩ := Operand.unique target target' h .assign .assign
          obtain ⟨rfl, hr⟩ := Operand.unique value value' (List.cons.inj hv).2
            (.mark (by decide)) (.mark (by decide))
          exact ⟨rfl, by simpa using hr⟩
      | call e =>
          simp only [Statement.tokens, List.cons_append, List.append_assoc] at h
          obtain ⟨-, hr⟩ := Operand.unique target e h .assign (.mark (by decide))
          simp at hr
      | _ => simp [Statement.word?] at hw
  | .call e, d', r, r', h, _, _ => by
      have hw := Statement.word?_eq h
      cases d' with
      | assign target value =>
          simp only [Statement.tokens, List.cons_append, List.append_assoc] at h
          obtain ⟨-, hr⟩ := Operand.unique e target h (.mark (by decide)) .assign
          simp at hr
      | call e' =>
          simp only [Statement.tokens, List.append_assoc] at h
          obtain ⟨rfl, hr⟩ := Operand.unique e e' h (.mark (by decide)) (.mark (by decide))
          exact ⟨rfl, by simpa using hr⟩
      | _ => simp [Statement.word?] at hw
termination_by structural d => d

theorem Branch.unique : ∀ (d d' : Branch) {r r' : List Lexeme},
    d.tail ++ r = d'.tail ++ r' → r.head? ≠ some (.keyword "else") →
      r'.head? ≠ some (.keyword "else") → d = d' ∧ r = r'
  | .mk condition yes other, .mk condition' yes' other', r, r', h, hr, hr' => by
      simp only [Branch.tail, List.cons_append, List.append_assoc, List.cons.injEq, true_and] at h
      obtain ⟨rfl, hb⟩ :=
        Operand.unique condition condition' h (.mark (by decide)) (.mark (by decide))
      obtain ⟨rfl, ho⟩ := Block.unique yes yes' (List.cons.inj (List.cons.inj hb).2).2
      obtain ⟨rfl, rfl⟩ := Alternative.unique other other' ho hr hr'
      exact ⟨rfl, rfl⟩
termination_by structural d => d

theorem Alternative.unique : ∀ (d d' : Alternative) {r r' : List Lexeme},
    d.tokens ++ r = d'.tokens ++ r' → r.head? ≠ some (.keyword "else") →
      r'.head? ≠ some (.keyword "else") → d = d' ∧ r = r'
  | .none, d', r, r', h, hr, _ => by
      cases d' with
      | none => exact ⟨rfl, h⟩
      | _ =>
          change r = _ at h
          exact absurd (by rw [h]; rfl) hr
  | .block no, d', r, r', h, _, hr' => by
      cases d' with
      | none =>
          change _ = r' at h
          exact absurd (by rw [← h]; rfl) hr'
      | block no' =>
          simp only [Alternative.tokens, List.cons_append, List.cons.injEq, true_and] at h
          obtain ⟨rfl, rfl⟩ := Block.unique no no' h
          exact ⟨rfl, rfl⟩
      | branch no' => simp [Alternative.tokens] at h
  | .branch no, d', r, r', h, hr, hr' => by
      cases d' with
      | none =>
          change _ = r' at h
          exact absurd (by rw [← h]; rfl) hr'
      | block no' => simp [Alternative.tokens] at h
      | branch no' =>
          simp only [Alternative.tokens, List.cons_append, List.cons.injEq, true_and] at h
          obtain ⟨rfl, rfl⟩ := Branch.unique no no' h hr hr'
          exact ⟨rfl, rfl⟩
termination_by structural d => d

end

/-- **Routines have one derivation at most.** -/
theorem program_unique : ∀ {d d' : List Func}, programTokens d = programTokens d' → d = d'
  | [], [], _ => rfl
  | [], f :: d, h => by simp [Func.tokens] at h
  | f :: d, [], h => by simp [Func.tokens] at h
  | ⟨name, params, body⟩ :: d, ⟨name', params', body'⟩ :: d', h => by
      simp only [programTokens_cons, Func.tokens, List.cons_append, List.append_assoc,
        List.cons.injEq, Lexeme.identifier.injEq, true_and] at h
      obtain ⟨rfl, hp⟩ := h
      obtain ⟨rfl, hb⟩ := Params.unique hp
      obtain ⟨rfl, hd⟩ := Block.unique body body' (List.cons.inj hb).2
      rw [program_unique hd]

end Grammar
end ProtoScript
