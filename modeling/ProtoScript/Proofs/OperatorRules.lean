import Mathlib.Tactic.Linarith
import ProtoScript.Operation
/-!
# The rules of the operators

What an operator gives is laid down by rules (`Operation.Gives`) about its operands
as they are taken: an integer beside a truth value becomes a truth value, or the
truth value an integer (`Operation.Coerces`).  The rules speak of exact integers and
of propositions, and they know nothing of 64 bits but the range, so a quotient and a
remainder are told by what they have to satisfy (`Operation.Divides`).

The operators follow the rules, and the rules leave them no choice but the wording of
a fault (`binary_follows_rules`).
-/

namespace ProtoScript

/-- Two values are the same thing: closures if they are of one creation, and all other values if
they are equal.  An object is its address, and a function its definition. -/
def Value.Identical : Value → Value → Prop
  | .closure c, .closure d => c.id = d.id
  | v, w => v = w

theorem Value.same_iff (v w : Value) : v.same w = true ↔ v.Identical w := by
  cases v <;> cases w <;> simp [same, Identical]

namespace Operation

/-! ### Operands -/

/-- The operators that take an integer beside a truth value as a truth value. -/
def logical : List BinaryOperator := [.eq, .ne, .lt, .le, .gt, .ge, .and, .or]

/-- The operators that take a truth value beside an integer as an integer. -/
def arithmetic : List BinaryOperator := [.add, .sub, .mul, .div, .mod]

/-- The operands `v` and `w` of an operator are taken as `v'` and `w'`. -/
inductive Coerces (op : BinaryOperator) : (v w v' w' : Value) → Prop where
  /-- The integer becomes a truth value: zero is false. -/
  | leftTruth (n : Int64) (b : Bool) (h : op ∈ logical) :
      Coerces op (.int n) (.truth b) (.truth (decide (n.toInt ≠ 0))) (.truth b)
  | rightTruth (b : Bool) (n : Int64) (h : op ∈ logical) :
      Coerces op (.truth b) (.int n) (.truth b) (.truth (decide (n.toInt ≠ 0)))
  /-- The truth value becomes an integer: false is zero, and true is one. -/
  | leftInt (b : Bool) (n i : Int64) (h : op ∈ arithmetic) (hi : i.toInt = b.toInt) :
      Coerces op (.truth b) (.int n) (.int i) (.int n)
  | rightInt (n : Int64) (b : Bool) (i : Int64) (h : op ∈ arithmetic) (hi : i.toInt = b.toInt) :
      Coerces op (.int n) (.truth b) (.int n) (.int i)
  /-- Nothing else changes. -/
  | none (v w : Value) (h : ∀ n b, ¬(v = .int n ∧ w = .truth b) ∧ ¬(v = .truth b ∧ w = .int n)) :
      Coerces op v w v w

/-- Two integers, or two truth values that count as zero and one, with their numbers. -/
inductive Numbers : Value → Value → Int → Int → Prop where
  /-- Two integers. -/
  | ints (m n : Int64) : Numbers (.int m) (.int n) m.toInt n.toInt
  /-- Two truth values. -/
  | truths (b c : Bool) : Numbers (.truth b) (.truth c) b.toInt c.toInt

/-- Two operands that an operator other than `==` and `!=` takes. -/
def Takes (op : BinaryOperator) (v w : Value) : Prop :=
  (∃ a b, Numbers v w a b) ∨ op = .add ∧ ∃ a b, v = .text a ∧ w = .text b

/-! ### Rules -/

/-- The quotient rounded toward zero and its remainder. -/
structure Divides (a b q r : Int) : Prop where
  whole : q * b + r = a
  less : r.natAbs < b.natAbs
  sign : r = 0 ∨ r.sign = a.sign

/-- What is computed of two numbers. -/
def number? : BinaryOperator → Option (Int → Int → Int)
  | .add => some fun a b => a + b
  | .sub => some fun a b => a - b
  | .mul => some fun a b => a * b
  | _ => none

/-- What is asked about two numbers. -/
def question? : BinaryOperator → Option (Int → Int → Prop)
  | .lt => some fun a b => a < b
  | .le => some fun a b => a ≤ b
  | .gt => some fun a b => a > b
  | .ge => some fun a b => a ≥ b
  | .and => some fun a b => a ≠ 0 ∧ b ≠ 0
  | .or => some fun a b => a ≠ 0 ∨ b ≠ 0
  | _ => none

/-- An operator gives the result on two numbers. -/
inductive Computes : BinaryOperator → Int → Int → Except Fault Value → Prop where
  /-- A number is exact. -/
  | number {op : BinaryOperator} {a b : Int} {f : Int → Int → Int} {i : Int64}
      (ho : number? op = some f) (h : i.toInt = f a b) : Computes op a b (.ok (.int i))
  /-- A number out of range is refused. -/
  | overflow {op : BinaryOperator} {a b : Int} {f : Int → Int → Int} {fault : Fault}
      (ho : number? op = some f) (h : ¬(-2 ^ 63 ≤ f a b ∧ f a b < 2 ^ 63))
      (hf : fault.kind = .fault) : Computes op a b (.error fault)
  /-- The quotient, if it is in range. -/
  | quotient {a b r : Int} {q : Int64} (hm : ¬(a = -2 ^ 63 ∧ b = -1))
      (h : Divides a b q.toInt r) : Computes .div a b (.ok (.int q))
  /-- The remainder, if the quotient is in range. -/
  | remainder {a b q : Int} {r : Int64} (hm : ¬(a = -2 ^ 63 ∧ b = -1))
      (h : Divides a b q r.toInt) : Computes .mod a b (.ok (.int r))
  /-- There is no quotient by zero, and that of the least number by `-1` is out of range. -/
  | undivided {op : BinaryOperator} {a b : Int} {fault : Fault} (ho : op = .div ∨ op = .mod)
      (h : b = 0 ∨ a = -2 ^ 63 ∧ b = -1) (hf : fault.kind = .fault) : Computes op a b (.error fault)
  /-- A question has an answer. -/
  | answer {op : BinaryOperator} {a b : Int} {P : Int → Int → Prop} {t : Bool}
      (ho : question? op = some P) (h : t = true ↔ P a b) : Computes op a b (.ok (.truth t))

/-- An operator gives the result on operands as they are taken. -/
inductive Gives : BinaryOperator → Value → Value → Except Fault Value → Prop where
  /-- `==` asks whether the operands are the same thing. -/
  | equal {v w : Value} {t : Bool} (h : t = true ↔ v.Identical w) :
      Gives .eq v w (.ok (.truth t))
  /-- `!=` asks whether they are not. -/
  | different {v w : Value} {t : Bool} (h : t = true ↔ ¬v.Identical w) :
      Gives .ne v w (.ok (.truth t))
  /-- Two numbers are computed with. -/
  | numbers {op : BinaryOperator} {v w : Value} {a b : Int} {x : Except Fault Value}
      (hn : Numbers v w a b) (h : Computes op a b x) : Gives op v w x
  /-- Two texts are joined. -/
  | joined (a b : String) : Gives .add (.text a) (.text b) (.ok (.text (a ++ b)))
  /-- Everything else is refused. -/
  | refused {op : BinaryOperator} {v w : Value} {fault : Fault} (he : op ≠ .eq) (hne : op ≠ .ne)
      (h : ¬Takes op v w) (hf : fault.kind = .type) : Gives op v w (.error fault)

variable {op : BinaryOperator} {v w : Value} {a b : Int}

/-! ### Integers of 64 bits -/

theorem toInt_ofTruth (b : Bool) : (ofTruth b).toInt = b.toInt := by
  cases b <;> rfl

theorem toTruth_eq (n : Int64) : toTruth n = decide (n.toInt ≠ 0) := by
  rw [toTruth, Bool.eq_iff_iff, decide_eq_true_iff, bne_iff_ne, ne_eq, ne_eq, ← Int64.toInt_inj]
  rfl

theorem inRange_iff (n : Int) : Decimal.InRange n ↔ -2 ^ 63 ≤ n ∧ n < 2 ^ 63 := by
  have hmin : Int64.minValue.toInt = -2 ^ 63 := by decide
  have hmax : Int64.maxValue.toInt = 2 ^ 63 - 1 := by decide
  rw [Decimal.InRange, hmin, hmax]
  omega

theorem inRange_toInt (i : Int64) : -2 ^ 63 ≤ i.toInt ∧ i.toInt < 2 ^ 63 :=
  (inRange_iff _).1 ⟨Int64.minValue_le_toInt i, Int64.toInt_le i⟩

/-- A number in range is given as it is, and another one is refused. -/
theorem exact_cases (symbol : String) (n : Int) :
    (∃ i : Int64, i.toInt = n ∧ exact symbol n = .ok (.int i)) ∨
      ¬(-2 ^ 63 ≤ n ∧ n < 2 ^ 63) ∧ exact symbol n = .error (.overflow symbol) := by
  cases hi : Decimal.ofInt? n with
  | some i => exact .inl ⟨i, Decimal.ofInt?_eq_some_iff.1 hi, by rw [exact, hi]⟩
  | none =>
      refine .inr ⟨fun hn => ?_, by rw [exact, hi]⟩
      rw [Decimal.ofInt?, if_pos ((inRange_iff n).2 hn)] at hi
      cases hi

/-! ### Division -/

/-- **The quotient rounded toward zero divides**, with the remainder that has the sign of the
dividend. -/
theorem divides_tdiv (hb : b ≠ 0) : Divides a b (a.tdiv b) (a.tmod b) where
  whole := Int.tdiv_mul_add_tmod a b
  less := by
    rw [Int.natAbs_tmod]
    exact Nat.mod_lt _ (Int.natAbs_pos.2 hb)
  sign := by
    rcases eq_or_ne (a.tmod b) 0 with hr | hr
    · exact .inl hr
    · refine .inr ?_
      rcases Int.le_total 0 a with ha | ha
      · have hpos : 0 < a.tmod b := lt_of_le_of_ne (Int.tmod_nonneg b ha) hr.symm
        have hne : a ≠ 0 := by
          rintro rfl
          exact hr (Int.zero_tmod b)
        rw [Int.sign_eq_one_of_pos hpos, Int.sign_eq_one_of_pos (lt_of_le_of_ne ha hne.symm)]
      · have hneg : a.tmod b < 0 := by
          have h := Int.tmod_nonneg b (Int.neg_nonneg_of_nonpos ha)
          rw [Int.neg_tmod] at h
          omega
        have hne : a ≠ 0 := by
          rintro rfl
          exact hr (Int.zero_tmod b)
        rw [Int.sign_eq_neg_one_of_neg hneg, Int.sign_eq_neg_one_of_neg (lt_of_le_of_ne ha hne)]

/-- Nothing is divided by zero. -/
theorem Divides.ne_zero {q r : Int} (h : Divides a b q r) : b ≠ 0 := by
  rintro rfl
  exact absurd h.less (Nat.not_lt_zero _)

/-- There is one quotient and one remainder. -/
theorem Divides.unique {q r q' r' : Int} (h : Divides a b q r) (h' : Divides a b q' r') :
    q = q' ∧ r = r' := by
  have hr : r' - r = 0 := by
    refine Int.eq_zero_of_dvd_of_natAbs_lt_natAbs (d := b) ⟨q - q', ?_⟩ ?_
    · have := h.whole.trans h'.whole.symm
      linarith
    · -- Both remainders are on the side of the dividend.
      have hless := h.less
      have hless' := h'.less
      have hsign := h.sign
      have hsign' := h'.sign
      rcases lt_trichotomy a 0 with ha | rfl | ha
      · rw [Int.sign_eq_neg_one_of_neg ha, Int.sign_eq_neg_one_iff_neg] at hsign hsign'
        omega
      · rw [Int.sign_zero, Int.sign_eq_zero_iff_zero] at hsign hsign'
        omega
      · rw [Int.sign_eq_one_of_pos ha, Int.sign_eq_one_iff_pos] at hsign hsign'
        omega
  have heq : r = r' := by omega
  subst heq
  have hq : q * b = q' * b := by
    have := h.whole.trans h'.whole.symm
    omega
  exact ⟨Int.eq_of_mul_eq_mul_right h.ne_zero hq, rfl⟩

/-- Of two numbers in range the quotient is out of range only for the least number and `-1`. -/
theorem inRange_tdiv_iff (m n : Int64) (hn : n.toInt ≠ 0) :
    (-2 ^ 63 ≤ m.toInt.tdiv n.toInt ∧ m.toInt.tdiv n.toInt < 2 ^ 63)
      ↔ ¬(m.toInt = -2 ^ 63 ∧ n.toInt = -1) := by
  have hm := inRange_toInt m
  constructor
  · rintro h ⟨hm', hn'⟩
    rw [hm', hn'] at h
    exact absurd h (by decide)
  · intro h
    rcases eq_or_ne n.toInt (-1) with hn₁ | hn₁
    · rw [hn₁, Int.tdiv_neg, Int.tdiv_one]
      omega
    rcases eq_or_ne n.toInt 1 with hn₂ | hn₂
    · rw [hn₂, Int.tdiv_one]
      exact hm
    · have hhalf : (m.toInt.tdiv n.toInt).natAbs ≤ m.toInt.natAbs / 2 := by
        rw [Int.natAbs_tdiv]
        exact Nat.div_le_div_left (by omega) (by decide)
      omega

/-! ### The operators follow the rules -/

theorem coerces_coerce (op : BinaryOperator) (v w : Value) :
    Coerces op v w (coerce op v w).1 (coerce op v w).2 := by
  have hlogical : op.isLogical = true → op ∈ logical := by cases op <;> decide
  have harithmetic : op.isLogical = false → op ∈ arithmetic := by cases op <;> decide
  cases v <;> cases w
  case int.truth n b =>
    rw [coerce]
    cases hop : op.isLogical with
    | true =>
        rw [if_pos rfl, toTruth_eq]
        exact .leftTruth n b (hlogical hop)
    | false => exact .rightInt n b _ (harithmetic hop) (toInt_ofTruth b)
  case truth.int b n =>
    rw [coerce]
    cases hop : op.isLogical with
    | true =>
        rw [if_pos rfl, toTruth_eq]
        exact .rightTruth b n (hlogical hop)
    | false => exact .leftInt b n _ (harithmetic hop) (toInt_ofTruth b)
  all_goals exact .none _ _ fun _ _ => ⟨by rintro ⟨⟨⟩, ⟨⟩⟩, by rintro ⟨⟨⟩, ⟨⟩⟩⟩

/-- What is computed without bound is given as it is, or refused. -/
theorem computes_exact {f : Int → Int → Int} (ho : number? op = some f) (symbol : String) :
    Computes op a b (exact symbol (f a b)) := by
  obtain ⟨i, hi, h⟩ | ⟨hrange, h⟩ := exact_cases symbol (f a b)
  · rw [h]
    exact .number ho hi
  · rw [h]
    exact .overflow ho hrange rfl

theorem computes_quotient (m n : Int64) : Computes .div m.toInt n.toInt (quotient m n) := by
  rw [quotient]
  split
  · next h => exact .undivided (.inl rfl) (.inl (by rw [h]; rfl)) rfl
  next h =>
  have hzero : n.toInt ≠ 0 := fun hz => h (Int64.toInt_inj.1 hz)
  obtain ⟨q, hq, hx⟩ | ⟨hrange, hx⟩ := exact_cases "/" (m.toInt.tdiv n.toInt)
  · rw [hx]
    exact .quotient ((inRange_tdiv_iff m n hzero).1 (hq ▸ inRange_toInt q))
      (hq ▸ divides_tdiv hzero)
  · rw [hx]
    rw [inRange_tdiv_iff m n hzero, not_not] at hrange
    exact .undivided (.inl rfl) (.inr hrange) rfl

theorem computes_remainder (m n : Int64) : Computes .mod m.toInt n.toInt (remainder m n) := by
  rw [remainder]
  split
  · next h => exact .undivided (.inr rfl) (.inl (by rw [h]; rfl)) rfl
  next h =>
  have hzero : n.toInt ≠ 0 := fun hz => h (Int64.toInt_inj.1 hz)
  cases hq : Decimal.ofInt? (m.toInt.tdiv n.toInt) with
  | none =>
      refine .undivided (.inr rfl) (.inr (not_not.1 fun hm => ?_)) rfl
      rw [Decimal.ofInt?, if_pos ((inRange_iff _).2 ((inRange_tdiv_iff m n hzero).2 hm))] at hq
      cases hq
  | some q =>
      rw [Decimal.ofInt?_eq_some_iff] at hq
      have hm := (inRange_tdiv_iff m n hzero).1 (hq ▸ inRange_toInt q)
      have hd : Divides m.toInt n.toInt _ _ := divides_tdiv hzero
      obtain ⟨r, hr, hx⟩ | ⟨hrange, -⟩ := exact_cases "%" (m.toInt.tmod n.toInt)
      · rw [if_neg (by simp), hx]
        exact .remainder hm (hr ▸ hd)
      · -- A remainder is less than the divisor, which is in range.
        have hless := hd.less
        have hn := inRange_toInt n
        exact absurd (by omega) hrange

example : remainder Int64.minValue (-1) = .error (.overflow "%") := by rfl

theorem computes_integers (he : op ≠ .eq) (hne : op ≠ .ne) (m n : Int64) :
    Computes op m.toInt n.toInt (integers op m n) := by
  cases op with
  | eq => exact absurd rfl he
  | ne => exact absurd rfl hne
  | add => exact computes_exact rfl "+"
  | sub => exact computes_exact rfl "-"
  | mul => exact computes_exact rfl "*"
  | div => exact computes_quotient m n
  | mod => exact computes_remainder m n
  | and =>
      refine .answer rfl ?_
      rw [toTruth_eq, toTruth_eq, Bool.and_eq_true, decide_eq_true_iff, decide_eq_true_iff]
  | or =>
      refine .answer rfl ?_
      rw [toTruth_eq, toTruth_eq, Bool.or_eq_true, decide_eq_true_iff, decide_eq_true_iff]
  | _ => exact .answer rfl decide_eq_true_iff

theorem gives_apply (he : op ≠ .eq) (hne : op ≠ .ne) (v w : Value) :
    Gives op v w (apply op v w) := by
  unfold apply
  split
  · next m n => exact .numbers (.ints m n) (computes_integers he hne m n)
  · next b c =>
      refine .numbers (.truths b c) ?_
      rw [← toInt_ofTruth, ← toInt_ofTruth]
      exact computes_integers he hne _ _
  · next a b =>
      split
      · next h =>
          subst h
          exact .joined a b
      · next h =>
          refine .refused he hne ?_ rfl
          rintro (⟨_, _, ⟨⟩⟩ | ⟨hop, -⟩)
          exact h hop
  · next hints htruths htexts =>
      have htakes : ¬Takes op v w := by
        rintro (⟨_, _, hn⟩ | ⟨-, a, b, rfl, rfl⟩)
        · cases hn with
          | ints m n => exact hints m n rfl rfl
          | truths b c => exact htruths b c rfl rfl
        · exact htexts a b rfl rfl
      split <;> exact .refused he hne htakes rfl

/-- **The operators follow the rules.** -/
theorem gives_binary (op : BinaryOperator) (v w : Value) :
    Gives op (coerce op v w).1 (coerce op v w).2 (binary op v w) := by
  rw [binary]
  generalize coerce op v w = p
  obtain ⟨v', w'⟩ := p
  cases op with
  | eq => exact .equal (v'.same_iff w')
  | ne => exact .different (by rw [← v'.same_iff w', Bool.not_eq_true, Bool.not_eq_true'])
  | _ => exact gives_apply (by decide) (by decide) v' w'

/-! ### The rules leave no choice -/

theorem Coerces.unique {v' w' v'' w'' : Value} (h : Coerces op v w v' w')
    (h' : Coerces op v w v'' w'') : v' = v'' ∧ w' = w'' := by
  have hdisjoint : op ∈ logical → op ∉ arithmetic := by cases op <;> decide
  cases h with
  | leftTruth n b h =>
      cases h' with
      | leftTruth => exact ⟨rfl, rfl⟩
      | rightInt _ _ _ h' => exact absurd h' (hdisjoint h)
      | none _ _ h' => exact absurd ⟨rfl, rfl⟩ (h' n b).1
  | rightTruth b n h =>
      cases h' with
      | rightTruth => exact ⟨rfl, rfl⟩
      | leftInt _ _ _ h' => exact absurd h' (hdisjoint h)
      | none _ _ h' => exact absurd ⟨rfl, rfl⟩ (h' n b).2
  | leftInt b n i h hi =>
      cases h' with
      | rightTruth _ _ h' => exact absurd h (hdisjoint h')
      | leftInt _ _ j _ hj => exact ⟨congrArg _ (Int64.toInt_inj.1 (hi.trans hj.symm)), rfl⟩
      | none _ _ h' => exact absurd ⟨rfl, rfl⟩ (h' n b).2
  | rightInt n b i h hi =>
      cases h' with
      | leftTruth _ _ h' => exact absurd h (hdisjoint h')
      | rightInt _ _ j _ hj => exact ⟨rfl, congrArg _ (Int64.toInt_inj.1 (hi.trans hj.symm))⟩
      | none _ _ h' => exact absurd ⟨rfl, rfl⟩ (h' n b).1
  | none _ _ h =>
      cases h' with
      | leftTruth n b => exact absurd ⟨rfl, rfl⟩ (h n b).1
      | rightTruth b n => exact absurd ⟨rfl, rfl⟩ (h n b).2
      | leftInt b n => exact absurd ⟨rfl, rfl⟩ (h n b).2
      | rightInt n b => exact absurd ⟨rfl, rfl⟩ (h n b).1
      | none => exact ⟨rfl, rfl⟩

theorem Numbers.unique {a' b' : Int} (h : Numbers v w a b) (h' : Numbers v w a' b') :
    a = a' ∧ b = b' := by
  cases h <;> cases h' <;> exact ⟨rfl, rfl⟩

theorem Computes.unique {x y : Except Fault Value} (h : Computes op a b x)
    (h' : Computes op a b y) : x.mapError Fault.kind = y.mapError Fault.kind := by
  have hnumber : ∀ {f}, number? op = some f → ¬(op = .div ∨ op = .mod) ∧ question? op = none := by
    intro f
    cases op <;> simp [number?, question?]
  have hquestion : ∀ {P}, question? op = some P → ¬(op = .div ∨ op = .mod) := by
    intro P
    cases op <;> simp [question?]
  cases h with
  | @number op a b f i ho h =>
      cases h' with
      | number ho' h' =>
          cases ho.symm.trans ho'
          rw [Int64.toInt_inj.1 (h.trans h'.symm)]
      | overflow ho' h' =>
          cases ho.symm.trans ho'
          exact absurd (h ▸ inRange_toInt i) h'
      | undivided ho' => exact absurd ho' (hnumber ho).1
      | answer ho' => cases (hnumber ho).2.symm.trans ho'
      | _ => cases ho
  | overflow ho h hf =>
      cases h' with
      | @number _ _ _ _ i ho' h' =>
          cases ho.symm.trans ho'
          exact absurd (h' ▸ inRange_toInt i) h
      | overflow _ _ hf' => simp only [Except.mapError, hf, hf']
      | undivided ho' => exact absurd ho' (hnumber ho).1
      | answer ho' => cases (hnumber ho).2.symm.trans ho'
      | _ => cases ho
  | quotient hm h =>
      cases h' with
      | quotient _ h' => rw [Int64.toInt_inj.1 (h.unique h').1]
      | undivided _ h' => exact absurd h' (not_or.2 ⟨h.ne_zero, hm⟩)
      | number ho | overflow ho | answer ho => cases ho
  | remainder hm h =>
      cases h' with
      | remainder _ h' => rw [Int64.toInt_inj.1 (h.unique h').2]
      | undivided _ h' => exact absurd h' (not_or.2 ⟨h.ne_zero, hm⟩)
      | number ho | overflow ho | answer ho => cases ho
  | undivided ho h hf =>
      cases h' with
      | number ho' | overflow ho' => exact absurd ho (hnumber ho').1
      | quotient hm h' | remainder hm h' => exact absurd h (not_or.2 ⟨h'.ne_zero, hm⟩)
      | undivided _ _ hf' => simp only [Except.mapError, hf, hf']
      | answer ho' => exact absurd ho (hquestion ho')
  | answer ho h =>
      cases h' with
      | number ho' | overflow ho' => cases (hnumber ho').2.symm.trans ho
      | undivided ho' => exact absurd ho' (hquestion ho)
      | answer ho' h' =>
          cases ho.symm.trans ho'
          rw [Bool.eq_iff_iff.2 (h.trans h'.symm)]
      | _ => cases ho

/-- Two numbers are no operands of `==` and `!=`, which look at the values. -/
theorem Computes.ne_equality {x : Except Fault Value} (h : Computes op a b x) :
    op ≠ .eq ∧ op ≠ .ne := by
  cases h with
  | number ho | overflow ho | answer ho => constructor <;> rintro rfl <;> cases ho
  | undivided ho => obtain rfl | rfl := ho <;> decide
  | _ => decide

theorem Gives.unique {x y : Except Fault Value} (h : Gives op v w x) (h' : Gives op v w y) :
    x.mapError Fault.kind = y.mapError Fault.kind := by
  cases h with
  | equal h =>
      cases h' with
      | equal h' => rw [Bool.eq_iff_iff.2 (h.trans h'.symm)]
      | numbers _ hx => exact absurd rfl hx.ne_equality.1
      | refused he => exact absurd rfl he
  | different h =>
      cases h' with
      | different h' => rw [Bool.eq_iff_iff.2 (h.trans h'.symm)]
      | numbers _ hx => exact absurd rfl hx.ne_equality.2
      | refused _ hne => exact absurd rfl hne
  | numbers hn h =>
      cases h' with
      | equal => exact absurd rfl h.ne_equality.1
      | different => exact absurd rfl h.ne_equality.2
      | numbers hn' h' =>
          obtain ⟨rfl, rfl⟩ := hn.unique hn'
          exact h.unique h'
      | joined => cases hn
      | refused _ _ htakes => exact absurd (.inl ⟨_, _, hn⟩) htakes
  | joined a b =>
      cases h' with
      | numbers hn => cases hn
      | joined => rfl
      | refused _ _ htakes => exact absurd (.inr ⟨rfl, a, b, rfl, rfl⟩) htakes
  | refused he hne htakes hf =>
      cases h' with
      | equal => exact absurd rfl he
      | different => exact absurd rfl hne
      | numbers hn => exact absurd (.inl ⟨_, _, hn⟩) htakes
      | joined a b => exact absurd (.inr ⟨rfl, a, b, rfl, rfl⟩) htakes
      | refused _ _ _ hf' => simp only [Except.mapError, hf, hf']

/-- **An operator gives what the rules say about its operands as they are taken**, and the rules say
it in full: nothing else follows from them, but for the wording of a fault.  `==` and `!=` never
fail, are each other's opposite and do not depend on the order of the operands. -/
theorem binary_follows_rules (op : BinaryOperator) (v w : Value) :
    (∃ v' w', Coerces op v w v' w' ∧ Gives op v' w' (binary op v w)) ∧
    (∀ v' w' x, Coerces op v w v' w' → Gives op v' w' x →
      x.mapError Fault.kind = (binary op v w).mapError Fault.kind) ∧
    ∃ t, binary .eq v w = .ok (.truth t) ∧ binary .eq w v = .ok (.truth t) ∧
      binary .ne v w = .ok (.truth !t) ∧ binary .ne w v = .ok (.truth !t) := by
  have hcoerces := coerces_coerce op v w
  have hgives := gives_binary op v w
  refine ⟨⟨_, _, hcoerces, hgives⟩, fun v' w' x hc hx => ?_, ?_⟩
  · obtain ⟨rfl, rfl⟩ := hc.unique hcoerces
    exact hx.unique hgives
  · have hcomm : (coerce .eq w v).1.same (coerce .eq w v).2
        = (coerce .eq v w).1.same (coerce .eq v w).2 := by
      rw [Value.same_comm]
      cases v <;> cases w <;> rfl
    exact ⟨_, rfl, congrArg (fun t => Except.ok (Value.truth t)) hcomm, rfl,
      congrArg (fun t => Except.ok (Value.truth !t)) hcomm⟩

end Operation
end ProtoScript
