import ProtoScript.Fault
/-!
# Operations on values

Before an operator between two operands is applied, an integer beside a truth
value becomes a truth value under a logical operator, and a truth value beside
an integer becomes an integer under an arithmetic one.  `==` and `!=` then take
any two values.  Every other operator takes two integers or two truth values,
which it treats as the integers 0 and 1 unless it is `&&` or `||`; `+` also
takes two texts.  A type that an operator never takes on its left is reported
before a difference of the types.

Arithmetic is exact: the result is computed without bound and refused if it does
not fit into 64 bits.  A quotient is rounded toward zero, and the remainder has
the sign of the dividend.

These are `binary`, `unary` and `condition` of the interpreter (section 4.4 of its
specification).  `takes` and `apply` are its table `handler_for` with the choice
that `binary` makes between the two type errors.
-/

namespace ProtoScript
namespace Operation

/-- The integer that a truth value counts as. -/
def ofTruth (b : Bool) : Int64 := if b then 1 else 0

/-- Whether an integer counts as true. -/
def toTruth (n : Int64) : Bool := n != 0

/-- The operands as an operator takes them. -/
def coerce (op : BinaryOperator) : Value → Value → Value × Value
  | .int n, .truth b =>
      if op.isLogical then (.truth (toTruth n), .truth b) else (.int n, .int (ofTruth b))
  | .truth b, .int n =>
      if op.isLogical then (.truth b, .truth (toTruth n)) else (.int (ofTruth b), .int n)
  | v, w => (v, w)

/-- The integer of 64 bits with the given value, if it fits. -/
def exact (symbol : String) (n : Int) : Except Fault Value :=
  match Decimal.ofInt? n with
  | some i => .ok (.int i)
  | none => .error (.overflow symbol)

/-- The quotient rounded toward zero (`int_div`). -/
def quotient (a b : Int64) : Except Fault Value :=
  if b = 0 then .error .divisionByZero else exact "/" (a.toInt.tdiv b.toInt)

/-- The remainder of the quotient rounded toward zero, refused where the quotient does not fit
(`int_rem`). -/
def remainder (a b : Int64) : Except Fault Value :=
  if b = 0 then .error .divisionByZero
  else if (Decimal.ofInt? (a.toInt.tdiv b.toInt)).isNone then .error (.overflow "%")
  else exact "%" (a.toInt.tmod b.toInt)

/-- An operator other than `==` and `!=` on integers. -/
def integers (op : BinaryOperator) (a b : Int64) : Except Fault Value :=
  match op with
  | .add => exact "+" (a.toInt + b.toInt)
  | .sub => exact "-" (a.toInt - b.toInt)
  | .mul => exact "*" (a.toInt * b.toInt)
  | .div => quotient a b
  | .mod => remainder a b
  | .lt => .ok (.truth (decide (a.toInt < b.toInt)))
  | .le => .ok (.truth (decide (a.toInt ≤ b.toInt)))
  | .gt => .ok (.truth (decide (b.toInt < a.toInt)))
  | .ge => .ok (.truth (decide (b.toInt ≤ a.toInt)))
  | .and => .ok (.truth (toTruth a && toTruth b))
  | .or => .ok (.truth (toTruth a || toTruth b))
  | .eq => .ok (.truth (decide (a = b)))
  | .ne => .ok (.truth (decide (a ≠ b)))

/-- An operator other than `==` and `!=` on truth values. -/
def truths (op : BinaryOperator) (a b : Bool) : Except Fault Value :=
  integers op (ofTruth a) (ofTruth b)

/-- Whether an operator takes values of a type. -/
def takes (op : BinaryOperator) : ValueType → Bool
  | .int | .bool => true
  | .string => op == .add || op == .eq || op == .ne
  | .nil | .function | .closure | .object => op == .eq || op == .ne

/-- An operator other than `==` and `!=` on operands that need no coercion. -/
def apply (op : BinaryOperator) : Value → Value → Except Fault Value
  | .int a, .int b => integers op a b
  | .truth a, .truth b => truths op a b
  | .text a, .text b =>
      if op = .add then .ok (.text (a ++ b)) else .error (.operatorType op .string)
  | v, w =>
      if takes op v.type = true ∧ v.type ≠ w.type then .error (.operandTypes op)
      else .error (.operatorType op v.type)

/-- The value of an operator between two operands. -/
def binary (op : BinaryOperator) (left right : Value) : Except Fault Value :=
  let (v, w) := coerce op left right
  match op with
  | .eq => .ok (.truth (v.same w))
  | .ne => .ok (.truth (!v.same w))
  | op => apply op v w

/-- The value of an operator before an operand. -/
def unary (op : UnaryOperator) (operand : Value) : Except Fault Value :=
  match op, operand with
  | .neg, .int n => exact "-" (-n.toInt)
  | .not, .truth b => .ok (.truth (!b))
  | .not, .int n => .ok (.truth (!toTruth n))
  | op, v => .error (.operandType op v.type)

/-- Whether a condition holds. -/
def condition (statement : Conditional) : Value → Except Fault Bool
  | .truth b => .ok b
  | .int n => .ok (toTruth n)
  | v => .error (.conditionType statement v.type)

/-! ### Operators give literal values -/

theorem literal_of_exact {symbol : String} {n : Int} {u : Value} (h : exact symbol n = .ok u) :
    u.Literal := by
  unfold exact at h
  split at h <;> cases h
  trivial

theorem literal_of_integers {op : BinaryOperator} {a b : Int64} {u : Value}
    (h : integers op a b = .ok u) : u.Literal := by
  cases op with
  | add => exact literal_of_exact h
  | sub => exact literal_of_exact h
  | mul => exact literal_of_exact h
  | div =>
      simp only [integers, quotient] at h
      split at h
      · cases h
      · exact literal_of_exact h
  | mod =>
      simp only [integers, remainder] at h
      split at h
      · cases h
      · split at h
        · cases h
        · exact literal_of_exact h
  | _ => cases h; trivial

theorem literal_of_apply {op : BinaryOperator} {v w u : Value} (h : apply op v w = .ok u) :
    u.Literal := by
  unfold apply at h
  split at h
  · exact literal_of_integers h
  · exact literal_of_integers h
  · split at h <;> cases h
    trivial
  · split at h <;> cases h

/-- **An operator between two operands gives a literal value.** -/
theorem literal_of_binary {op : BinaryOperator} {v w u : Value} (h : binary op v w = .ok u) :
    u.Literal := by
  unfold binary at h
  cases op with
  | eq => cases h; trivial
  | ne => cases h; trivial
  | _ => exact literal_of_apply h

/-- **An operator before an operand gives a literal value.** -/
theorem literal_of_unary {op : UnaryOperator} {v u : Value} (h : unary op v = .ok u) :
    u.Literal := by
  unfold unary at h
  split at h
  · exact literal_of_exact h
  · cases h; trivial
  · cases h; trivial
  · cases h

theorem plain_of_binary {op : BinaryOperator} {v w u : Value} (h : binary op v w = .ok u) :
    u.Plain :=
  (literal_of_binary h).plain

theorem plain_of_unary {op : UnaryOperator} {v u : Value} (h : unary op v = .ok u) : u.Plain :=
  (literal_of_unary h).plain

end Operation
end ProtoScript
