/-!
# Operators

Thirteen operators join two expressions and two stand before one.  Each has one
symbol; `-` is a symbol of both kinds.  The two-sided operators bind in five
levels, from `||`, the loosest, to `*`, `/` and `%`, the tightest.

The logical operators, which compare or combine truth values, read an integer
beside a truth value as a truth value; the arithmetic ones read a truth value
beside an integer as an integer.

These are `BinaryOp` and `UnaryOp` of the interpreter, with `symbol` and
`from_symbol`.  Its parser has no table of levels but one function for each,
from `parse_or` to `parse_multiplicative`.
-/

namespace ProtoScript

/-- The operators between two operands. -/
inductive BinaryOperator where
  /-- Sum, or two texts in a row. -/
  | add
  /-- Difference. -/
  | sub
  /-- Product. -/
  | mul
  /-- Quotient, rounded toward zero. -/
  | div
  /-- Remainder of that quotient. -/
  | mod
  /-- Equal. -/
  | eq
  /-- Different. -/
  | ne
  /-- Less. -/
  | lt
  /-- Less or equal. -/
  | le
  /-- Greater. -/
  | gt
  /-- Greater or equal. -/
  | ge
  /-- Both. -/
  | and
  /-- At least one. -/
  | or
deriving DecidableEq, Repr

/-- The operators before one operand. -/
inductive UnaryOperator where
  /-- The negative of an integer. -/
  | neg
  /-- The opposite of a truth value. -/
  | not
deriving DecidableEq, Repr

/-- How tightly an operator between two operands binds. -/
inductive Precedence where
  /-- The level of `||`. -/
  | disjunction
  /-- The level of `&&`. -/
  | conjunction
  /-- The level of the comparisons. -/
  | comparison
  /-- The level of `+` and `-`. -/
  | sum
  /-- The level of `*`, `/` and `%`. -/
  | product
deriving DecidableEq, Repr

namespace Precedence

/-- The next tighter level. -/
def tighter? : Precedence → Option Precedence
  | .disjunction => some .conjunction
  | .conjunction => some .comparison
  | .comparison => some .sum
  | .sum => some .product
  | .product => none

end Precedence

namespace BinaryOperator

/-- All operators between two operands. -/
def all : List BinaryOperator :=
  [.add, .sub, .mul, .div, .mod, .eq, .ne, .lt, .le, .gt, .ge, .and, .or]

/-- The symbol of an operator. -/
def symbol : BinaryOperator → String
  | .add => "+"
  | .sub => "-"
  | .mul => "*"
  | .div => "/"
  | .mod => "%"
  | .eq => "=="
  | .ne => "!="
  | .lt => "<"
  | .le => "<="
  | .gt => ">"
  | .ge => ">="
  | .and => "&&"
  | .or => "||"

/-- The name of an operator in the tree's JSON form. -/
def name : BinaryOperator → String
  | .add => "Add"
  | .sub => "Sub"
  | .mul => "Mul"
  | .div => "Div"
  | .mod => "Mod"
  | .eq => "Eq"
  | .ne => "Ne"
  | .lt => "Lt"
  | .le => "Le"
  | .gt => "Gt"
  | .ge => "Ge"
  | .and => "And"
  | .or => "Or"

/-- The level at which an operator binds. -/
def precedence : BinaryOperator → Precedence
  | .or => .disjunction
  | .and => .conjunction
  | .eq | .ne | .lt | .le | .gt | .ge => .comparison
  | .add | .sub => .sum
  | .mul | .div | .mod => .product

/-- Whether an operator reads an integer beside a truth value as a truth value
(`is_boolean_context`). -/
def isLogical : BinaryOperator → Bool
  | .eq | .ne | .lt | .le | .gt | .ge | .and | .or => true
  | .add | .sub | .mul | .div | .mod => false

/-- Whether an operator reads a truth value beside an integer as an integer (`is_arithmetic`). -/
def isArithmetic (op : BinaryOperator) : Bool := !op.isLogical

/-- The operator with a given symbol. -/
def ofSymbol? (symbol : String) : Option BinaryOperator :=
  all.find? fun op => op.symbol == symbol

/-- The operator with a given name. -/
def ofName? (name : String) : Option BinaryOperator :=
  all.find? fun op => op.name == name

/-- **The symbol determines the operator.** -/
theorem ofSymbol?_symbol (op : BinaryOperator) : ofSymbol? op.symbol = some op := by
  cases op <;> decide

theorem symbol_of_ofSymbol? {s : String} {op : BinaryOperator} (h : ofSymbol? s = some op) :
    op.symbol = s := by
  simpa using List.find?_some h

theorem ofName?_name (op : BinaryOperator) : ofName? op.name = some op := by
  cases op <;> decide

end BinaryOperator

namespace UnaryOperator

/-- All operators before one operand. -/
def all : List UnaryOperator := [.neg, .not]

/-- The symbol of an operator. -/
def symbol : UnaryOperator → String
  | .neg => "-"
  | .not => "!"

/-- The name of an operator in the tree's JSON form. -/
def name : UnaryOperator → String
  | .neg => "Neg"
  | .not => "Not"

/-- The operator with a given symbol. -/
def ofSymbol? (symbol : String) : Option UnaryOperator :=
  all.find? fun op => op.symbol == symbol

/-- The operator with a given name. -/
def ofName? (name : String) : Option UnaryOperator :=
  all.find? fun op => op.name == name

theorem ofSymbol?_symbol (op : UnaryOperator) : ofSymbol? op.symbol = some op := by
  cases op <;> decide

theorem ofName?_name (op : UnaryOperator) : ofName? op.name = some op := by
  cases op <;> decide

end UnaryOperator
end ProtoScript
