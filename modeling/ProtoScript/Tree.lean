import ProtoScript.Tree.Operator
/-!
# Program trees

A program is a list of routines.  A routine has parameters, each taken by value
or by reference, and a body of statements; a lambda is a routine inside an
expression.  A call names a routine or a variable, or a member of an object.

The types are those of section B1 of the interpreter's specification: `Program`,
`FuncDef` (here `Routine`), `Param`, `Stmt`, `AssignTarget` (`Target`), `Expr`,
`Call` and `Callee`.
-/

namespace ProtoScript

/-- A parameter of a routine. -/
structure Param where
  /-- Its name. -/
  name : String
  /-- Whether it stands for the caller's variable. -/
  byRef : Bool
deriving DecidableEq, Repr

mutual

/-- An expression. -/
inductive Expr where
  /-- An integer literal. -/
  | int (value : Int64)
  /-- A string literal. -/
  | text (value : String)
  /-- A truth value. -/
  | truth (value : Bool)
  /-- The absent value. -/
  | nil
  /-- A variable, or a routine by its name. -/
  | variable (name : String)
  /-- A field of an object. -/
  | field (object : Expr) (name : String)
  /-- The value of a call. -/
  | call (call : Call)
  /-- An operator between two operands. -/
  | binary (op : BinaryOperator) (left right : Expr)
  /-- An operator before an operand. -/
  | unary (op : UnaryOperator) (operand : Expr)
  /-- A routine without a name. -/
  | lambda (routine : Routine)
  /-- A new object. -/
  | newObject

/-- What is called. -/
inductive Callee where
  /-- A routine or a variable that holds one. -/
  | name (name : String)
  /-- A member of an object. -/
  | method (object : Expr) (name : String)

/-- A call. -/
inductive Call where
  /-- Calls the callee with the arguments. -/
  | mk (callee : Callee) (arguments : List Expr)

/-- What an assignment writes to. -/
inductive Target where
  /-- A variable. -/
  | variable (name : String)
  /-- A field of an object. -/
  | field (object : Expr) (name : String)

/-- A statement. -/
inductive Stmt where
  /-- Gives a variable or a field a value. -/
  | assign (target : Target) (value : Expr)
  /-- A call whose value is not used. -/
  | call (call : Call)
  /-- One of two blocks, by a condition. -/
  | branch (condition : Expr) (yes : List Stmt) (no : Option (List Stmt))
  /-- A block as long as a condition holds. -/
  | loop (condition : Expr) (body : List Stmt)
  /-- The end of the activation, with a value or without. -/
  | return (value : Option Expr)

/-- A routine. -/
inductive Routine where
  /-- The routine with a name, parameters and a body. -/
  | mk (name : String) (params : List Param) (body : List Stmt)

end

instance : Inhabited Expr := ⟨.nil⟩

namespace Call

/-- What is called. -/
def callee : Call → Callee
  | mk callee _ => callee

/-- The arguments of a call. -/
def arguments : Call → List Expr
  | mk _ arguments => arguments

end Call

namespace Routine

/-- The name that lambdas have (`LAMBDA_NAME`). -/
def lambdaName : String := "lambda"

/-- The name of a routine. -/
def name : Routine → String
  | mk name _ _ => name

/-- The parameters of a routine. -/
def params : Routine → List Param
  | mk _ params _ => params

/-- The body of a routine. -/
def body : Routine → List Stmt
  | mk _ _ body => body

/-- The number of parameters. -/
def arity (r : Routine) : Nat := r.params.length

instance : Inhabited Routine := ⟨.mk "" [] []⟩

end Routine

/-- A program. -/
structure Program where
  /-- Its routines, in the order of their definitions. -/
  routines : List Routine

namespace Callee

/-- The written form of a callee, as an outline shows it. -/
def text : Callee → String
  | .name called => called
  | .method _ called => "." ++ called

end Callee

namespace Stmt

/-- The kind of a statement in one word. -/
def label : Stmt → String
  | assign .. => "assign"
  | call .. => "call"
  | branch .. => "if"
  | loop .. => "while"
  | .return .. => "return"

end Stmt
end ProtoScript
