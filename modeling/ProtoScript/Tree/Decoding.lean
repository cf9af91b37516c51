import ProtoScript.Json.Read
import ProtoScript.Tree
/-!
# Trees from JSON

A form is read from an object with one member, or from its name alone if it has
no parts; beside a name `null` is read as no parts.  Named parts are read from
an object, where an unknown member is passed over and a known one stands once,
or from an array that holds all of them in their order.  The mode of a
parameter may be missing in both, the second block of a conditional statement
only in an object.

Every bracket and brace that is read into takes one from a budget, so a tree is
read from at most `Program.levels` of them; what is passed over is not counted.

This is what the derived deserialisation of the interpreter's tree types accepts.
The mode of a parameter may be missing because `by_ref` has a default.
-/

namespace ProtoScript
namespace Json

/-- The text of a string. -/
def text? : Json → Option String
  | .str s => s
  | _ => none

/-- A truth value. -/
def bool? : Json → Option Bool
  | .bool b => some b
  | _ => none

/-- An integer of 64 bits. -/
def int64? : Json → Option Int64
  | .int n => Decimal.ofInt? n
  | _ => none

/-- The elements of an array. -/
def elements? : Json → Option (List Json)
  | .arr l => some l
  | _ => none

/-- The name of a form and what stands beside it. -/
def form? : Json → Option (String × Option Json)
  | .str s => s.map fun name => (name, none)
  | .obj [(some name, payload)] => some (name, some payload)
  | _ => none

/-- Whether what stands beside the name of a form is no part. -/
def isBare : Option Json → Bool
  | none | some .null => true
  | _ => false

/-- The values of the named parts of an object or array, in the order of the names.  A part that
is missing is `none`; `tail` parts may be missing at the end of an array. -/
def parts? (names : List String) (tail : Nat) : Json → Option (List (Option Json))
  | .obj members =>
      if members.all (fun m => m.1.isSome) ∧
          names.all (fun name => decide ((members.map Prod.fst).count (some name) ≤ 1)) then
        some (names.map fun name => members.lookup (some name))
      else none
  | .arr l =>
      if l.length ≤ names.length ∧ names.length ≤ l.length + tail then
        some (l.map some ++ List.replicate (names.length - l.length) none)
      else none
  | _ => none

/-- The value of a form without parts. -/
def bareName? (j : Json) : Option String :=
  match j.form? with
  | some (name, payload) => if isBare payload then some name else none
  | none => none

end Json

/-- The brackets and braces that a form without parts is read from: none or one. -/
def Json.readBare {α : Type} (ofName? : String → Option α) : Nat → Json → Option α
  | n, j =>
      match j, n with
      | .obj _, 0 => none
      | j, _ => j.bareName?.bind ofName?

/-- Reads a parameter. -/
def Param.ofJson? : Nat → Json → Option Param
  | 0, _ => none
  | _ + 1, j =>
      match j.parts? ["name", "by_ref"] 1 with
      | some [some name, none] => return ⟨← name.text?, false⟩
      | some [some name, some byRef] => return ⟨← name.text?, ← byRef.bool?⟩
      | _ => none

/-- Reads the elements of an array. -/
def Json.readList {α : Type} (read : Nat → Json → Option α) : Nat → Json → Option (List α)
  | 0, _ => none
  | n + 1, j => do (← j.elements?).mapM (read n)

mutual

/-- Reads an expression. -/
def Expr.ofJson? : Nat → Json → Option Expr
  | 0, j =>
      match j with
      | .str (some "Nil") => some .nil
      | .str (some "NewObject") => some .newObject
      | _ => none
  | n + 1, j =>
      match j.form? with
      | some ("Nil", payload) => if Json.isBare payload then some .nil else none
      | some ("NewObject", payload) => if Json.isBare payload then some .newObject else none
      | some ("Int", some j) => return .int (← j.int64?)
      | some ("Str", some j) => return .text (← j.text?)
      | some ("Bool", some j) => return .truth (← j.bool?)
      | some ("Var", some j) => return .variable (← j.text?)
      | some ("Field", some j) => do
          let (object, name) ← Expr.ofMember? "field" n j
          return .field object name
      | some ("Call", some j) => return .call (← Call.ofJson? n j)
      | some ("Binary", some j) => Expr.ofBinary? n j
      | some ("Unary", some j) => Expr.ofUnary? n j
      | some ("Lambda", some j) => return .lambda (← Routine.ofJson? n j)
      | _ => none

/-- Reads an expression and the name of a member of its value. -/
def Expr.ofMember? (key : String) : Nat → Json → Option (Expr × String)
  | 0, _ => none
  | n + 1, j =>
      match j.parts? ["object", key] 0 with
      | some [some object, some name] => return (← Expr.ofJson? n object, ← name.text?)
      | _ => none

/-- Reads an operator and its two operands. -/
def Expr.ofBinary? : Nat → Json → Option Expr
  | 0, _ => none
  | n + 1, j =>
      match j.parts? ["op", "left", "right"] 0 with
      | some [some op, some left, some right] =>
          return .binary (← Json.readBare BinaryOperator.ofName? n op)
            (← Expr.ofJson? n left) (← Expr.ofJson? n right)
      | _ => none

/-- Reads an operator and its operand. -/
def Expr.ofUnary? : Nat → Json → Option Expr
  | 0, _ => none
  | n + 1, j =>
      match j.parts? ["op", "operand"] 0 with
      | some [some op, some operand] =>
          return .unary (← Json.readBare UnaryOperator.ofName? n op) (← Expr.ofJson? n operand)
      | _ => none

/-- Reads a callee. -/
def Callee.ofJson? : Nat → Json → Option Callee
  | 0, _ => none
  | n + 1, j =>
      match j.form? with
      | some ("Name", some j) => return .name (← j.text?)
      | some ("Method", some j) => do
          let (object, name) ← Expr.ofMember? "method" n j
          return .method object name
      | _ => none

/-- Reads a call. -/
def Call.ofJson? : Nat → Json → Option Call
  | 0, _ => none
  | n + 1, j =>
      match j.parts? ["callee", "args"] 0 with
      | some [some callee, some args] => do
          let callee ← Callee.ofJson? n callee
          return .mk callee (← Expr.ofJsonList? n args)
      | _ => none

/-- Reads a list of expressions. -/
def Expr.ofJsonList? : Nat → Json → Option (List Expr)
  | 0, _ => none
  | n + 1, j => do (← j.elements?).mapM (Expr.ofJson? n)

/-- Reads a target. -/
def Target.ofJson? : Nat → Json → Option Target
  | 0, _ => none
  | n + 1, j =>
      match j.form? with
      | some ("Var", some j) => return .variable (← j.text?)
      | some ("Field", some j) => do
          let (object, name) ← Expr.ofMember? "field" n j
          return .field object name
      | _ => none

/-- Reads a statement. -/
def Stmt.ofJson? : Nat → Json → Option Stmt
  | 0, _ => none
  | n + 1, j =>
      match j.form? with
      | some ("Assign", some j) => Stmt.ofAssign? n j
      | some ("Call", some j) => return .call (← Call.ofJson? n j)
      | some ("If", some j) => Stmt.ofBranch? n j
      | some ("While", some j) => Stmt.ofLoop? n j
      | some ("Return", some .null) => some (.return none)
      | some ("Return", some j) => return .return (some (← Expr.ofJson? n j))
      | _ => none

/-- Reads an assignment. -/
def Stmt.ofAssign? : Nat → Json → Option Stmt
  | 0, _ => none
  | n + 1, j =>
      match j.parts? ["target", "value"] 0 with
      | some [some target, some value] =>
          return .assign (← Target.ofJson? n target) (← Expr.ofJson? n value)
      | _ => none

/-- Reads a conditional statement; an array holds both its blocks. -/
def Stmt.ofBranch? : Nat → Json → Option Stmt
  | 0, _ => none
  | n + 1, j =>
      match j.parts? ["condition", "then_branch", "else_branch"] 0 with
      | some [some condition, some yes, none] =>
          return .branch (← Expr.ofJson? n condition) (← Stmt.ofJsonList? n yes) none
      | some [some condition, some yes, some .null] =>
          return .branch (← Expr.ofJson? n condition) (← Stmt.ofJsonList? n yes) none
      | some [some condition, some yes, some no] =>
          return .branch (← Expr.ofJson? n condition) (← Stmt.ofJsonList? n yes)
            (some (← Stmt.ofJsonList? n no))
      | _ => none

/-- Reads a loop. -/
def Stmt.ofLoop? : Nat → Json → Option Stmt
  | 0, _ => none
  | n + 1, j =>
      match j.parts? ["condition", "body"] 0 with
      | some [some condition, some body] =>
          return .loop (← Expr.ofJson? n condition) (← Stmt.ofJsonList? n body)
      | _ => none

/-- Reads a list of statements. -/
def Stmt.ofJsonList? : Nat → Json → Option (List Stmt)
  | 0, _ => none
  | n + 1, j => do (← j.elements?).mapM (Stmt.ofJson? n)

/-- Reads a routine. -/
def Routine.ofJson? : Nat → Json → Option Routine
  | 0, _ => none
  | n + 1, j =>
      match j.parts? ["name", "params", "body"] 0 with
      | some [some name, some params, some body] =>
          return .mk (← name.text?) (← Json.readList Param.ofJson? n params)
            (← Stmt.ofJsonList? n body)
      | _ => none

end

namespace Program

/-- How many brackets and braces inside each other a program is read from at most. -/
def levels : Nat := 127

/-- Reads a program from its JSON form. -/
def ofJson? (j : Json) : Option Program :=
  match j.parts? ["functions"] 0 with
  | some [some routines] => return ⟨← Json.readList Routine.ofJson? (levels - 1) routines⟩
  | _ => none

/-- The program that a JSON text denotes. -/
def ofJsonText? (text : String) : Option Program := (Json.read? text).bind ofJson?

end Program
end ProtoScript
