import ProtoScript.Tree
/-!
# Outlines

An outline shows the statements of a routine without their expressions: one
entry for a statement, with what is called or computed where that is one word,
and the outlines of the blocks and lambdas inside it.  The kind of a statement is
the `label` that the interpreter reports for it.
-/

namespace ProtoScript

/-- The outline of a statement. -/
inductive Outline where
  /-- Only the kind of the statement. -/
  | plain (label : String)
  /-- The kind, and the call or operator that it uses. -/
  | detailed (label detail : String)
  /-- An assignment of a lambda: its arity and the outline of its body. -/
  | lambda (label : String) (arity : Nat) (body : List Outline)
  /-- A conditional statement and the outlines of its blocks. -/
  | branch (label : String) (yes : List Outline) (no : Option (List Outline))
  /-- A loop and the outline of its block. -/
  | loop (label : String) (body : List Outline)

namespace Call

/-- The callee and the number of arguments. -/
def outline (c : Call) : String := s!"{c.callee.text}/{c.arguments.length}"

end Call

mutual

/-- The outline of a statement. -/
def Stmt.outline : Stmt → Outline
  | .assign t v => v.outlineAssigned (Stmt.assign t v).label
  | .call c => .detailed (Stmt.call c).label c.outline
  | .branch c y n => .branch (Stmt.branch c y n).label (Stmt.outlineList y) (Stmt.outlineOption n)
  | .loop c b => .loop (Stmt.loop c b).label (Stmt.outlineList b)
  | .return v => .plain (Stmt.return v).label

/-- The outline of an assignment of an expression. -/
def Expr.outlineAssigned (label : String) : Expr → Outline
  | .call c => .detailed label c.outline
  | .binary op _ _ => .detailed label op.symbol
  | .unary op _ => .detailed label op.symbol
  | .lambda r => r.outlineAssigned label
  | _ => .plain label

/-- The outline of an assignment of a lambda. -/
def Routine.outlineAssigned (label : String) : Routine → Outline
  | .mk _ params body => .lambda label params.length (Stmt.outlineList body)

/-- The outlines of statements. -/
def Stmt.outlineList : List Stmt → List Outline
  | [] => []
  | s :: l => s.outline :: Stmt.outlineList l

/-- The outlines of the statements of a block that may be missing. -/
def Stmt.outlineOption : Option (List Stmt) → Option (List Outline)
  | none => none
  | some l => some (Stmt.outlineList l)

end

/-- The outlines of the statements of a routine. -/
def Routine.outline (r : Routine) : List Outline := Stmt.outlineList r.body

end ProtoScript
