import ProtoScript.Json.Write
import ProtoScript.Tree
/-!
# Trees as JSON

A form of a type with several forms is an object with one member, named for the
form; a form without parts is its name alone.  Parts with names stand in an
object, in a fixed order, and what may be missing is `null` when it is.

This is the form that the derived serialisation of the interpreter's tree types
writes, and the names are those of its variants and fields (section B1 of its
specification).
-/

namespace ProtoScript

/-- A parameter as JSON. -/
def Param.toJson (p : Param) : Json :=
  .record [("name", .text p.name), ("by_ref", .bool p.byRef)]

mutual

/-- An expression as JSON. -/
def Expr.toJson : Expr → Json
  | .int value => .tagged "Int" (.int64 value)
  | .text value => .tagged "Str" (.text value)
  | .truth value => .tagged "Bool" (.bool value)
  | .nil => .text "Nil"
  | .variable name => .tagged "Var" (.text name)
  | .field object name =>
      .tagged "Field" (.record [("object", object.toJson), ("field", .text name)])
  | .call call => .tagged "Call" call.toJson
  | .binary op left right =>
      .tagged "Binary"
        (.record [("op", .text op.name), ("left", left.toJson), ("right", right.toJson)])
  | .unary op operand =>
      .tagged "Unary" (.record [("op", .text op.name), ("operand", operand.toJson)])
  | .lambda routine => .tagged "Lambda" routine.toJson
  | .newObject => .text "NewObject"

/-- The expressions of a list as JSON. -/
def Expr.toJsonList : List Expr → List Json
  | [] => []
  | e :: l => e.toJson :: Expr.toJsonList l

/-- An expression that may be missing as JSON. -/
def Expr.toJsonOption : Option Expr → Json
  | none => .null
  | some e => e.toJson

/-- A callee as JSON. -/
def Callee.toJson : Callee → Json
  | .name name => .tagged "Name" (.text name)
  | .method object name =>
      .tagged "Method" (.record [("object", object.toJson), ("method", .text name)])

/-- A call as JSON. -/
def Call.toJson : Call → Json
  | .mk callee arguments =>
      .record [("callee", callee.toJson), ("args", .arr (Expr.toJsonList arguments))]

/-- A target as JSON. -/
def Target.toJson : Target → Json
  | .variable name => .tagged "Var" (.text name)
  | .field object name =>
      .tagged "Field" (.record [("object", object.toJson), ("field", .text name)])

/-- A statement as JSON. -/
def Stmt.toJson : Stmt → Json
  | .assign target value =>
      .tagged "Assign" (.record [("target", target.toJson), ("value", value.toJson)])
  | .call call => .tagged "Call" call.toJson
  | .branch condition yes no =>
      .tagged "If" (.record [("condition", condition.toJson),
        ("then_branch", .arr (Stmt.toJsonList yes)), ("else_branch", Stmt.toJsonOption no)])
  | .loop condition body =>
      .tagged "While"
        (.record [("condition", condition.toJson), ("body", .arr (Stmt.toJsonList body))])
  | .return value => .tagged "Return" (Expr.toJsonOption value)

/-- The statements of a list as JSON. -/
def Stmt.toJsonList : List Stmt → List Json
  | [] => []
  | s :: l => s.toJson :: Stmt.toJsonList l

/-- A block that may be missing as JSON. -/
def Stmt.toJsonOption : Option (List Stmt) → Json
  | none => .null
  | some l => .arr (Stmt.toJsonList l)

/-- A routine as JSON. -/
def Routine.toJson : Routine → Json
  | .mk name params body =>
      .record [("name", .text name), ("params", .arr (params.map Param.toJson)),
        ("body", .arr (Stmt.toJsonList body))]

end

/-- A program as JSON. -/
def Program.toJson (p : Program) : Json :=
  .record [("functions", .arr (p.routines.map Routine.toJson))]

end ProtoScript
