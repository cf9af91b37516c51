import ProtoScript.Heap
import ProtoScript.Text.Decimal
import ProtoScript.Tree.Equality
/-!
# Values

A value is an integer, a truth value, a text, nothing, a function, a closure or
an object.  The first five hold no address: they can be stored twice without
being shared.  An object is its address, so all copies of it are one object.  A
closure holds the address of the scope that it captured; what happens to that
scope when the closure is copied is the business of `ProtoScript.Store.Copy`.

These are `Value`, `Closure` and `Type` of the interpreter (section 3 of its
specification).  Its shared references are addresses here, so that two of them
are the same cell exactly if they are equal.
-/

namespace ProtoScript

/-- A lambda with the bindings that it captured. -/
structure Closure where
  /-- The number of the creation; copies keep it. -/
  id : Nat
  /-- The lambda. -/
  routine : Routine
  /-- The captured bindings. -/
  captured : Address .scope
  /-- Whether copies share the captured bindings. -/
  byRef : Bool
deriving DecidableEq

/-- A value of a running program. -/
inductive Value where
  /-- An integer of 64 bits. -/
  | int (n : Int64)
  /-- A truth value. -/
  | truth (b : Bool)
  /-- A text. -/
  | text (s : String)
  /-- The absent value. -/
  | nil
  /-- A routine of the program.  The edition tells apart routines that were defined anew. -/
  | function (edition : Nat) (routine : Routine)
  /-- A lambda with what it captured. -/
  | closure (c : Closure)
  /-- An object. -/
  | object (address : Address .object)

instance : Inhabited Value := ⟨.nil⟩

/-- The types of values. -/
inductive ValueType where
  /-- Integers. -/
  | int
  /-- Truth values. -/
  | bool
  /-- Texts. -/
  | string
  /-- The absent value. -/
  | nil
  /-- Routines of the program. -/
  | function
  /-- Lambdas. -/
  | closure
  /-- Objects. -/
  | object
deriving DecidableEq, Repr

namespace ValueType

/-- The name of a type. -/
def text : ValueType → String
  | int => "int"
  | bool => "bool"
  | string => "string"
  | nil => "nil"
  | function => "function"
  | closure => "closure"
  | object => "object"

end ValueType

namespace Value

/-- The type of a value. -/
def type : Value → ValueType
  | int _ => .int
  | truth _ => .bool
  | text _ => .string
  | nil => .nil
  | function .. => .function
  | closure _ => .closure
  | object _ => .object

/-- The number of parameters of a value that can be called (`callable_arity`). -/
def arity? : Value → Option Nat
  | function _ r => some r.arity
  | closure c => some c.routine.arity
  | _ => none

/-- A value that holds neither an address nor a routine. -/
def Literal : Value → Prop
  | int _ | truth _ | text _ | nil => True
  | _ => False

/-- A value that holds no address. -/
def Plain : Value → Prop
  | closure _ | object _ => False
  | _ => True

/-- The text that a program prints for a value (`printable`). -/
def printed : Value → String
  | int n => Decimal.text n
  | truth true => "true"
  | truth false => "false"
  | text s => s
  | nil => ""
  | function _ r => s!"<function {r.name}/{r.arity}>"
  | closure _ => "<closure>"
  | object _ => "<object>"

/-- Whether two values are equal: as integers, truth values and texts; by definition as functions;
by creation as closures; by address as objects (`same_as`). -/
def same : Value → Value → Bool
  | int a, int b => a == b
  | truth a, truth b => a == b
  | text a, text b => a == b
  | nil, nil => true
  | function e r, function f s => e == f && decide (r = s)
  | closure c, closure d => c.id == d.id
  | object a, object b => decide (a = b)
  | _, _ => false

theorem Literal.plain {v : Value} (h : v.Literal) : v.Plain := by
  cases v <;> trivial

theorem Plain.ne_closure {v : Value} (h : v.Plain) (c : Closure) : v ≠ closure c := by
  rintro rfl
  exact h

theorem same_comm (v w : Value) : v.same w = w.same v := by
  cases v <;> cases w <;> try rfl
  case int.int => exact BEq.comm
  case truth.truth => exact BEq.comm
  case text.text => exact BEq.comm
  case function.function => simp only [same, BEq.comm, eq_comm]
  case closure.closure => exact BEq.comm
  case object.object => simp only [same, eq_comm]

end Value
end ProtoScript
