import ProtoScript.Diagnostic
import ProtoScript.Value
/-!
# Faults

What can go wrong while a program is loaded and run, by its cause.  The kind of
the failure, the message and the advice are functions of the cause.

The interpreter writes out the message where it fails, and chooses the kind by the
constructor of `BrewinError`: `name_error`, `type_error` or `fault` (sections 7
and B5 of its specification).  `Fault` has one form for each of these places, or
for several that say the same.
-/

namespace ProtoScript

/-- The routines of the language itself. -/
inductive Builtin where
  /-- Prints its arguments in one line. -/
  | print
  /-- Reads a line that is an integer. -/
  | readInteger
  /-- Reads a line. -/
  | readText
deriving DecidableEq, Repr

namespace Builtin

/-- The name by which a routine of the language is called. -/
def name : Builtin → String
  | print => "print"
  | readInteger => "inputi"
  | readText => "inputs"

/-- The routine of the language with a given name. -/
def ofName? (name : String) : Option Builtin :=
  [print, readInteger, readText].find? fun b => b.name == name

end Builtin

/-- The statements that have a condition. -/
inductive Conditional where
  /-- The conditional statement. -/
  | branch
  /-- The loop. -/
  | loop
deriving DecidableEq, Repr

namespace Conditional

/-- The word that starts the statement. -/
def word : Conditional → String
  | branch => "if"
  | loop => "while"

end Conditional

/-- Why a program cannot be loaded or run on. -/
inductive Fault where
  /-- Two routines have one name and arity. -/
  | redefined (name : String) (arity : Nat)
  /-- There is no routine to start with. -/
  | noMain
  /-- A name is neither a variable nor a routine. -/
  | undefinedVariable (name : String)
  /-- Nothing of this name takes this many arguments. -/
  | undefinedFunction (name : String) (arity : Nat)
  /-- A name stands for several routines. -/
  | ambiguous (name : String)
  /-- An object and its prototypes have no such method. -/
  | noMethod (name : String)
  /-- An object and its prototypes have no such field. -/
  | noField (name : String)
  /-- A value is called that is no routine. -/
  | notCallable (name : String) (type : ValueType)
  /-- A member of the absent value is used. -/
  | memberOfNil (name : String)
  /-- A member of a value is used that is no object. -/
  | memberOf (name : String) (type : ValueType)
  /-- An object would become its own prototype. -/
  | prototypeCycle
  /-- A prototype is neither an object nor absent. -/
  | prototypeType (type : ValueType)
  /-- The operands are of different types. -/
  | operandTypes (op : BinaryOperator)
  /-- The first operand is of a type that the operator does not take. -/
  | operatorType (op : BinaryOperator) (type : ValueType)
  /-- The only operand is of a type that the operator does not take. -/
  | operandType (op : UnaryOperator) (type : ValueType)
  /-- A condition is neither a truth value nor an integer. -/
  | conditionType (statement : Conditional) (type : ValueType)
  /-- A divisor is zero. -/
  | divisionByZero
  /-- A result does not fit into 64 bits. -/
  | overflow (symbol : String)
  /-- A line is asked for with more than one prompt. -/
  | manyPrompts (builtin : Builtin)
  /-- A line is asked for and there is none. -/
  | endOfInput (builtin : Builtin)
  /-- The line that was read is no integer of 64 bits. -/
  | notAnInteger (line : String)
deriving DecidableEq, Repr

namespace Fault

/-- The kind of failure that a fault is. -/
def kind : Fault → FailureKind
  | redefined .. | noMain | undefinedVariable _ | undefinedFunction .. | ambiguous _ | noMethod _
  | noField _ => .name
  | notCallable .. | memberOf .. | prototypeCycle | prototypeType _ | operandTypes _
  | operatorType .. | operandType .. | conditionType .. | manyPrompts _ | notAnInteger _ => .type
  | memberOfNil _ | divisionByZero | overflow _ | endOfInput _ => .fault

/-- The message of a fault. -/
def message : Fault → String
  | redefined name arity => s!"Function {name} taking {arity} params is defined more than once"
  | noMain => "No main() function was found"
  | undefinedVariable name => s!"Variable/Function {name} not found"
  | undefinedFunction name arity => s!"Function {name} taking {arity} params not found"
  | ambiguous name => s!"Ambiguous Function call for {name}"
  | noMethod name => s!"Method {name} not found"
  | noField name => s!"Field {name} not found"
  | notCallable name type => s!"{name} is not a callable function (it is a {type.text})"
  | memberOfNil name => s!"Cannot access member {name} of nil"
  | memberOf name type => s!"Cannot access member {name} of a {type.text} value"
  | prototypeCycle => "Prototype assignment would create a cycle"
  | prototypeType type => s!"Prototype must be an object or nil, got {type.text}"
  | operandTypes op => s!"Incompatible types for {op.symbol} operation"
  | operatorType op type => s!"Incompatible operator {op.symbol} for type {type.text}"
  | operandType op type => s!"Incompatible type {type.text} for {op.symbol} operation"
  | conditionType statement type =>
      s!"Incompatible type {type.text} for {statement.word} condition"
  | divisionByZero => "Division by zero"
  | overflow symbol => s!"Integer overflow in {symbol} operation"
  | manyPrompts builtin => s!"No {builtin.name}() function that takes > 1 parameter"
  | endOfInput builtin => s!"{builtin.name}() reached end of input"
  | notAnInteger line => "inputi() expected an integer, got \"" ++ line ++ "\""

/-- The advice that comes with a fault. -/
def help? : Fault → Option String
  | noMain => some "add a `func main() \x7b ... \x7d` taking no parameters"
  | _ => none

end Fault

/-- An activation of a routine, as a diagnostic names it. -/
structure Frame where
  /-- The name by which the routine was called. -/
  label : String
  /-- The number of its parameters. -/
  arity : Nat
deriving DecidableEq, Repr

namespace Frame

/-- The written form. -/
def text (f : Frame) : String := s!"{f.label}/{f.arity}"

end Frame

/-- A fault and the activations that are told with it. -/
structure Failure where
  /-- What went wrong. -/
  fault : Fault
  /-- The activations, the outermost first.  None are told as long as the failure has not left the
  activation in which the fault was found. -/
  frames : List Frame
deriving DecidableEq, Repr

namespace Failure

/-- The failure with the activations that are running, unless others are told already
(`attach_frames`). -/
def attach (f : Failure) (running : List Frame) : Failure :=
  if f.frames = [] then { f with frames := running } else f

@[simp] theorem fault_attach (f : Failure) (running : List Frame) :
    (f.attach running).fault = f.fault := by
  unfold attach
  split <;> rfl

@[simp] theorem attach_nil (fault : Fault) (running : List Frame) :
    attach ⟨fault, []⟩ running = ⟨fault, running⟩ := rfl

theorem frames_attach_ne_nil (f : Failure) {running : List Frame} (h : running ≠ []) :
    (f.attach running).frames ≠ [] := by
  unfold attach
  split
  · exact h
  · assumption

theorem attach_of_ne_nil {f : Failure} (h : f.frames ≠ []) (running : List Frame) :
    f.attach running = f := if_neg h

/-- The diagnostic of a failure. -/
def diagnostic (f : Failure) : Diagnostic where
  kind := f.fault.kind
  message := f.fault.message
  frames := f.frames.map Frame.text
  help := f.fault.help?

end Failure
end ProtoScript
