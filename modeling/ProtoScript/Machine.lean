import ProtoScript.Console
import ProtoScript.Environment
import ProtoScript.Event
import ProtoScript.Operation
import ProtoScript.RoutineTable
import ProtoScript.Store.Prototype
import ProtoScript.Text.Blank
/-!
# The machine

A machine is the whole state of a running program.  A step of the program takes
a machine and gives a result and a machine, or halts and gives a machine: what
was printed, read and stored before the end stays.

`raise` halts with a fault alone.  The activations that run are attached on the
way out, by the first activation that is left (`Halt.attach`).

The machine is the interpreter's `Interpreter`, whose `call_stack` is `frames` here
with the innermost activation first, and the cells that its references lead to.
The steps are those of its functions that evaluate nothing, among them
`read_variable`, `resolve`, `read_field`, `assign_field` and `make_closure`
(sections 4.2, 4.4 and B3 of the specification).
-/

namespace ProtoScript

/-- The state of a running program. -/
structure Machine where
  /-- The cells. -/
  store : Store
  /-- The scopes of the activation that runs. -/
  environment : Environment
  /-- The routines of the program. -/
  routines : RoutineTable
  /-- The activations that run, the innermost first. -/
  frames : List Frame
  /-- The lines printed and to be read. -/
  console : Console
  /-- The number of closures created so far, in all programs that this machine ran. -/
  closures : Nat
  /-- What the program that runs reported, the latest first. -/
  events : List Event

/-- Why a program stops before its end. -/
inductive Halt where
  /-- It fails. -/
  | failed (failure : Failure)
  /-- It goes on beyond the bound that was set. -/
  | unfinished
deriving DecidableEq, Repr

/-- A halt with the activations that are running, the outermost first, if it is a failure without
any. -/
def Halt.attach (running : List Frame) : Halt → Halt
  | failed f => failed (f.attach running)
  | unfinished => unfinished

/-- A step of a program with a result. -/
abbrev Eval := EStateM Halt Machine

namespace Machine

/-- A machine before its first program. -/
def initial (console : Console) : Machine where
  store := (∅ : Store).newScope ∅
  environment := .single (∅ : Store).scopes.fresh
  routines := ∅
  frames := []
  console := console
  closures := 0
  events := []

instance : Inhabited Machine := ⟨initial {}⟩

/-- Adds to what the program reported. -/
def report (m : Machine) (e : Event) : Machine := { m with events := e :: m.events }

/-- Replaces the cells. -/
def withStore (m : Machine) (f : Store → Store) : Machine := { m with store := f m.store }

/-- The machine inside a new scope. -/
def enterBlock (m : Machine) : Machine :=
  let environment := m.environment.enter m.store.scopes.fresh
  ({ m with store := m.store.newScope ∅, environment }).report (.entered environment.depth)

/-- The machine around the innermost scope. -/
def leaveBlock (m : Machine) : Machine :=
  let environment := m.environment.leave
  ({ m with environment }).report (.left environment.depth)

/-- The machine inside an activation. -/
def enterActivation (m : Machine) (frame : Frame) (environment : Environment) : Machine :=
  ({ m with environment, frames := frame :: m.frames }).report
    (.called frame (m.frames.length + 1))

/-- The machine in the environment `environment`, after the innermost activation. -/
def leaveActivation (m : Machine) (environment : Environment) : Machine :=
  { m with environment, frames := m.frames.tail }

end Machine

/-- What can be called. -/
inductive Callable where
  /-- A routine of the program. -/
  | function (routine : Routine)
  /-- A lambda with what it captured. -/
  | closure (c : Closure)

namespace Callable

/-- The routine that is run. -/
def routine : Callable → Routine
  | function r => r
  | closure c => c.routine

/-- What a value is when it is called with so many arguments by the given name
(`callable_from_value`). -/
def ofValue (name : String) (count : Nat) : Value → Except Fault Callable
  | .function _ r =>
      if r.arity = count then .ok (.function r) else .error (.undefinedFunction name count)
  | .closure c =>
      if c.routine.arity = count then .ok (.closure c)
      else .error (.undefinedFunction name count)
  | v => .error (.notCallable name v.type)

end Callable

namespace Eval

variable {α : Type}

/-- Halts with a fault. -/
def raise (fault : Fault) : Eval α := fun m => .error (.failed ⟨fault, []⟩) m

/-- Halts at the bound that was set. -/
def stop : Eval α := fun m => .error .unfinished m

/-- The result of an operation, or its fault. -/
def lift : Except Fault α → Eval α
  | .ok a => pure a
  | .error fault => raise fault

/-- Reports an event. -/
def report (e : Event) : Eval Unit := fun m => .ok () (m.report e)

/-- Reports that a statement is executed. -/
def reportStatement (label : String) : Eval Unit := fun m =>
  .ok () (m.report (.executed label m.environment.depth))

/-- What a function of the machine gives. -/
def observe (f : Machine → α) : Eval α := fun m => .ok (f m) m

/-- Changes the cells. -/
def modifyStore (f : Store → Store) : Eval Unit := fun m => .ok () (m.withStore f)

/-- Makes copies in the store.  Where there are none the run stops and its cells are given up, so
that a store that is copied is held by nothing else. -/
def copying (f : Store → Option (α × Store)) : Eval α := fun m =>
  match f m.store with
  | some (a, store) => .ok a { m with store }
  | none => .error .unfinished { m with store := ∅ }

/-- The copy of a value that is stored or read. -/
def copied : Value → Eval Value
  | .closure c => copying fun s => s.copy (.closure c)
  | v => pure v

/-- The copy of a value that leaves its activation. -/
def released : Value → Eval Value
  | .closure c => copying fun s => s.release (.closure c)
  | v => pure v

/-! ### Names -/

/-- The value of a variable, or the only routine of that name (`read_variable`). -/
def readVariable (name : String) : Eval Value := do
  match ← observe fun m => m.store.read m.environment name with
  | some v => copied v
  | none =>
      match ← lift (← observe fun m => m.routines.unique name) with
      | some r => return .function 0 r
      | none => raise (.undefinedVariable name)

/-- What a call by name with so many arguments calls: a routine of the program or, if there is
none, what a variable holds (`resolve`). -/
def resolve (name : String) (count : Nat) : Eval Callable := do
  match ← observe fun m => m.routines.lookup? name count with
  | some r => return .function r
  | none =>
      match ← observe fun m => m.store.read m.environment name with
      | some v => lift (Callable.ofValue name count v)
      | none => raise (.undefinedFunction name count)

/-- Gives a variable a value. -/
def assign (name : String) (v : Value) : Eval Unit := fun m =>
  .ok () (m.withStore fun s => s.assign m.environment name v)

/-! ### Objects -/

/-- The object that a value is, where the given member of it is used (`expect_object`). -/
def objectOf (name : String) : Value → Eval (Address .object)
  | .object a => pure a
  | .nil => raise (.memberOfNil name)
  | v => raise (.memberOf name v.type)

/-- The value of a field, or the prototype by its name (`read_field`). -/
def readField (target : Value) (name : String) : Eval Value := do
  let a ← objectOf name target
  if name = Store.protoName then
    match ← observe fun m => (m.store.object a).proto with
    | some p => return .object p
    | none => return .nil
  else
    match ← observe fun m => m.store.member? a name with
    | some v => copied v
    | none => raise (.noField name)

/-- What a call of a method with so many arguments calls. -/
def method (a : Address .object) (name : String) (count : Nat) : Eval Callable := do
  match ← observe fun m => m.store.member? a name with
  | some v => lift (Callable.ofValue name count v)
  | none => raise (.noMethod name)

/-- Gives an object a prototype, or takes it away. -/
def assignProto (a : Address .object) : Value → Eval Unit
  | .object p => do
      if ← observe fun m => decide (a ∈ m.store.chain p) then raise .prototypeCycle
      else modifyStore fun s => s.setProto a (some p)
  | .nil => modifyStore fun s => s.setProto a none
  | v => raise (.prototypeType v.type)

/-- Gives a field a value, or an object a prototype (`assign_field`). -/
def assignField (target : Value) (name : String) (v : Value) : Eval Unit := do
  let a ← objectOf name target
  if name = Store.protoName then assignProto a v
  else
    let v ← copied v
    modifyStore fun s => s.setField a name v

/-- Makes an object. -/
def newObject : Eval Value := fun m =>
  .ok (.object m.store.objects.fresh) (m.withStore Store.newObject)

/-! ### Closures and activations -/

/-- Makes a closure over all bindings that can be seen (`make_closure`). -/
def capture (routine : Routine) (byRef : Bool) : Eval Closure := fun m =>
  match m.store.snapshot m.environment with
  | some (captured, store) =>
      let id := m.closures + 1
      .ok ⟨id, routine, captured, byRef⟩
        (({ m with store, closures := id }).report
          (.captured id (store.scope captured).size byRef))
  | none => .error .unfinished { m with store := ∅ }

/-- Makes a scope without bindings. -/
def newScope : Eval (Address .scope) := fun m =>
  .ok m.store.scopes.fresh (m.withStore fun s => s.newScope ∅)

/-- Makes the environment in which a routine or closure runs: a new scope, for a closure with the
captured scope and another new scope inside it. -/
def activate : Callable → Eval Environment
  | .function _ => return .single (← newScope)
  | .closure c => do
      let base ← newScope
      let installed := (Environment.single base).enter c.captured
      let environment := installed.enter (← newScope)
      report (.installed installed.depth)
      report (.entered environment.depth)
      return environment

/-- Makes the binding of a parameter. -/
def bindValue (environment : Environment) (name : String) (v : Value) : Eval Unit :=
  modifyStore fun s => s.create environment.innermost name v

/-- Binds the name of the receiver in a method. -/
def bindReceiver (environment : Environment) : Option (Address .object) → Eval Unit
  | some a => bindValue environment "this" (.object a)
  | none => pure ()

/-- Binds a parameter to the copy of a value. -/
def bindCopy (environment : Environment) (name : String) (v : Value) : Eval Unit := do
  let v ← copied v
  bindValue environment name v

/-- Binds a reference parameter to the caller's variable, or to what its name means if there is no
such variable. -/
def bindVariable (environment : Environment) (name variableName : String) : Eval Unit := do
  match ← observe fun m => m.store.lookup m.environment variableName with
  | some b => modifyStore fun s => s.share environment.innermost name b.slot
  | none => do
      let v ← readVariable variableName
      bindValue environment name v

/-! ### The console -/

/-- Prints a line. -/
def print (line : String) : Eval Unit := fun m => .ok () { m with console := m.console.print line }

/-- Prints lines in turn. -/
def printAll (lines : List String) : Eval Unit := fun m =>
  .ok () { m with console := lines.foldl Console.print m.console }

/-- Reads a line for the given routine of the language. -/
def readLine (builtin : Builtin) : Eval String := fun m =>
  match m.console.read? with
  | some (line, console) => .ok line { m with console }
  | none => raise (.endOfInput builtin) m

/-- The integer that a line holds, between blanks. -/
def integerOf (line : String) : Eval Value :=
  match Decimal.read? (Text.trim line.toList) with
  | some n => pure (.int n)
  | none => raise (.notAnInteger line)

end Eval
end ProtoScript
