import ProtoScript.Fault
/-!
# Events

What a running program reports about itself: which statement it comes to, how
the stack of scopes grows and shrinks, what it captures and what it calls.  These
are the events that the interpreter logs (section B6 of its specification).
-/

namespace ProtoScript

/-- A step of a running program. -/
inductive Event where
  /-- The program has so many routines. -/
  | loaded (routines : Nat)
  /-- A statement is executed inside so many scopes. -/
  | executed (label : String) (depth : Nat)
  /-- A variable is assigned to. -/
  | assigned (name : String)
  /-- A field is assigned to. -/
  | fieldAssigned (field : String)
  /-- A closure captures so many bindings. -/
  | captured (id : Nat) (bindings : Nat) (byRef : Bool)
  /-- A routine is called, as the activation with the given number. -/
  | called (frame : Frame) (depth : Nat)
  /-- A new scope is entered. -/
  | entered (depth : Nat)
  /-- A captured scope is entered. -/
  | installed (depth : Nat)
  /-- A scope is left. -/
  | left (depth : Nat)
deriving DecidableEq, Repr

namespace Event

/-- The line of a trace. -/
def text : Event → String
  | loaded routines => s!"DEBUG program loaded functions={routines}"
  | executed label depth => s!"TRACE exec stmt={label} depth={depth}"
  | assigned name => s!"TRACE assign name={name}"
  | fieldAssigned field => s!"TRACE assign field field={field}"
  | captured id bindings byRef =>
      let mode := if byRef then "true" else "false"
      s!"TRACE capture id={id} captured={bindings} by_ref={mode}"
  | called frame depth => s!"DEBUG call function={frame.text} depth={depth}"
  | entered depth => s!"TRACE push scope depth={depth}"
  | installed depth => s!"TRACE install scope depth={depth}"
  | left depth => s!"TRACE pop scope depth={depth}"

end Event
end ProtoScript
