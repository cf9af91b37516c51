import ProtoScript.Store.Copy
/-!
# Environments

An environment is a stack of scopes, never empty; the innermost scope hides the
others.  It holds addresses, so a scope can be in several environments at once,
or in one and in a closure.  A name is looked up from the innermost scope
outward, assigned where it is found, and created in the innermost scope if it
is found nowhere.

This is the interpreter's `Environment` (section 4.1 of its specification), whose
list of scopes has the innermost one last.
-/

namespace ProtoScript

/-- A stack of scopes. -/
structure Environment where
  /-- The innermost scope. -/
  innermost : Address .scope
  /-- The scopes around it, from the inside out. -/
  outer : List (Address .scope)
deriving DecidableEq, Repr

namespace Environment

/-- The environment with one scope. -/
def single (a : Address .scope) : Environment := ⟨a, []⟩

/-- The scopes, from the inside out. -/
def scopes (e : Environment) : List (Address .scope) := e.innermost :: e.outer

/-- The number of scopes. -/
def depth (e : Environment) : Nat := e.scopes.length

/-- The environment inside a further scope (`push` and `install`). -/
def enter (e : Environment) (a : Address .scope) : Environment := ⟨a, e.scopes⟩

/-- The environment around the innermost scope; the outermost scope stays (`pop`). -/
def leave (e : Environment) : Environment :=
  match e.outer with
  | [] => e
  | a :: outer => ⟨a, outer⟩

@[simp] theorem leave_enter (e : Environment) (a : Address .scope) : (e.enter a).leave = e := rfl

end Environment

namespace Store

/-- What a name is bound to, from the inside out. -/
def lookup (s : Store) (e : Environment) (name : String) : Option Binding :=
  e.scopes.findSome? fun a => s.binding? a name

/-- The value of a variable (`get`). -/
def read (s : Store) (e : Environment) (name : String) : Option Value :=
  (s.lookup e name).map fun b => s.value b.slot

/-- Gives a variable a value where it is bound, or creates it in the innermost scope (`set`). -/
def assign (s : Store) (e : Environment) (name : String) (v : Value) : Store :=
  match e.scopes.find? fun a => (s.binding? a name).isSome with
  | some a => s.update a name v
  | none => s.create e.innermost name v

/-- The bindings of some scopes, where an earlier scope hides the later ones. -/
def overlay (s : Store) : List (Address .scope) → Scope
  | [] => ∅
  | a :: l => (s.overlay l).extend (s.scope a)

/-- The bindings that can be seen in an environment. -/
def visible (s : Store) (e : Environment) : Scope := s.overlay e.scopes

/-- Copies of the bindings of some scopes, from the last scope to the first, where an earlier scope
hides the later ones.  What is hidden is copied too. -/
def flatten (s : Store) : List Scope → Option (Scope × Store)
  | [] => some (∅, s)
  | scope :: l => do
      let (flat, s) ← s.flatten l
      let (copied, s) ← s.copyScope s.copyBound scope
      return (flat.extend copied, s)

/-- Makes a scope with copies of the bindings that can be seen, and tells where (`snapshot`). -/
def snapshot (s : Store) (e : Environment) : Option (Address .scope × Store) :=
  (s.flatten (e.scopes.map s.scope)).map fun (flat, s) => (s.scopes.fresh, s.newScope flat)

end Store
end ProtoScript
