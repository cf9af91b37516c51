import ProtoScript.FiniteMap
import ProtoScript.Value
/-!
# The store

The store holds all cells of a running program: slots with values, scopes that
bind names to slots, and objects with fields and a prototype.

A binding owns its slot or refers to a slot that was made for another one.
Assigning to an owned binding gives it a new slot, so whatever refers to the old
slot keeps the old value; assigning to a reference writes into the slot, so
every binding of that slot sees the value.  This is the only place where the
content of a slot changes.

Reading at an address outside a heap gives nothing, and writing there does
nothing; a running program has no such address.

The cells are `Slot`, `Scope` with its `Binding`s, and `Object` of the
interpreter.  `Store.create`, `Store.share` and `Store.update` are `create`,
`bind_ref` and `set` of `Scope`; `Store.setField` is `add_or_update` of `Object`.
-/

namespace ProtoScript

/-- What a name is bound to. -/
structure Binding where
  /-- The slot that holds the value. -/
  slot : Address .slot
  /-- Whether the slot is referred to and not owned. -/
  byRef : Bool
deriving DecidableEq, Repr

/-- The bindings of one level. -/
abbrev Scope := FiniteMap String Binding

/-- An object: its own fields and the object that it inherits from. -/
structure Object where
  /-- The fields of the object itself. -/
  fields : FiniteMap String Value
  /-- The prototype. -/
  proto : Option (Address .object)

namespace Object

/-- The object without fields and prototype. -/
def empty : Object := ⟨∅, none⟩

instance : Inhabited Object := ⟨empty⟩

end Object

/-- The cells of a running program. -/
structure Store where
  /-- The slots. -/
  slots : Heap .slot Value
  /-- The scopes. -/
  scopes : Heap .scope Scope
  /-- The objects. -/
  objects : Heap .object Object

namespace Store

/-- The store without cells. -/
def empty : Store := ⟨∅, ∅, ∅⟩

instance : EmptyCollection Store := ⟨empty⟩

instance : Inhabited Store := ⟨empty⟩

/-! ### Reading -/

/-- The value in a slot. -/
def value (s : Store) (a : Address .slot) : Value := (s.slots.get? a).getD .nil

/-- The bindings of a scope. -/
def scope (s : Store) (a : Address .scope) : Scope := (s.scopes.get? a).getD ∅

/-- An object. -/
def object (s : Store) (a : Address .object) : Object := (s.objects.get? a).getD .empty

/-- What a scope binds a name to. -/
def binding? (s : Store) (a : Address .scope) (name : String) : Option Binding :=
  (s.scope a).get? name

/-! ### Slots -/

/-- Makes a slot with a value, at `s.slots.fresh`. -/
def newSlot (s : Store) (v : Value) : Store := { s with slots := s.slots.push v }

/-- Writes a value into a slot. -/
def writeSlot (s : Store) (a : Address .slot) (v : Value) : Store :=
  { s with slots := s.slots.set a v }

/-! ### Scopes -/

/-- Makes a scope with bindings, at `s.scopes.fresh`. -/
def newScope (s : Store) (scope : Scope) : Store := { s with scopes := s.scopes.push scope }

/-- Binds a name in a scope. -/
def bind (s : Store) (a : Address .scope) (name : String) (b : Binding) : Store :=
  { s with scopes := s.scopes.set a ((s.scope a).insert name b) }

/-- Binds a name to a new slot with a value, in place of what it was bound to. -/
def create (s : Store) (a : Address .scope) (name : String) (v : Value) : Store :=
  let slot := s.slots.fresh
  (s.newSlot v).bind a name ⟨slot, false⟩

/-- Binds a name to a slot that exists, as a reference. -/
def share (s : Store) (a : Address .scope) (name : String) (slot : Address .slot) : Store :=
  s.bind a name ⟨slot, true⟩

/-- Assigns to a name that the scope binds; a name that it does not bind is left alone
(`Scope::set`). -/
def update (s : Store) (a : Address .scope) (name : String) (v : Value) : Store :=
  match s.binding? a name with
  | some ⟨slot, true⟩ => s.writeSlot slot v
  | some ⟨_, false⟩ => s.create a name v
  | none => s

/-! ### Objects -/

/-- Makes an object, at `s.objects.fresh`. -/
def newObject (s : Store) : Store := { s with objects := s.objects.push .empty }

/-- Gives a field of an object itself a value. -/
def setField (s : Store) (a : Address .object) (name : String) (v : Value) : Store :=
  let o := s.object a
  { s with objects := s.objects.set a { o with fields := o.fields.insert name v } }

/-- Gives an object a prototype or takes it away. -/
def setProto (s : Store) (a : Address .object) (proto : Option (Address .object)) : Store :=
  { s with objects := s.objects.set a { s.object a with proto } }

end Store
end ProtoScript
