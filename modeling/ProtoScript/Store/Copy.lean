import ProtoScript.Store
/-!
# Copies of values

Copying a value copies nothing but closures that capture by value: such a
closure gets a scope of its own.  In the copy of a scope an owned binding gets a
new slot with a copy of the value, and a reference keeps its slot.  So two
copies share what was shared on purpose, and nothing else.

A scope may hold a closure that captured a scope, and so on.  The number of
scopes bounds the length of such a chain unless it is a circle, and of a circle
there is no copy: the result is `none`.

`copyScope` is the interpreter's `Scope::deep_copy`, `copy` its
`Value::deep_copy` with `Closure::copied`, and `detach` its `Closure::detached`.
There they call each other; here `copyWith` and `copyBinding` take the copying of a
scope as an argument.
-/

namespace ProtoScript
namespace Store

/-- Copies a value, where `copy` copies the bindings of a scope. -/
def copyWith (copy : Store → Scope → Option (Scope × Store)) (s : Store) :
    Value → Option (Value × Store)
  | .closure c =>
      if c.byRef then some (.closure c, s)
      else do
        let (captured, s) ← copy s (s.scope c.captured)
        return (.closure { c with captured := s.scopes.fresh }, s.newScope captured)
  | v => some (v, s)

/-- Copies a binding, where `copy` copies the bindings of a scope. -/
def copyBinding (copy : Store → Scope → Option (Scope × Store)) (b : Binding) (s : Store) :
    Option (Binding × Store) :=
  if b.byRef then some (b, s)
  else do
    let (v, s) ← copyWith copy s (s.value b.slot)
    return (⟨s.slots.fresh, false⟩, s.newSlot v)

/-- Copies the bindings of a scope, through at most as many scopes inside each other as the first
argument says. -/
def copyScope : Nat → Store → Scope → Option (Scope × Store)
  | 0, _, _ => none
  | n + 1, s, scope => scope.transform (copyBinding (copyScope n)) s

/-- More than the number of scopes that can hold each other without a circle. -/
def copyBound (s : Store) : Nat := s.scopes.size + 1

/-- Makes a scope with copies of the given bindings, and tells where. -/
def capture (s : Store) (scope : Scope) : Option (Address .scope × Store) :=
  (s.copyScope s.copyBound scope).map fun (copied, s) => (s.scopes.fresh, s.newScope copied)

/-- The closure with a captured scope of its own (`Closure::detached`). -/
def detach (s : Store) (c : Closure) : Option (Closure × Store) :=
  (s.capture (s.scope c.captured)).map fun (captured, s) => ({ c with captured }, s)

/-- The copy of a value that is stored or read: a closure that captures by reference is shared
(`Value::deep_copy`). -/
def copy (s : Store) : Value → Option (Value × Store)
  | .closure c =>
      if c.byRef then some (.closure c, s)
      else (s.detach c).map fun (c, s) => (.closure c, s)
  | v => some (v, s)

/-- The copy of a value that leaves its activation: no closure is shared. -/
def release (s : Store) : Value → Option (Value × Store)
  | .closure c => (s.detach c).map fun (c, s) => (.closure c, s)
  | v => some (v, s)

end Store
end ProtoScript
