import ProtoScript.Store
/-!
# Prototype chains

The chain of an object is the object, its prototype, the prototype of that, and
so on.  A member is looked up along the chain, and a prototype is only given to
an object that is not on the chain of the prototype, so no chain comes back to
its start.  A chain without a circle has at most as many objects as there are,
which is how far it is followed.

`member?` is `get_obj` of the interpreter's `Object`, and membership in `chain` is
its `chain_contains`; both follow the links there without a bound (section B3 of
the specification).
-/

namespace ProtoScript
namespace Store

/-- The first objects of a chain, at most as many as the first argument says. -/
def chainUpTo (s : Store) : Nat → Address .object → List (Address .object)
  | 0, _ => []
  | n + 1, a =>
      a :: match (s.object a).proto with
        | some p => s.chainUpTo n p
        | none => []

/-- The chain of an object. -/
def chain (s : Store) (a : Address .object) : List (Address .object) :=
  s.chainUpTo s.objects.size a

/-- The field that the first object of the chain with such a field has. -/
def member? (s : Store) (a : Address .object) (name : String) : Option Value :=
  (s.chain a).findSome? fun o => (s.object o).fields.get? name

/-- The name that stands for the prototype where a field is read or assigned (`PROTO_FIELD`). -/
def protoName : String := "proto"

end Store
end ProtoScript
