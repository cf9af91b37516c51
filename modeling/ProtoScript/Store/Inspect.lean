import ProtoScript.Store
import ProtoScript.Text.Quoted
/-!
# Values as a programmer sees them

The form of a value that shows its type, and of closures and objects how many
bindings or fields they hold; what they hold is in the store.  It is the debug
form of a `Value` of the interpreter.
-/

namespace ProtoScript
namespace Store

/-- The form of a value that shows its type. -/
def inspect (s : Store) : Value → String
  | .int n => "Int(" ++ Decimal.text n ++ ")"
  | .truth true => "Bool(true)"
  | .truth false => "Bool(false)"
  | .text t => "Str(" ++ Text.quoted t ++ ")"
  | .nil => "Nil"
  | .function _ r => s!"Function({r.name}/{r.arity})"
  | .closure c =>
      let mode := if c.byRef then " ref" else ""
      s!"Closure(#{c.id}, {(s.scope c.captured).size} captured{mode})"
  | .object a => s!"Object({(s.object a).fields.size} fields)"

end Store
end ProtoScript
