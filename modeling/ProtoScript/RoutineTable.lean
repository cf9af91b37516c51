import ProtoScript.Fault
import ProtoScript.FiniteMap
/-!
# Tables of routines

A program's routines are found by name and number of parameters; several
routines may share a name if they differ in that number.  The table has two
levels: a name leads to the overloads of that name, and an arity to one of them.
A name gets its place in the table when a routine of that name is offered,
before it is known whether the routine is accepted.

These are the functions of the interpreter's `FunctionTable`: `define` and
`from_program`, and the queries.
-/

namespace ProtoScript

/-- The routines of one name, by their arities. -/
abbrev Overloads := FiniteMap Nat Routine

/-- Routines by name and arity. -/
structure RoutineTable where
  /-- The overloads of each name. -/
  byName : FiniteMap String Overloads

namespace RoutineTable

/-- The table without routines. -/
def empty : RoutineTable := ⟨∅⟩

instance : EmptyCollection RoutineTable := ⟨empty⟩

instance : Inhabited RoutineTable := ⟨empty⟩

/-- The overloads of a name, which gets a place in the table if it has none. -/
def place (t : RoutineTable) (name : String) : Overloads × RoutineTable :=
  match t.byName.get? name with
  | some overloads => (overloads, t)
  | none => (∅, ⟨t.byName.insert name ∅⟩)

/-- Offers a routine to the table.  It is accepted if its name and arity are new. -/
def offer (r : Routine) : EStateM Fault RoutineTable Unit := fun t =>
  let (overloads, t) := t.place r.name
  if overloads.contains r.arity then .error (.redefined r.name r.arity) t
  else .ok () ⟨t.byName.insert r.name (overloads.insert r.arity r)⟩

/-- The table with a further routine, unless it is refused. -/
def define (t : RoutineTable) (r : Routine) : Except Fault RoutineTable :=
  match offer r t with
  | .ok _ t => .ok t
  | .error fault _ => .error fault

/-- The table of a program. -/
def ofProgram (p : Program) : Except Fault RoutineTable :=
  p.routines.foldlM define ∅

/-- The routine with a name that takes so many parameters. -/
def lookup? (t : RoutineTable) (name : String) (arity : Nat) : Option Routine := do
  (← t.byName.get? name).get? arity

/-- Whether the name has a place. -/
def containsName (t : RoutineTable) (name : String) : Bool := t.byName.contains name

/-- The only routine with a name, if the name has a place. -/
def unique (t : RoutineTable) (name : String) : Except Fault (Option Routine) :=
  match t.byName.get? name with
  | none => .ok none
  | some overloads =>
      if 1 < overloads.size then .error (.ambiguous name)
      else .ok (overloads.entries.head?.map Prod.snd)

/-- The number of routines, over all names. -/
def size (t : RoutineTable) : Nat := t.byName.entries.foldr (fun e n => e.2.size + n) 0

/-- Whether no name has a place. -/
def isEmpty (t : RoutineTable) : Bool := t.byName.entries.isEmpty

end RoutineTable
end ProtoScript
