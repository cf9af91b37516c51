import ProtoScript.Proofs.Shift
/-!
# Machines with a past

Of what happened on a machine before a run two things are left: how many closures
were created, and which lines were printed.  They are the past of the machine, and
`Machine.after` gives a past to a machine that has none.

A step after a past does what it does without one (`Eval.Shifts`): it gives the same
result and leaves the same machine, with numbers moved by the closures of the past and
with the lines of the past before those printed.  If it fails, it fails with the same
fault and the same activations, since neither of them has anything of the past.
-/

namespace ProtoScript

/-- What happened on a machine before. -/
structure Past where
  /-- How many closures were created. -/
  closures : Nat
  /-- The lines that were printed. -/
  printed : Array String

/-- The event with another number if a closure was created. -/
def Event.shift (n : Nat) : Event → Event
  | .captured id bindings byRef => .captured (n + id) bindings byRef
  | e => e

/-- The console on which some lines were printed before. -/
def Console.after (lines : Array String) (c : Console) : Console :=
  { c with printed := lines ++ c.printed }

/-- What is called, with another number if it is a closure. -/
def Callable.shift (n : Nat) : Callable → Callable
  | .function r => .function r
  | .closure c => .closure (c.shift n)

/-- How a statement ends, with another number if it ends with a closure. -/
def Status.shift (n : Nat) : Status → Status
  | .proceed => .proceed
  | .returned v => .returned (v.shift n)

theorem Console.print_after (lines : Array String) (c : Console) (line : String) :
    (c.after lines).print line = (c.print line).after lines := by
  rw [print, print, after, after, Array.push_append]

namespace Machine

/-- What happened on a machine. -/
def past (m : Machine) : Past := ⟨m.closures, m.console.printed⟩

/-- The machine, if a past comes before it. -/
def after (π : Past) (m : Machine) : Machine where
  store := m.store.shift π.closures
  environment := m.environment
  routines := m.routines
  frames := m.frames
  console := m.console.after π.printed
  closures := π.closures + m.closures
  events := m.events.map (Event.shift π.closures)

end Machine

section

variable (n : Nat)

@[simp] theorem Callable.routine_shift (c : Callable) : (c.shift n).routine = c.routine := by
  cases c <;> rfl

theorem Store.shift_empty : (∅ : Store).shift n = ∅ := by
  show (⟨⟨Array.map _ #[]⟩, ∅, ⟨Array.map _ #[]⟩⟩ : Store) = ∅
  rw [Array.map_empty, Array.map_empty]
  rfl

/-- An operator gives what it gives on other numbers. -/
theorem Operation.binary_shift (op : BinaryOperator) (v w : Value) :
    binary op (v.shift n) (w.shift n) = binary op v w := by
  have hsame := Value.same_shift n v w
  have happly : apply op (v.shift n) (w.shift n) = apply op v w := by
    cases v <;> cases w <;> rfl
  -- Operands that are coerced are no closures, so they have no number.
  obtain ⟨hv, hw⟩ | ⟨hc, hc'⟩ : (v.shift n = v ∧ w.shift n = w) ∨
      coerce op v w = (v, w) ∧ coerce op (v.shift n) (w.shift n) = (v.shift n, w.shift n) := by
    cases v <;> cases w <;> first | exact .inl ⟨rfl, rfl⟩ | exact .inr ⟨rfl, rfl⟩
  · rw [hv, hw]
  · rw [binary, binary, hc, hc']
    cases op with
    | eq => exact congrArg (fun b => Except.ok (Value.truth b)) hsame
    | ne => exact congrArg (fun b => Except.ok (Value.truth !b)) hsame
    | _ => exact happly

theorem Operation.unary_shift (op : UnaryOperator) (v : Value) :
    unary op (v.shift n) = unary op v := by
  cases v with
  | closure c => cases op <;> rfl
  | _ => rfl

theorem Operation.condition_shift (statement : Conditional) (v : Value) :
    condition statement (v.shift n) = condition statement v := by
  cases v <;> rfl

theorem Callable.ofValue_shift (name : String) (count : Nat) (v : Value) :
    ofValue name count (v.shift n) = (ofValue name count v).map (Callable.shift n) := by
  cases v with
  | function edition r =>
      show (if r.arity = count then _ else _) = Except.map _ (if r.arity = count then _ else _)
      split <;> rfl
  | closure c =>
      show (if c.routine.arity = count then _ else _)
        = Except.map _ (if c.routine.arity = count then _ else _)
      split <;> rfl
  | _ => rfl

end

/-! ### Steps -/

/-- How a step ends after a past, if without one it ends so. -/
def Past.ending {α β : Type} (π : Past) (f : α → β) :
    EStateM.Result Halt Machine α → EStateM.Result Halt Machine β
  | .ok a m => .ok (f a) (m.after π)
  | .error h m => .error h (m.after π)

/-- A step does after a past what another one does without, and `f` gives its result. -/
def Eval.Shifts {α β : Type} (π : Past) (f : α → β) (x : Eval α) (x' : Eval β) : Prop :=
  ∀ m : Machine, x' (m.after π) = π.ending f (x m)

namespace Eval.Shifts

variable {π : Past} {α β γ δ : Type} {f : α → β} {g : γ → δ}

theorem raise (fault : Fault) : Shifts π f (Eval.raise fault) (Eval.raise fault) := fun _ => rfl

theorem stop : Shifts π f Eval.stop Eval.stop := fun _ => rfl

theorem bind {x : Eval α} {x' : Eval β} {k : α → Eval γ} {k' : β → Eval δ}
    (hx : Shifts π f x x') (hk : ∀ a, Shifts π g (k a) (k' (f a))) :
    Shifts π g (x >>= k) (x' >>= k') := by
  intro m
  have h := hx m
  simp only [Bind.bind, EStateM.bind]
  rw [h]
  cases x m with
  | ok a m₁ => exact hk a m₁
  | error e m₁ => rfl

theorem lift {r : Except Fault α} {r' : Except Fault β} (h : r' = r.map f) :
    Shifts π f (Eval.lift r) (Eval.lift r') := by
  subst h
  cases r <;> exact fun _ => rfl

/-- An attempt that gives no closure. -/
theorem lift_self {f : α → α} {r : Except Fault α} (h : ∀ a, r = .ok a → f a = a) :
    Shifts π f (Eval.lift r) (Eval.lift r) := by
  cases r with
  | ok a => exact .lift (congrArg Except.ok (h a rfl).symm)
  | error fault => exact .lift rfl

theorem observe {x : Machine → α} {x' : Machine → β} (h : ∀ m, x' (m.after π) = f (x m)) :
    Shifts π f (Eval.observe x) (Eval.observe x') :=
  fun m => congrArg (EStateM.Result.ok · (m.after π)) (h m)

theorem report (e : Event) : Shifts π id (Eval.report e) (Eval.report (e.shift π.closures)) :=
  fun _ => rfl

theorem reportStatement (label : String) :
    Shifts π id (Eval.reportStatement label) (Eval.reportStatement label) := fun _ => rfl

theorem modifyStore {t t' : Store → Store}
    (h : ∀ s : Store, (t s).shift π.closures = t' (s.shift π.closures)) :
    Shifts π id (Eval.modifyStore t) (Eval.modifyStore t') := by
  intro m
  have hm : (m.after π).withStore t' = (m.withStore t).after π := by
    simp only [Machine.withStore, Machine.after, h]
  exact congrArg (EStateM.Result.ok ()) hm

theorem copying {x : Store → Option (α × Store)} {x' : Store → Option (β × Store)}
    (h : ∀ s, x' (s.shift π.closures) = (x s).map (Prod.map f (Store.shift π.closures))) :
    Shifts π f (Eval.copying x) (Eval.copying x') := by
  intro m
  have hm : x' (m.after π).store = (x m.store).map (Prod.map f (Store.shift π.closures)) :=
    h m.store
  rw [Eval.copying, Eval.copying, hm]
  cases x m.store with
  | some r => rfl
  | none =>
      show EStateM.Result.error _ _ = .error _ _
      rw [Machine.after, Machine.after, Store.shift_empty]

theorem copied (v : Value) : Shifts π (Value.shift π.closures) (Eval.copied v)
    (Eval.copied (v.shift π.closures)) := by
  cases v with
  | closure c =>
      show Shifts π _ (Eval.copying fun s => s.copy (.closure c))
        (Eval.copying fun s => s.copy (.closure (c.shift π.closures)))
      exact .copying fun s => s.copy_shift _ (.closure c)
  | _ => exact fun _ => rfl

theorem released (v : Value) : Shifts π (Value.shift π.closures) (Eval.released v)
    (Eval.released (v.shift π.closures)) := by
  cases v with
  | closure c =>
      show Shifts π _ (Eval.copying fun s => s.release (.closure c))
        (Eval.copying fun s => s.release (.closure (c.shift π.closures)))
      exact .copying fun s => s.release_shift _ (.closure c)
  | _ => exact fun _ => rfl

/-! ### Names -/

theorem readVariable (name : String) :
    Shifts π (Value.shift π.closures) (Eval.readVariable name) (Eval.readVariable name) := by
  refine .bind (.observe fun m => m.store.read_shift _ m.environment name) fun o => ?_
  cases o with
  | some v => exact .copied v
  | none =>
      refine .bind (f := id) (.observe fun _ => rfl) fun r => ?_
      refine .bind (f := id) (.lift_self fun _ _ => rfl) fun o => ?_
      cases o with
      | some r => exact fun _ => rfl
      | none => exact .raise _

theorem resolve (name : String) (count : Nat) :
    Shifts π (Callable.shift π.closures) (Eval.resolve name count)
      (Eval.resolve name count) := by
  refine .bind (f := id) (.observe fun _ => rfl) fun o => ?_
  cases o with
  | some r => exact fun _ => rfl
  | none =>
      refine .bind (.observe fun m => m.store.read_shift _ m.environment name) fun o => ?_
      cases o with
      | some v => exact .lift (Callable.ofValue_shift _ name count v)
      | none => exact .raise _

theorem assign (name : String) (v : Value) :
    Shifts π id (Eval.assign name v) (Eval.assign name (v.shift π.closures)) := by
  intro m
  have hstore := m.store.shift_assign π.closures m.environment name v
  show EStateM.Result.ok () _ = .ok () _
  simp only [Machine.withStore, Machine.after, hstore]

/-! ### Objects -/

theorem objectOf (name : String) (v : Value) :
    Shifts π id (Eval.objectOf name v) (Eval.objectOf name (v.shift π.closures)) := by
  cases v <;> exact fun _ => rfl

theorem readField (target : Value) (name : String) :
    Shifts π (Value.shift π.closures) (Eval.readField target name)
      (Eval.readField (target.shift π.closures) name) := by
  refine .bind (.objectOf name target) fun a => ?_
  split
  · refine .bind (f := id) (.observe fun m => ?_) fun o => ?_
    · show ((m.store.shift π.closures).object a).proto = (m.store.object a).proto
      rw [Store.object_shift]
      rfl
    · cases o <;> exact fun _ => rfl
  · refine .bind (.observe fun m => m.store.member?_shift _ a name) fun o => ?_
    cases o with
    | some v => exact .copied v
    | none => exact .raise _

theorem method (a : Address .object) (name : String) (count : Nat) :
    Shifts π (Callable.shift π.closures) (Eval.method a name count)
      (Eval.method a name count) := by
  refine .bind (.observe fun m => m.store.member?_shift _ a name) fun o => ?_
  cases o with
  | some v => exact .lift (Callable.ofValue_shift _ name count v)
  | none => exact .raise _

theorem assignProto (a : Address .object) (v : Value) :
    Shifts π id (Eval.assignProto a v) (Eval.assignProto a (v.shift π.closures)) := by
  cases v with
  | object p =>
      refine .bind (f := id) (.observe fun m => ?_) fun b => ?_
      · show decide (a ∈ (m.store.shift π.closures).chain p) = decide (a ∈ m.store.chain p)
        rw [Store.chain_shift]
      · show Shifts π id (if b = true then _ else _) (if b = true then _ else _)
        split
        · exact .raise _
        · exact .modifyStore fun s => s.shift_setProto _ a (some p)
  | nil => exact .modifyStore fun s => s.shift_setProto _ a none
  | _ => exact fun _ => rfl

theorem assignField (target : Value) (name : String) (v : Value) :
    Shifts π id (Eval.assignField target name v)
      (Eval.assignField (target.shift π.closures) name (v.shift π.closures)) := by
  refine .bind (.objectOf name target) fun a => ?_
  show Shifts π id (if name = Store.protoName then _ else _)
    (if name = Store.protoName then _ else _)
  split
  · exact .assignProto a v
  · refine .bind (.copied v) fun w => ?_
    exact .modifyStore fun s => s.shift_setField _ a name w

theorem newObject : Shifts π (Value.shift π.closures) Eval.newObject Eval.newObject := by
  intro m
  have hfresh : (m.store.shift π.closures).objects.fresh = m.store.objects.fresh :=
    Heap.fresh_map _ _
  show EStateM.Result.ok (Value.object (m.store.shift π.closures).objects.fresh) _ = .ok _ _
  simp only [hfresh, Machine.withStore, Machine.after, Store.shift_newObject]
  rfl

/-! ### Closures and activations -/

theorem capture (r : Routine) (byRef : Bool) :
    Shifts π (Closure.shift π.closures) (Eval.capture r byRef) (Eval.capture r byRef) := by
  intro m
  have hsnapshot : (m.after π).store.snapshot (m.after π).environment
      = (m.store.snapshot m.environment).map (Prod.map id (Store.shift π.closures)) :=
    m.store.snapshot_shift _ m.environment
  rw [Eval.capture, Eval.capture, hsnapshot]
  cases m.store.snapshot m.environment with
  -- The next number after the past is `π.closures + (m.closures + 1)`: the next number, shifted.
  | some r => rfl
  | none =>
      show EStateM.Result.error _ _ = .error _ _
      rw [Machine.after, Machine.after, Store.shift_empty]

theorem activate (c : Callable) :
    Shifts π id (Eval.activate c) (Eval.activate (c.shift π.closures)) := by
  cases c <;> exact fun _ => rfl

theorem bindValue (e : Environment) (name : String) (v : Value) :
    Shifts π id (Eval.bindValue e name v) (Eval.bindValue e name (v.shift π.closures)) :=
  .modifyStore fun s => s.shift_create _ e.innermost name v

theorem bindReceiver (e : Environment) (receiver : Option (Address .object)) :
    Shifts π id (Eval.bindReceiver e receiver) (Eval.bindReceiver e receiver) := by
  cases receiver with
  | none => exact fun _ => rfl
  | some a => exact .bindValue e "this" (.object a)

theorem bindCopy (e : Environment) (name : String) (v : Value) :
    Shifts π id (Eval.bindCopy e name v) (Eval.bindCopy e name (v.shift π.closures)) :=
  .bind (.copied v) fun w => .bindValue e name w

theorem bindVariable (e : Environment) (name variableName : String) :
    Shifts π id (Eval.bindVariable e name variableName)
      (Eval.bindVariable e name variableName) := by
  refine .bind (f := id) (.observe fun m => m.store.lookup_shift _ _ _) fun o => ?_
  cases o with
  | some b => exact .modifyStore fun s => s.shift_share _ e.innermost name b.slot
  | none => exact .bind (.readVariable variableName) fun v => .bindValue e name v

/-- A part of a program does elsewhere what it does here. -/
theorem inside {x : Eval α} {x' : Eval β} (hx : Shifts π f x x') (p p' : Surroundings)
    (henter : ∀ m : Machine, p'.enter (m.after π) = (p.enter m).after π)
    (hleave : ∀ (e : Environment) (m : Machine), p'.leave e (m.after π) = (p.leave e m).after π)
    (hhalted : ∀ (m : Machine) (e : Halt), p'.halted (m.after π) e = p.halted m e) :
    Shifts π f (p.run x) (p'.run x') := by
  intro m
  simp only [Surroundings.run]
  rw [henter, hx]
  cases x (p.enter m) with
  | ok a m₁ => exact congrArg (EStateM.Result.ok (f a)) (hleave _ m₁)
  | error e m₁ =>
      show EStateM.Result.error (p'.halted (m₁.after π) e) (p'.leave _ (m₁.after π)) = .error _ _
      rw [hhalted, hleave]
      rfl

/-! ### The console -/

theorem print (line : String) : Shifts π id (Eval.print line) (Eval.print line) := by
  intro m
  show EStateM.Result.ok () _ = .ok () _
  simp only [Machine.after, Console.print_after]

theorem printAll (lines : List String) :
    Shifts π id (Eval.printAll lines) (Eval.printAll lines) := by
  intro m
  have hconsole : ∀ c : Console, lines.foldl Console.print (c.after π.printed)
      = (lines.foldl Console.print c).after π.printed := by
    induction lines with
    | nil => exact fun _ => rfl
    | cons line lines ih =>
        intro c
        rw [List.foldl_cons, List.foldl_cons, Console.print_after, ih]
  show EStateM.Result.ok () _ = .ok () _
  simp only [Machine.after, hconsole]

theorem readLine (b : Builtin) : Shifts π id (Eval.readLine b) (Eval.readLine b) := by
  intro m
  have hread : (m.after π).console.read?
      = m.console.read?.map (Prod.map id (Console.after π.printed)) := by
    have hpending : (m.after π).console.pending = m.console.pending := rfl
    rw [Console.read?, Console.read?, hpending]
    cases m.console.pending <;> rfl
  rw [Eval.readLine, Eval.readLine, hread]
  cases m.console.read? <;> rfl

theorem integerOf (line : String) :
    Shifts π (Value.shift π.closures) (Eval.integerOf line) (Eval.integerOf line) := by
  rw [Eval.integerOf]
  cases Decimal.read? (Text.trim line.toList) with
  | some k => exact fun _ => rfl
  | none => exact .raise _

end Eval.Shifts
end ProtoScript
