import ProtoScript.Proofs.Definitions
import ProtoScript.Proofs.Steps
/-!
# Steps of two runs

The machines of two runs mirror each other if their stores do, the scopes of the
activation that runs are the same and of one origin, and nothing was printed or read
by one that was not by the other.  What runs and what was reported are not compared:
there the names of variables show.

A step of one run and a step of the other are in lockstep if, from machines that
mirror each other, both give results that correspond on machines that mirror each
other, or both halt for reasons of one kind.
-/

namespace ProtoScript

variable {ν : Naming} {κ κ' : Origins} {o : Origin}

/-! ### Operators -/

section

variable {v v' w w' : Value}

/-- An operator does not see the names. -/
theorem Value.Mirrors.binary (hν : ν.Faithful) (op : BinaryOperator) (hv : v.Mirrors ν κ v')
    (hw : w.Mirrors ν κ w') : Operation.binary op v' w' = Operation.binary op v w := by
  -- Operands that are coerced are no routines, so they are the same in both runs.
  obtain ⟨rfl, rfl⟩ | ⟨hc, hc'⟩ : (v' = v ∧ w' = w) ∨
      Operation.coerce op v w = (v, w) ∧ Operation.coerce op v' w' = (v', w') := by
    cases hv <;> cases hw <;> first | exact .inl ⟨rfl, rfl⟩ | exact .inr ⟨rfl, rfl⟩
  · rfl
  · have hsame := hv.same hν hw
    have happly : Operation.apply op v' w' = Operation.apply op v w := by
      cases hv <;> cases hw <;> rfl
    rw [Operation.binary, Operation.binary, hc, hc']
    cases op with
    | eq => exact congrArg (fun b => Except.ok (Value.truth b)) hsame
    | ne => exact congrArg (fun b => Except.ok (Value.truth !b)) hsame
    | _ => exact happly

theorem Value.Mirrors.unary (op : UnaryOperator) (hv : v.Mirrors ν κ v') :
    Operation.unary op v' = Operation.unary op v := by
  cases hv with
  | function | closure => cases op <;> rfl
  | _ => rfl

theorem Value.Mirrors.condition (statement : Conditional) (hv : v.Mirrors ν κ v') :
    Operation.condition statement v' = Operation.condition statement v := by
  cases hv <;> rfl

end

/-! ### Tables -/

/-- A routine keeps its name and arity. -/
theorem Naming.origin_routine (ν : Naming) (r : Routine) : (ν.routine r).origin = r.origin :=
  Prod.ext (r.name_rename _) (r.arity_rename _)

/-- Two attempts: both give results that correspond, or both have faults of one kind. -/
inductive Attempts {α : Type} (R : α → α → Prop) : Except Fault α → Except Fault α → Prop where
  /-- Results. -/
  | ok {a a' : α} (h : R a a') : Attempts R (.ok a) (.ok a')
  /-- Faults. -/
  | error {f f' : Fault} (h : f'.kind = f.kind) : Attempts R (.error f) (.error f')

namespace RoutineTable

/-- The second table has the routines of the first, with the names of the second program.  The name
of a routine is the name of no variable. -/
def Mirrors (ν : Naming) (t t' : RoutineTable) : Prop :=
  ∃ l : List Routine, t.Holds l ∧ t'.Holds (l.map ν.routine) ∧ ∀ r ∈ l, ∀ o, ν o r.name = r.name

namespace Mirrors

variable {t t' : RoutineTable}

/-- A routine is found under the name that a name is given exactly if it was found under that
name. -/
theorem name_eq_iff (hν : ν.Faithful) {r : Routine} (hr : ∀ o, ν o r.name = r.name) (o : Origin)
    (name : String) : (ν.routine r).name = ν o name ↔ r.name = name := by
  have hname : (ν.routine r).name = r.name := r.name_rename _
  rw [hname, ← hr o, (hν.injective o).eq_iff, hr o]

/-- At the name and arity of a routine of the first program that of the second is found. -/
theorem lookup?_self (h : t.Mirrors ν t') (name : String) (n : Nat) :
    t'.lookup? name n = (t.lookup? name n).map ν.routine := by
  obtain ⟨l, ht, ht', -⟩ := h
  refine Option.ext fun r' => ?_
  rw [ht'.lookup?_eq_some_iff, Option.map_eq_some_iff, List.mem_map]
  simp only [ht.lookup?_eq_some_iff]
  constructor
  · rintro ⟨⟨r, hr, rfl⟩, hname, harity⟩
    exact ⟨r, ⟨hr, (r.name_rename _).symm.trans hname, (r.arity_rename _).symm.trans harity⟩, rfl⟩
  · rintro ⟨r, ⟨hr, hname, harity⟩, rfl⟩
    exact ⟨⟨r, hr, rfl⟩, (r.name_rename _).trans hname, (r.arity_rename _).trans harity⟩

theorem lookup? (h : t.Mirrors ν t') (hν : ν.Faithful) (o : Origin) (name : String) (n : Nat) :
    t'.lookup? (ν o name) n = (t.lookup? name n).map ν.routine := by
  obtain ⟨l, ht, ht', hl⟩ := h
  refine Option.ext fun r' => ?_
  rw [ht'.lookup?_eq_some_iff, Option.map_eq_some_iff, List.mem_map]
  simp only [ht.lookup?_eq_some_iff]
  constructor
  · rintro ⟨⟨r, hr, rfl⟩, hname, harity⟩
    exact ⟨r, ⟨hr, (name_eq_iff hν (hl r hr) o name).1 hname,
      (r.arity_rename _).symm.trans harity⟩, rfl⟩
  · rintro ⟨r, ⟨hr, hname, harity⟩, rfl⟩
    exact ⟨⟨r, hr, rfl⟩, (name_eq_iff hν (hl r hr) o name).2 hname,
      (r.arity_rename _).trans harity⟩

/-- What a name means in the second program, from what it means in the first. -/
theorem means {l : List Routine} (hν : ν.Faithful) (hl : ∀ r ∈ l, ∀ o, ν o r.name = r.name)
    (o : Origin) {name : String} {x : Except Fault (Option Routine)} (h : Means l name x) :
    ∃ x', Means (l.map ν.routine) (ν o name) x' ∧
      Attempts (fun r r' => r' = r.map ν.routine) x x' := by
  have hname : ∀ r ∈ l, ((ν.routine r).name = ν o name ↔ r.name = name) := fun r hr =>
    name_eq_iff hν (hl r hr) o name
  cases h with
  | nothing absent =>
      refine ⟨_, .nothing (List.forall_mem_map.2 fun r hr hn => ?_), .ok rfl⟩
      exact absent r hr ((hname r hr).1 hn)
  | @one r mem has only =>
      refine ⟨_, .one (List.mem_map_of_mem mem) ((hname r mem).2 has)
        (List.forall_mem_map.2 fun s hs hn => ?_), .ok rfl⟩
      rw [only s hs ((hname s hs).1 hn)]
  | @several r s mem mem' has has' ne =>
      refine ⟨_, .several (List.mem_map_of_mem mem) (List.mem_map_of_mem mem')
        ((hname r mem).2 has) ((hname s mem').2 has') fun heq => ne ?_, .error rfl⟩
      exact (r.arity_rename _).symm.trans (heq.trans (s.arity_rename _))

theorem unique (h : t.Mirrors ν t') (hν : ν.Faithful) (o : Origin) (name : String) :
    Attempts (fun r r' => r' = r.map ν.routine) (t.unique name) (t'.unique (ν o name)) := by
  obtain ⟨l, ht, ht', hl⟩ := h
  obtain ⟨x', hx', hattempts⟩ := means hν hl o (ht.means_unique name)
  rw [(ht'.means_unique (ν o name)).unique hx']
  exact hattempts

end Mirrors
end RoutineTable

/-! ### Machines -/

/-- The machine of the first run and that of the second, in an activation with the origin `o`. -/
structure Machine.Mirrors (ν : Naming) (κ : Origins) (o : Origin) (m m' : Machine) : Prop where
  store : m.store.Mirrors ν κ m'.store
  environment : m'.environment = m.environment
  covers : κ.Covers o m.environment
  routines : m.routines.Mirrors ν m'.routines
  console : m'.console = m.console
  closures : m'.closures = m.closures

/-- What can be called in the first run, with the origin of its names, and what stands for it in the
second. -/
inductive Callable.Mirrors (ν : Naming) (κ : Origins) : Origin → Callable → Callable → Prop where
  /-- A routine of the program. -/
  | function (r : Routine) : Mirrors ν κ r.origin (.function r) (.function (ν.routine r))
  /-- A closure. -/
  | closure {c : Closure} {o : Origin} (h : κ.get? c.captured = some o) :
      Mirrors ν κ o (.closure c) (.closure { c with routine := c.routine.rename (ν o) })

theorem Callable.Mirrors.routine {c c' : Callable} (h : Callable.Mirrors ν κ o c c') :
    c'.routine = c.routine.rename (ν o) := by
  cases h <;> rfl

/-- Two runs halt for reasons of one kind. -/
inductive Halt.Mirrors : Halt → Halt → Prop where
  /-- Both fail. -/
  | failed {f f' : Failure} (h : f'.fault.kind = f.fault.kind) : Mirrors (.failed f) (.failed f')
  /-- Both go on beyond the bound that was set. -/
  | unfinished : Mirrors .unfinished .unfinished

/-- The frames that are attached on the way out do not matter. -/
theorem Halt.Mirrors.attach {h h' : Halt} (hh : h.Mirrors h') (l l' : List Frame) :
    (h.attach l).Mirrors (h'.attach l') := by
  cases hh with
  | @failed f f' hkind =>
      exact .failed ((congrArg Fault.kind (f'.fault_attach l')).trans
        (hkind.trans (congrArg Fault.kind (f.fault_attach l)).symm))
  | unfinished => exact .unfinished

/-- How two steps end from machines that mirror each other. -/
inductive Ends {α : Type} (ν : Naming) (κ : Origins) (o : Origin) (R : Origins → α → α → Prop) :
    EStateM.Result Halt Machine α → EStateM.Result Halt Machine α → Prop where
  /-- With results that correspond. -/
  | ok {a a' : α} {m m' : Machine} {κ' : Origins} (hκ : κ.Grows κ') (ha : R κ' a a')
      (hm : m.Mirrors ν κ' o m') : Ends ν κ o R (.ok a m) (.ok a' m')
  /-- With reasons of one kind. -/
  | error {h h' : Halt} {m m' : Machine} (hh : h.Mirrors h') (hm : m'.console = m.console) :
      Ends ν κ o R (.error h m) (.error h' m')

/-- Two steps in lockstep, in an activation with the origin `o`. -/
def Lockstep {α : Type} (ν : Naming) (κ : Origins) (o : Origin) (R : Origins → α → α → Prop)
    (x x' : Eval α) : Prop :=
  ∀ m m' : Machine, m.Mirrors ν κ o m' → Ends ν κ o R (x m) (x' m')

/-- A variable is read alike under its two names. -/
theorem Machine.Mirrors.read {m m' : Machine} (hm : m.Mirrors ν κ o m') (hν : ν.Faithful)
    (name : String) : Option.Rel (Value.Mirrors ν κ) (m.store.read m.environment name)
      (m'.store.read m'.environment (ν o name)) := by
  rw [hm.environment]
  exact hm.store.read hν hm.covers name

theorem Environment.mem_of_mem_leave {e : Environment} {a : Address .scope}
    (h : a ∈ e.leave.scopes) : a ∈ e.scopes := by
  obtain ⟨innermost, outer⟩ := e
  cases outer with
  | nil => exact h
  | cons b outer => exact List.mem_cons_of_mem _ h

namespace Lockstep

open Eval

variable {α β : Type} {R : Origins → α → α → Prop} {S : Origins → β → β → Prop}
  {x x' : Eval β} {f f' : β → Eval α}

theorem bind (hx : Lockstep ν κ o S x x')
    (hf : ∀ κ', κ.Grows κ' → ∀ b b', S κ' b b' → Lockstep ν κ' o R (f b) (f' b')) :
    Lockstep ν κ o R (x >>= f) (x' >>= f') := by
  intro m m' hm
  have h := hx m m' hm
  simp only [Bind.bind, EStateM.bind]
  generalize x m = r at h
  generalize x' m' = r' at h
  cases h with
  | error hh hc => exact .error hh hc
  | @ok b b' m₁ m₁' κ₁ hκ hb hm₁ =>
      have h₁ := hf κ₁ hκ b b' hb m₁ m₁' hm₁
      show Ends ν κ o R (f b m₁) (f' b' m₁')
      generalize f b m₁ = r at h₁
      generalize f' b' m₁' = r' at h₁
      cases h₁ with
      | ok hκ' ha hm₂ => exact .ok (hκ.trans hκ') ha hm₂
      | error hh hc => exact .error hh hc

theorem pure {a a' : α} (ha : R κ a a') : Lockstep ν κ o R (Pure.pure a) (Pure.pure a') :=
  fun _ _ hm => .ok (.refl κ) ha hm

theorem raise {g g' : Fault} (h : g'.kind = g.kind) :
    Lockstep ν κ o R (Eval.raise g) (Eval.raise g') :=
  fun _ _ hm => .error (.failed h) hm.console

theorem lift {r r' : Except Fault α} (h : Attempts (R κ) r r') :
    Lockstep ν κ o R (Eval.lift r) (Eval.lift r') := by
  cases h with
  | ok ha => exact .pure ha
  | error hf => exact .raise hf

/-- The same attempt, with a result that is no name of a variable. -/
theorem lift_self {r : Except Fault α} (h : ∀ a, r = .ok a → R κ a a) :
    Lockstep ν κ o R (Eval.lift r) (Eval.lift r) := by
  cases r with
  | ok a => exact .pure (h a rfl)
  | error fault => exact .raise rfl

/-- What is seen of the machine decides how it goes on. -/
theorem observe {γ : Type} {g g' : Machine → γ} {k k' : γ → Eval α}
    (h : ∀ m m', m.Mirrors ν κ o m' → Lockstep ν κ o R (k (g m)) (k' (g' m'))) :
    Lockstep ν κ o R (Eval.observe g >>= k) (Eval.observe g' >>= k') :=
  fun m m' hm => h m m' hm m m' hm

/-- What is there or not is there for both or for none. -/
theorem observe_option {γ : Type} {T : γ → γ → Prop} {g g' : Machine → Option γ}
    {k k' : Option γ → Eval α}
    (hg : ∀ m m', m.Mirrors ν κ o m' → Option.Rel T (g m) (g' m'))
    (hsome : ∀ c c', T c c' → Lockstep ν κ o R (k (some c)) (k' (some c')))
    (hnone : Lockstep ν κ o R (k none) (k' none)) :
    Lockstep ν κ o R (Eval.observe g >>= k) (Eval.observe g' >>= k') := by
  refine .observe fun m m' hm => ?_
  have hrel := hg m m' hm
  generalize g m = x at hrel
  generalize g' m' = x' at hrel
  cases hrel with
  | some hc => exact hsome _ _ hc
  | none => exact hnone

theorem report (e e' : Event) :
    Lockstep ν κ o (fun _ _ _ => True) (Eval.report e) (Eval.report e') :=
  fun _ _ hm => .ok (.refl κ) trivial { hm with }

theorem reportStatement (label label' : String) :
    Lockstep ν κ o (fun _ _ _ => True) (Eval.reportStatement label)
      (Eval.reportStatement label') :=
  fun _ _ hm => .ok (.refl κ) trivial { hm with }

theorem modifyStore {g g' : Store → Store}
    (h : ∀ s s', s.Mirrors ν κ s' → (g s).Mirrors ν κ (g' s')) :
    Lockstep ν κ o (fun _ _ _ => True) (Eval.modifyStore g) (Eval.modifyStore g') :=
  fun _ _ hm => .ok (.refl κ) trivial { hm with store := h _ _ hm.store }

theorem copying {g g' : Store → Option (α × Store)}
    (h : ∀ s s', s.Mirrors ν κ s' → Store.CopiesMirror ν κ R (g s) (g' s')) :
    Lockstep ν κ o R (Eval.copying g) (Eval.copying g') := by
  intro m m' hm
  have hg := h _ _ hm.store
  rw [Eval.copying, Eval.copying]
  generalize g m.store = r at hg
  generalize g' m'.store = r' at hg
  cases hg with
  | none => exact .error .unfinished hm.console
  | some hr =>
      obtain ⟨κ₁, hκ, ha, hs⟩ := hr
      exact .ok hκ ha { hm with store := hs, covers := hm.covers.mono hκ }

theorem copied {v v' : Value} (hv : v.Mirrors ν κ v') :
    Lockstep ν κ o (Value.Mirrors ν) (Eval.copied v) (Eval.copied v') := by
  cases hv with
  | closure hc => exact .copying fun s s' hs => hs.copy (.closure hc)
  | _ => exact .pure (by constructor)

theorem released {v v' : Value} (hv : v.Mirrors ν κ v') :
    Lockstep ν κ o (Value.Mirrors ν) (Eval.released v) (Eval.released v') := by
  cases hv with
  | closure hc => exact .copying fun s s' hs => hs.release (.closure hc)
  | _ => exact .pure (by constructor)

/-! ### Names -/

theorem readVariable (hν : ν.Faithful) (name : String) :
    Lockstep ν κ o (Value.Mirrors ν) (Eval.readVariable name)
      (Eval.readVariable (ν o name)) := by
  refine .observe_option (fun m m' hm => hm.read hν name) (fun v v' hv => .copied hv) ?_
  refine .observe fun m m' hm => ?_
  refine (Lockstep.lift (R := fun _ r r' => r' = r.map ν.routine)
    (hm.routines.unique hν o name)).bind fun κ₁ _ r r' hr => ?_
  cases hr
  cases r with
  | some r => exact .pure (.function 0 r)
  | none => exact .raise rfl

/-- What a value is when it is called does not depend on its names. -/
theorem ofValue_mirrors {v v' : Value} (hv : v.Mirrors ν κ v') (name name' : String) (n : Nat) :
    Attempts (fun c c' => ∃ o, Callable.Mirrors ν κ o c c') (Callable.ofValue name n v)
      (Callable.ofValue name' n v') := by
  cases hv with
  | function edition r =>
      rw [Callable.ofValue, Callable.ofValue, Naming.routine, Routine.arity_rename]
      split
      · exact .ok ⟨_, .function r⟩
      · exact .error rfl
  | closure hc =>
      rw [Callable.ofValue, Callable.ofValue, Routine.arity_rename]
      split
      · exact .ok ⟨_, .closure hc⟩
      · exact .error rfl
  | _ => exact .error rfl

theorem resolve (hν : ν.Faithful) (name : String) (n : Nat) :
    Lockstep ν κ o (fun κ c c' => ∃ o, Callable.Mirrors ν κ o c c') (Eval.resolve name n)
      (Eval.resolve (ν o name) n) := by
  refine .observe fun m m' hm => ?_
  rw [hm.routines.lookup? hν]
  cases m.routines.lookup? name n with
  | some r => exact .pure ⟨_, .function r⟩
  | none =>
      exact .observe_option (fun m m' hm => hm.read hν name)
        (fun v v' hv => .lift (ofValue_mirrors hv _ _ n)) (.raise rfl)

theorem assign (hν : ν.Faithful) (name : String) {v v' : Value} (hv : v.Mirrors ν κ v') :
    Lockstep ν κ o (fun _ _ _ => True) (Eval.assign name v) (Eval.assign (ν o name) v') := by
  intro m m' hm
  refine .ok (.refl κ) trivial { hm with store := ?_ }
  rw [hm.environment]
  exact hm.store.assign hν hm.covers name hv

/-! ### Objects -/

theorem objectOf (name : String) {v v' : Value} (hv : v.Mirrors ν κ v') :
    Lockstep ν κ o (fun _ a a' => a' = a) (Eval.objectOf name v) (Eval.objectOf name v') := by
  cases hv with
  | object a => exact .pure rfl
  | _ => exact .raise rfl

theorem readField (name : String) {v v' : Value} (hv : v.Mirrors ν κ v') :
    Lockstep ν κ o (Value.Mirrors ν) (Eval.readField v name) (Eval.readField v' name) := by
  refine (objectOf name hv).bind fun κ₁ _ a a' ha => ?_
  cases ha
  split
  · refine .observe fun m m' hm => ?_
    rw [(hm.store.object a).proto]
    cases (m.store.object a).proto with
    | some p => exact .pure (.object p)
    | none => exact .pure .nil
  · exact .observe_option (fun m m' hm => hm.store.member? a name) (fun v v' hv => .copied hv)
      (.raise rfl)

theorem method (a : Address .object) (name : String) (n : Nat) :
    Lockstep ν κ o (fun κ c c' => ∃ o, Callable.Mirrors ν κ o c c') (Eval.method a name n)
      (Eval.method a name n) :=
  .observe_option (fun _ _ hm => hm.store.member? a name)
    (fun _ _ hv => .lift (ofValue_mirrors hv _ _ n)) (.raise rfl)

theorem assignProto (a : Address .object) {v v' : Value} (hv : v.Mirrors ν κ v') :
    Lockstep ν κ o (fun _ _ _ => True) (Eval.assignProto a v) (Eval.assignProto a v') := by
  cases hv with
  | object p =>
      refine .observe fun m m' hm => ?_
      rw [hm.store.chain p]
      split
      · exact .raise rfl
      · exact .modifyStore fun s s' hs => hs.setProto a (some p)
  | nil => exact .modifyStore fun s s' hs => hs.setProto a none
  | _ => exact .raise rfl

theorem assignField (name : String) {v v' w w' : Value} (hv : v.Mirrors ν κ v')
    (hw : w.Mirrors ν κ w') :
    Lockstep ν κ o (fun _ _ _ => True) (Eval.assignField v name w)
      (Eval.assignField v' name w') := by
  refine (objectOf name hv).bind fun κ₁ h₁ a a' ha => ?_
  cases ha
  split
  · exact assignProto a (hw.mono h₁)
  · refine (copied (hw.mono h₁)).bind fun κ₂ _ u u' hu => ?_
    exact .modifyStore fun s s' hs => hs.setField a name hu

theorem newObject :
    Lockstep ν κ o (Value.Mirrors ν) Eval.newObject Eval.newObject := by
  intro m m' hm
  rw [Eval.newObject, Eval.newObject, hm.store.objects.fresh]
  exact .ok (.refl κ) (.object _) { hm with store := hm.store.newObject }

/-! ### Closures and activations -/

theorem capture (hν : ν.Faithful) (r : Routine) (byRef : Bool) :
    Lockstep ν κ o (fun κ c c' => Value.Mirrors ν κ (.closure c) (.closure c'))
      (Eval.capture r byRef) (Eval.capture (r.rename (ν o)) byRef) := by
  intro m m' hm
  have hsnapshot := hm.store.snapshot hν hm.covers
  rw [Eval.capture, Eval.capture, hm.environment, hm.closures]
  generalize m.store.snapshot m.environment = x at hsnapshot
  generalize m'.store.snapshot m.environment = x' at hsnapshot
  cases hsnapshot with
  | none => exact .error .unfinished hm.console
  | @some x x' hx =>
      obtain ⟨a, s⟩ := x
      obtain ⟨a', s'⟩ := x'
      obtain ⟨κ₁, hκ, ⟨ha, hc⟩, hs⟩ := hx
      obtain rfl : a' = a := ha
      exact .ok hκ (.closure hc)
        { hm with store := hs, environment := rfl, covers := hm.covers.mono hκ, closures := rfl }

/-- A new scope may be of any origin. -/
theorem newScope (oc : Origin) :
    Lockstep ν κ o (fun κ a a' => a' = a ∧ κ.get? a = some oc) Eval.newScope
      Eval.newScope := by
  intro m m' hm
  have hfresh : (κ.push oc).get? m.store.scopes.fresh = some oc := by
    rw [← hm.store.fresh, Heap.get?_push_fresh]
  exact .ok (.push κ oc) ⟨hm.store.scopes.fresh, hfresh⟩
    { hm with store := hm.store.newScope oc (.empty _), covers := hm.covers.mono (.push κ oc) }

theorem activate {oc : Origin} {c c' : Callable} (hc : Callable.Mirrors ν κ oc c c') :
    Lockstep ν κ o (fun κ e e' => e' = e ∧ κ.Covers oc e) (Eval.activate c)
      (Eval.activate c') := by
  cases hc with
  | function r =>
      refine (newScope r.origin).bind fun κ₁ _ a a' ha => ?_
      exact .pure ⟨congrArg _ ha.1, List.forall_mem_singleton.2 ha.2⟩
  | @closure c oc hc =>
      refine (newScope oc).bind fun κ₁ h₁ a a' ha => ?_
      obtain ⟨rfl, ha⟩ := ha
      refine (newScope oc).bind fun κ₂ h₂ b b' hb => ?_
      obtain ⟨rfl, hb⟩ := hb
      refine (report _ _).bind fun κ₃ h₃ _ _ _ => ?_
      refine (report _ _).bind fun κ₄ h₄ _ _ _ => .pure ⟨rfl, ?_⟩
      have h₂₄ := h₃.trans h₄
      refine List.forall_mem_cons.2 ⟨h₂₄ _ _ hb, List.forall_mem_cons.2 ⟨?_, ?_⟩⟩
      · exact (h₁.trans (h₂.trans h₂₄)) _ _ hc
      · exact List.forall_mem_singleton.2 ((h₂.trans h₂₄) _ _ ha)

theorem bindValue (hν : ν.Faithful) {oc : Origin} {e : Environment} (he : κ.Covers oc e)
    (name : String) {v v' : Value} (hv : v.Mirrors ν κ v') :
    Lockstep ν κ o (fun _ _ _ => True) (Eval.bindValue e name v)
      (Eval.bindValue e (ν oc name) v') :=
  .modifyStore fun _ _ hs => hs.create hν (he _ List.mem_cons_self) name hv

theorem bindReceiver (hν : ν.Faithful) {oc : Origin} {e : Environment} (he : κ.Covers oc e)
    (receiver : Option (Address .object)) :
    Lockstep ν κ o (fun _ _ _ => True) (Eval.bindReceiver e receiver)
      (Eval.bindReceiver e receiver) := by
  cases receiver with
  | none => exact .pure trivial
  | some a =>
      have h := bindValue (o := o) hν he "this" (.object a)
      rwa [hν.this] at h

theorem bindCopy (hν : ν.Faithful) {oc : Origin} {e : Environment} (he : κ.Covers oc e)
    (name : String) {v v' : Value} (hv : v.Mirrors ν κ v') :
    Lockstep ν κ o (fun _ _ _ => True) (Eval.bindCopy e name v)
      (Eval.bindCopy e (ν oc name) v') :=
  (copied hv).bind fun _ h₁ _ _ hw => bindValue hν (he.mono h₁) name hw

theorem bindVariable (hν : ν.Faithful) {oc : Origin} {e : Environment} (he : κ.Covers oc e)
    (name variableName : String) :
    Lockstep ν κ o (fun _ _ _ => True) (Eval.bindVariable e name variableName)
      (Eval.bindVariable e (ν oc name) (ν o variableName)) := by
  refine .observe fun m m' hm => ?_
  rw [hm.environment, hm.store.lookup hν hm.covers]
  cases m.store.lookup m.environment variableName with
  | some b =>
      exact .modifyStore fun _ _ hs => hs.share hν (he _ List.mem_cons_self) name b.slot
  | none =>
      refine (readVariable hν variableName).bind fun κ₁ h₁ v v' hv => ?_
      exact bindValue hν (he.mono h₁) name hv

/-- In a block the scope that is entered is of the origin of the activation. -/
theorem block {x x' : Eval α} (hx : Lockstep ν (κ.push o) o R x x') :
    Lockstep ν κ o R (Surroundings.block.run x) (Surroundings.block.run x') := by
  intro m m' hm
  have hfresh : (κ.push o).get? m.store.scopes.fresh = some o := by
    rw [← hm.store.fresh, Heap.get?_push_fresh]
  have henter : (m.environment.enter m.store.scopes.fresh)
      = m'.environment.enter m'.store.scopes.fresh := by
    rw [hm.environment, hm.store.scopes.fresh]
  have hin : m.enterBlock.Mirrors ν (κ.push o) o m'.enterBlock :=
    { hm with
      store := hm.store.newScope o (.empty _)
      environment := henter.symm
      covers := List.forall_mem_cons.2 ⟨hfresh, hm.covers.mono (.push κ o)⟩ }
  have h := hx _ _ hin
  simp only [Surroundings.run, Surroundings.enter, Surroundings.leave]
  generalize x m.enterBlock = r at h
  generalize x' m'.enterBlock = r' at h
  cases h with
  | error hh hc => exact .error hh hc
  | @ok a a' m₁ m₁' κ₁ hκ ha hm₁ =>
      refine .ok ((Origins.Grows.push κ o).trans hκ) ha { hm₁ with environment := ?_, covers := ?_ }
      · exact congrArg Environment.leave hm₁.environment
      · exact fun a ha => hm₁.covers a (Environment.mem_of_mem_leave ha)

/-- The names of an activation are those of what is called. -/
theorem activation {x x' : Eval α} {oc : Origin} {e : Environment} (he : κ.Covers oc e)
    (label label' : String) (c c' : Callable) (hx : Lockstep ν κ oc R x x') :
    Lockstep ν κ o R ((Surroundings.activation label c e).run x)
      ((Surroundings.activation label' c' e).run x') := by
  intro m m' hm
  have h := hx (m.enterActivation ⟨label, c.routine.arity⟩ e)
    (m'.enterActivation ⟨label', c'.routine.arity⟩ e) { hm with environment := rfl, covers := he }
  simp only [Surroundings.run, Surroundings.enter, Surroundings.leave]
  generalize x (m.enterActivation ⟨label, c.routine.arity⟩ e) = r at h
  generalize x' (m'.enterActivation ⟨label', c'.routine.arity⟩ e) = r' at h
  cases h with
  | error hh hc => exact .error (hh.attach _ _) hc
  | ok hκ ha hm₁ =>
      exact .ok hκ ha { hm₁ with environment := hm.environment, covers := hm.covers.mono hκ }

/-! ### The console -/

theorem print (line : String) :
    Lockstep ν κ o (fun _ _ _ => True) (Eval.print line) (Eval.print line) :=
  fun _ _ hm => .ok (.refl κ) trivial { hm with console := congrArg (·.print line) hm.console }

theorem printAll (lines : List String) :
    Lockstep ν κ o (fun _ _ _ => True) (Eval.printAll lines) (Eval.printAll lines) :=
  fun _ _ hm => .ok (.refl κ) trivial
    { hm with console := congrArg (lines.foldl Console.print) hm.console }

theorem readLine (b : Builtin) :
    Lockstep ν κ o (fun _ line line' => line' = line) (Eval.readLine b) (Eval.readLine b) := by
  intro m m' hm
  rw [Eval.readLine, Eval.readLine, hm.console]
  cases m.console.read? with
  | some r => exact .ok (.refl κ) rfl { hm with console := rfl }
  | none => exact .error (.failed rfl) hm.console

theorem integerOf (line : String) :
    Lockstep ν κ o (Value.Mirrors ν) (Eval.integerOf line) (Eval.integerOf line) := by
  rw [Eval.integerOf]
  cases Decimal.read? (Text.trim line.toList) with
  | some n => exact .pure (.int n)
  | none => exact .raise rfl

end Lockstep

end ProtoScript
