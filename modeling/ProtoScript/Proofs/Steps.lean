import ProtoScript.Evaluation
/-!
# Steps of the machine

What a script does besides calling for tasks are steps, and all of them have two
things in common.  A step never leaves its activation: the environment, the
routines and the activations that run are those before it.  And a step that
fails has done nothing yet, so the machine is the one before it; it tells the
fault and no activation.  A step stops unfinished only for want of a copy.  A
step of which this is known is `Eval.Tame`; one that changes nothing even if it
succeeds, as a look into the store, is `Eval.Quiet`.

The lemmas named after a step and `eq_ok` say everything that the step does
where it succeeds.
-/

namespace ProtoScript

/-- The machine has the same scopes, routines and activations. -/
structure Machine.Level (m m' : Machine) : Prop where
  environment : m'.environment = m.environment
  routines : m'.routines = m.routines
  frames : m'.frames = m.frames

theorem Machine.Level.refl (m : Machine) : m.Level m := ⟨rfl, rfl, rfl⟩

theorem Machine.Level.trans {m₁ m₂ m₃ : Machine} (h : m₁.Level m₂) (h' : m₂.Level m₃) :
    m₁.Level m₃ :=
  ⟨h'.1.trans h.1, h'.2.trans h.2, h'.3.trans h.3⟩

/-- There is a copy of every value, and of the bindings of every environment. -/
structure Store.Copyable (s : Store) : Prop where
  copy : ∀ v, (s.copy v).isSome
  release : ∀ v, (s.release v).isSome
  snapshot : ∀ e, (s.snapshot e).isSome

namespace Eval

variable {α β : Type}

theorem bind_eq_ok {x : Eval α} {f : α → Eval β} {m m' : Machine} {b : β} :
    (x >>= f) m = .ok b m' ↔ ∃ a m₁, x m = .ok a m₁ ∧ f a m₁ = .ok b m' := by
  simp only [bind, EStateM.bind]
  cases x m <;> simp [and_assoc]

theorem bind_eq_error {x : Eval α} {f : α → Eval β} {m m' : Machine} {h : Halt} :
    (x >>= f) m = .error h m' ↔
      x m = .error h m' ∨ ∃ a m₁, x m = .ok a m₁ ∧ f a m₁ = .error h m' := by
  simp only [bind, EStateM.bind]
  cases x m <;> simp [and_assoc]

@[simp] theorem pure_apply (a : α) (m : Machine) : (pure a : Eval α) m = .ok a m := rfl

@[simp] theorem observe_apply (f : Machine → α) (m : Machine) : observe f m = .ok (f m) m := rfl

theorem observe_bind (f : Machine → α) (g : α → Eval β) (m : Machine) :
    (observe f >>= g) m = g (f m) m := rfl

/-- A step that looks at the machine and changes nothing. -/
class Quiet (x : Eval α) : Prop where
  ok : ∀ {m m' : Machine} {a : α}, x m = .ok a m' → m' = m
  error : ∀ {m m' : Machine} {h : Halt}, x m = .error h m' → m' = m
  bare : ∀ {m m' : Machine} {f : Failure}, x m = .error (.failed f) m' → f.frames = []
  ne_unfinished : ∀ {m m' : Machine}, x m ≠ .error .unfinished m'

/-- A step that stays in its activation, does nothing and tells no activation if it fails, and stops
unfinished only where there is no copy. -/
class Tame (x : Eval α) : Prop where
  ok : ∀ {m m' : Machine} {a : α}, x m = .ok a m' → m.Level m'
  failed : ∀ {m m' : Machine} {f : Failure}, x m = .error (.failed f) m' → m' = m
  bare : ∀ {m m' : Machine} {f : Failure}, x m = .error (.failed f) m' → f.frames = []
  unfinished : ∀ {m m' : Machine}, x m = .error .unfinished m' → m.Level m'
  ne_unfinished : ∀ {m m' : Machine}, m.store.Copyable → x m ≠ .error .unfinished m'

instance (a : α) : Quiet (pure a : Eval α) where
  ok h := by cases h; rfl
  error h := by cases h
  bare h := by cases h
  ne_unfinished h := by cases h

instance (f : Machine → α) : Quiet (observe f) where
  ok h := by cases h; rfl
  error h := by cases h
  bare h := by cases h
  ne_unfinished h := by cases h

instance (fault : Fault) : Quiet (raise fault : Eval α) where
  ok h := by cases h
  error h := by cases h; rfl
  bare h := by cases h; rfl
  ne_unfinished h := by cases h

instance (r : Except Fault α) : Quiet (lift r) where
  ok h := by
    cases r with
    | ok a => cases h; rfl
    | error f => cases h
  error h := by
    cases r with
    | ok a => cases h
    | error f => cases h; rfl
  bare h := by
    cases r with
    | ok a => cases h
    | error f => cases h; rfl
  ne_unfinished h := by cases r <;> cases h

theorem Quiet.bind {x : Eval α} {f : α → Eval β} [Quiet x] (hf : ∀ a, Quiet (f a)) :
    Quiet (x >>= f) where
  ok h := by
    obtain ⟨a, m₁, hx, ha⟩ := bind_eq_ok.1 h
    rw [(hf a).ok ha, Quiet.ok hx]
  error h := by
    obtain hx | ⟨a, m₁, hx, ha⟩ := bind_eq_error.1 h
    · exact Quiet.error hx
    · rw [(hf a).error ha, Quiet.ok hx]
  bare h := by
    obtain hx | ⟨a, m₁, -, ha⟩ := bind_eq_error.1 h
    · exact Quiet.bare hx
    · exact (hf a).bare ha
  ne_unfinished h := by
    obtain hx | ⟨a, m₁, -, ha⟩ := bind_eq_error.1 h
    · exact Quiet.ne_unfinished hx
    · exact (hf a).ne_unfinished ha

instance (x : Eval α) [Quiet x] : Tame x where
  ok h := Quiet.ok h ▸ .refl _
  failed h := Quiet.error h
  bare h := Quiet.bare h
  unfinished h := Quiet.error h ▸ .refl _
  ne_unfinished _ := Quiet.ne_unfinished

/-- A look at the machine may come before a step that is tame. -/
theorem Tame.bind {x : Eval α} {f : α → Eval β} [Quiet x] (hf : ∀ a, Tame (f a)) :
    Tame (x >>= f) where
  ok h := by
    obtain ⟨a, m₁, hx, ha⟩ := bind_eq_ok.1 h
    obtain rfl := Quiet.ok hx
    exact (hf a).ok ha
  failed h := by
    obtain hx | ⟨a, m₁, hx, ha⟩ := bind_eq_error.1 h
    · exact Quiet.error hx
    · obtain rfl := Quiet.ok hx
      exact (hf a).failed ha
  bare h := by
    obtain hx | ⟨a, m₁, -, ha⟩ := bind_eq_error.1 h
    · exact Quiet.bare hx
    · exact (hf a).bare ha
  unfinished h := by
    obtain hx | ⟨a, m₁, hx, ha⟩ := bind_eq_error.1 h
    · exact Quiet.error hx ▸ .refl _
    · obtain rfl := Quiet.ok hx
      exact (hf a).unfinished ha
  ne_unfinished hs h := by
    obtain hx | ⟨a, m₁, hx, ha⟩ := bind_eq_error.1 h
    · exact Quiet.ne_unfinished hx
    · obtain rfl := Quiet.ok hx
      exact (hf a).ne_unfinished hs ha

/-- A step that always succeeds. -/
theorem Tame.of_ok {x : Eval α} {f : Machine → α} {g : Machine → Machine}
    (h : ∀ m, x m = .ok (f m) (g m)) (hg : ∀ m : Machine, m.Level (g m)) : Tame x where
  ok hx := by rw [h] at hx; cases hx; exact hg _
  failed hx := by rw [h] at hx; cases hx
  bare hx := by rw [h] at hx; cases hx
  unfinished hx := by rw [h] at hx; cases hx
  ne_unfinished _ hx := by rw [h] at hx; cases hx

theorem Tame.copying {f : Store → Option (α × Store)}
    (hf : ∀ s : Store, s.Copyable → (f s).isSome) : Tame (copying f) where
  ok {m m' a} h := by
    unfold Eval.copying at h
    split at h
    · cases h; exact ⟨rfl, rfl, rfl⟩
    · cases h
  failed {m m' a} h := by
    unfold Eval.copying at h
    split at h <;> cases h
  bare {m m' a} h := by
    unfold Eval.copying at h
    split at h <;> cases h
  unfinished {m m'} h := by
    unfold Eval.copying at h
    split at h
    · cases h
    · cases h; exact ⟨rfl, rfl, rfl⟩
  ne_unfinished {m m'} hs h := by
    unfold Eval.copying at h
    split at h
    · cases h
    · next hn =>
        have hsome := hf m.store hs
        rw [hn] at hsome
        cases hsome

instance (f : Store → Store) : Tame (modifyStore f) :=
  .of_ok (fun _ => rfl) fun _ => ⟨rfl, rfl, rfl⟩

/-! ### Values -/

/-- **A value is copied in the store alone.** -/
theorem copied_eq_ok {v w : Value} {m m' : Machine} (h : copied v m = .ok w m') :
    ∃ s, m.store.copy v = some (w, s) ∧ m' = { m with store := s } := by
  cases v with
  | closure c =>
      simp only [copied, copying] at h
      split at h
      · next u s hs => cases h; exact ⟨s, hs, rfl⟩
      · cases h
  | _ => cases h; exact ⟨m.store, rfl, rfl⟩

/-- **A value is released in the store alone.** -/
theorem released_eq_ok {v w : Value} {m m' : Machine} (h : released v m = .ok w m') :
    ∃ s, m.store.release v = some (w, s) ∧ m' = { m with store := s } := by
  cases v with
  | closure c =>
      simp only [released, copying] at h
      split at h
      · next u s hs => cases h; exact ⟨s, hs, rfl⟩
      · cases h
  | _ => cases h; exact ⟨m.store, rfl, rfl⟩

/-- A copy does not fail: it is made, or there is none. -/
theorem copied_ne_failed {v : Value} {m m' : Machine} {f : Failure} :
    copied v m ≠ .error (.failed f) m' := by
  cases v with
  | closure c =>
      simp only [copied, copying]
      split <;> simp
  | _ => simp [copied]

instance (v : Value) : Tame (copied v) := by
  cases v with
  | closure c => exact .copying fun s hs => hs.copy (.closure c)
  | _ => unfold copied; infer_instance

instance (v : Value) : Tame (released v) := by
  cases v with
  | closure c => exact .copying fun s hs => hs.release (.closure c)
  | _ => unfold released; infer_instance

/-- A copy may come before a change of the store. -/
theorem Tame.copied_bind (v : Value) (g : Value → Store → Store) :
    Tame (copied v >>= fun w => modifyStore (g w)) where
  ok h := by
    obtain ⟨a, m₁, hx, hf⟩ := bind_eq_ok.1 h
    exact (Tame.ok hx).trans (Tame.ok hf)
  failed h := by
    obtain hx | ⟨a, m₁, hx, hf⟩ := bind_eq_error.1 h
    · exact absurd hx copied_ne_failed
    · cases hf
  bare h := by
    obtain hx | ⟨a, m₁, hx, hf⟩ := bind_eq_error.1 h
    · exact absurd hx copied_ne_failed
    · cases hf
  unfinished h := by
    obtain hx | ⟨a, m₁, hx, hf⟩ := bind_eq_error.1 h
    · exact Tame.unfinished hx
    · cases hf
  ne_unfinished hs h := by
    obtain hx | ⟨a, m₁, hx, hf⟩ := bind_eq_error.1 h
    · exact Tame.ne_unfinished hs hx
    · cases hf

theorem lift_eq_ok {r : Except Fault α} {a : α} {m m' : Machine} (h : lift r m = .ok a m') :
    r = .ok a ∧ m' = m := by
  cases r with
  | ok b => cases h; exact ⟨rfl, rfl⟩
  | error f => cases h

/-! ### Names -/

instance (name : String) : Tame (readVariable name) := by
  refine .bind fun o => ?_
  cases o with
  | some v => exact inferInstanceAs (Tame (copied v))
  | none =>
      refine .bind fun x => .bind fun o => ?_
      cases o with
      | some r => exact inferInstanceAs (Tame (pure _))
      | none => exact inferInstanceAs (Tame (raise _))

/-- What reading a variable gives: a copy of what it holds, or a routine. -/
theorem readVariable_eq_ok {name : String} {v : Value} {m m' : Machine}
    (h : readVariable name m = .ok v m') :
    (∃ u, m.store.read m.environment name = some u ∧ copied u m = .ok v m') ∨
      m' = m ∧ m.store.read m.environment name = none ∧ ∃ r, v = .function 0 r := by
  simp only [readVariable, observe_bind] at h
  cases hu : m.store.read m.environment name with
  | some u =>
      rw [hu] at h
      exact .inl ⟨u, rfl, h⟩
  | none =>
      simp only [hu, observe_bind] at h
      obtain ⟨o, m₁, hx, h⟩ := bind_eq_ok.1 h
      obtain ⟨-, rfl⟩ := lift_eq_ok hx
      cases o with
      | some r => cases h; exact .inr ⟨rfl, rfl, r, rfl⟩
      | none => cases h

instance (name : String) (count : Nat) : Quiet (resolve name count) := by
  refine .bind fun o => ?_
  cases o with
  | some r => exact inferInstanceAs (Quiet (pure _))
  | none =>
      refine .bind fun o => ?_
      cases o with
      | some v => exact inferInstanceAs (Quiet (lift _))
      | none => exact inferInstanceAs (Quiet (raise _))

/-- A closure that is called is the value that was looked up. -/
theorem ofValue_eq_closure {name : String} {count : Nat} {v : Value} {c : Closure}
    (h : Callable.ofValue name count v = .ok (.closure c)) : v = .closure c := by
  unfold Callable.ofValue at h
  split at h
  · split at h <;> cases h
  · split at h <;> cases h
    rfl
  · cases h

/-- **A closure that is called by name is the one that a variable holds.** -/
theorem resolve_eq_closure {name : String} {count : Nat} {c : Closure} {m m' : Machine}
    (h : resolve name count m = .ok (.closure c) m') :
    m.store.read m.environment name = some (.closure c) := by
  simp only [resolve, observe_bind] at h
  cases hr : m.routines.lookup? name count with
  | some r => rw [hr] at h; cases h
  | none =>
      simp only [hr, observe_bind] at h
      cases hv : m.store.read m.environment name with
      | some v =>
          rw [hv] at h
          rw [ofValue_eq_closure (lift_eq_ok h).1]
      | none => rw [hv] at h; cases h

instance (name : String) (v : Value) : Tame (assign name v) :=
  .of_ok (fun _ => rfl) fun _ => ⟨rfl, rfl, rfl⟩

theorem assign_eq_ok {name : String} {v : Value} {u : Unit} {m m' : Machine}
    (h : assign name v m = .ok u m') :
    m' = m.withStore fun s => s.assign m.environment name v := by
  cases h; rfl

/-! ### Objects -/

instance (name : String) (v : Value) : Quiet (objectOf name v) := by
  cases v <;> (unfold objectOf; infer_instance)

theorem objectOf_eq_ok {name : String} {v : Value} {a : Address .object} {m m' : Machine}
    (h : objectOf name v m = .ok a m') : v = .object a ∧ m' = m := by
  cases v <;> cases h
  exact ⟨rfl, rfl⟩

instance (target : Value) (name : String) : Tame (readField target name) := by
  refine .bind fun a => ?_
  split
  · refine .bind fun o => ?_
    cases o with
    | some p => exact inferInstanceAs (Tame (pure _))
    | none => exact inferInstanceAs (Tame (pure _))
  · refine .bind fun o => ?_
    cases o with
    | some v => exact inferInstanceAs (Tame (copied v))
    | none => exact inferInstanceAs (Tame (raise _))

/-- What reading a field gives: a copy of what an object of the chain holds, or the prototype. -/
theorem readField_cases {target : Value} {name : String} {v : Value} {m m' : Machine}
    (h : readField target name m = .ok v m') :
    (∃ a u, m.store.member? a name = some u ∧ copied u m = .ok v m') ∨
      m' = m ∧ ∃ a, v = ((m.store.object a).proto.map Value.object).getD .nil := by
  obtain ⟨a, m₁, ha, hb⟩ := bind_eq_ok.1 h
  obtain ⟨-, rfl⟩ := objectOf_eq_ok ha
  split at hb
  · simp only [observe_bind] at hb
    refine .inr ?_
    cases hp : (m₁.store.object a).proto <;> rw [hp] at hb <;> cases hb <;>
      exact ⟨rfl, a, by rw [hp]; rfl⟩
  · simp only [observe_bind] at hb
    cases hu : m₁.store.member? a name with
    | some u => rw [hu] at hb; exact .inl ⟨a, u, hu, hb⟩
    | none => rw [hu] at hb; cases hb

instance (a : Address .object) (name : String) (count : Nat) : Quiet (method a name count) := by
  refine .bind fun o => ?_
  cases o with
  | some v => exact inferInstanceAs (Quiet (lift _))
  | none => exact inferInstanceAs (Quiet (raise _))

/-- **A closure that is called as a method is the one that an object of the chain holds.** -/
theorem method_eq_closure {a : Address .object} {name : String} {count : Nat} {c : Closure}
    {m m' : Machine} (h : method a name count m = .ok (.closure c) m') :
    m.store.member? a name = some (.closure c) := by
  simp only [method, observe_bind] at h
  cases hv : m.store.member? a name with
  | some v =>
      rw [hv] at h
      rw [ofValue_eq_closure (lift_eq_ok h).1]
  | none => rw [hv] at h; cases h

instance (a : Address .object) (v : Value) : Tame (assignProto a v) := by
  cases v with
  | object p =>
      refine .bind fun b => ?_
      split <;> infer_instance
  | _ => unfold assignProto; infer_instance

/-- Assigning a prototype changes nothing but the prototype, and what becomes the prototype does not
have the object on its chain. -/
theorem assignProto_cases {a : Address .object} {v : Value} {u : Unit} {m m' : Machine}
    (h : assignProto a v m = .ok u m') :
    ∃ p, (∀ q, p = some q → v = .object q ∧ a ∉ m.store.chain q) ∧
      m' = m.withStore fun s => s.setProto a p := by
  cases v with
  | object p =>
      simp only [assignProto, observe_bind] at h
      split at h
      · cases h
      · next hp =>
          cases h
          exact ⟨some p, fun q hq => by cases hq; exact ⟨rfl, by simpa using hp⟩, rfl⟩
  | nil => cases h; exact ⟨none, nofun, rfl⟩
  | _ => cases h

instance (target : Value) (name : String) (v : Value) : Tame (assignField target name v) := by
  refine .bind fun a => ?_
  split
  · infer_instance
  · exact .copied_bind v fun w s => s.setField a name w

/-- What assigning a field does: an object gets a prototype under one name, and a copy of the value
under every other name. -/
theorem assignField_cases {target : Value} {name : String} {v : Value} {u : Unit}
    {m m' : Machine} (h : assignField target name v m = .ok u m') :
    ∃ a, target = .object a ∧
      ((∃ p, (∀ q, p = some q → v = .object q ∧ a ∉ m.store.chain q) ∧
          m' = m.withStore fun s => s.setProto a p) ∨
        name ≠ Store.protoName ∧
          ∃ w m₁, copied v m = .ok w m₁ ∧ m' = m₁.withStore fun s => s.setField a name w) := by
  obtain ⟨a, m₁, ha, hb⟩ := bind_eq_ok.1 h
  obtain ⟨rfl, rfl⟩ := objectOf_eq_ok ha
  refine ⟨a, rfl, ?_⟩
  split at hb
  · exact .inl (assignProto_cases hb)
  · next hn =>
      obtain ⟨w, m₂, hw, hs⟩ := bind_eq_ok.1 hb
      cases hs
      exact .inr ⟨hn, w, m₂, hw, rfl⟩

instance : Tame newObject := .of_ok (fun _ => rfl) fun _ => ⟨rfl, rfl, rfl⟩

theorem newObject_eq_ok {v : Value} {m m' : Machine} (h : newObject m = .ok v m') :
    v = .object m.store.objects.fresh ∧ m' = m.withStore Store.newObject := by
  cases h; exact ⟨rfl, rfl⟩

/-! ### Closures and activations -/

instance (r : Routine) (byRef : Bool) : Tame (capture r byRef) where
  ok {m m' c} h := by
    unfold capture at h
    split at h <;> cases h
    exact ⟨rfl, rfl, rfl⟩
  failed {m m' f} h := by
    unfold capture at h
    split at h <;> cases h
  bare {m m' f} h := by
    unfold capture at h
    split at h <;> cases h
  unfinished {m m'} h := by
    unfold capture at h
    split at h <;> cases h
    exact ⟨rfl, rfl, rfl⟩
  ne_unfinished {m m'} hs h := by
    unfold capture at h
    split at h
    · cases h
    · next hn =>
        have hsome := hs.snapshot m.environment
        rw [hn] at hsome
        cases hsome

/-- **A closure captures a snapshot of what can be seen.** -/
theorem capture_eq_ok {r : Routine} {byRef : Bool} {c : Closure} {m m' : Machine}
    (h : capture r byRef m = .ok c m') :
    ∃ a, m.store.snapshot m.environment = some (a, m'.store) ∧
      c = ⟨m.closures + 1, r, a, byRef⟩ := by
  unfold capture at h
  split at h
  · next a s hs => cases h; exact ⟨a, hs, rfl⟩
  · cases h

instance (callable : Callable) : Tame (activate callable) := by
  cases callable with
  | function r =>
      exact .of_ok (g := fun m => m.withStore fun s => s.newScope ∅) (fun _ => rfl)
        fun _ => ⟨rfl, rfl, rfl⟩
  | closure c =>
      exact .of_ok (g := fun m =>
        (((m.withStore fun s => s.newScope ∅).withStore fun s => s.newScope ∅).report
          (.installed 2)).report (.entered 3)) (fun _ => rfl) fun _ => ⟨rfl, rfl, rfl⟩

/-- The environment in which a routine or closure runs, if it is made on the given store. -/
def scopesFor (s : Store) : Callable → Environment
  | .function _ => .single s.scopes.fresh
  | .closure c =>
      ((Environment.single s.scopes.fresh).enter c.captured).enter (s.newScope ∅).scopes.fresh

/-- The store on which the scopes of an activation have been made. -/
def storeFor (s : Store) : Callable → Store
  | .function _ => s.newScope ∅
  | .closure _ => (s.newScope ∅).newScope ∅

/-- **An activation starts with new scopes**, and a closure brings the one it captured. -/
theorem activate_eq_ok {callable : Callable} {e : Environment} {m m' : Machine}
    (h : activate callable m = .ok e m') :
    e = scopesFor m.store callable ∧ m'.store = storeFor m.store callable := by
  cases callable <;> cases h <;> exact ⟨rfl, rfl⟩

instance (e : Environment) (name : String) (v : Value) : Tame (bindValue e name v) :=
  inferInstanceAs (Tame (modifyStore _))

theorem bindValue_eq_ok {e : Environment} {name : String} {v : Value} {u : Unit}
    {m m' : Machine} (h : bindValue e name v m = .ok u m') :
    m' = m.withStore fun s => s.create e.innermost name v := by
  cases h; rfl

instance (e : Environment) (receiver : Option (Address .object)) :
    Tame (bindReceiver e receiver) := by
  cases receiver <;> (unfold bindReceiver; infer_instance)

theorem bindReceiver_eq_ok {e : Environment} {receiver : Option (Address .object)} {u : Unit}
    {m m' : Machine} (h : bindReceiver e receiver m = .ok u m') :
    m' = m ∨ ∃ a, m' = m.withStore fun s => s.create e.innermost "this" (.object a) := by
  cases receiver with
  | none => cases h; exact .inl rfl
  | some a => exact .inr ⟨a, bindValue_eq_ok h⟩

instance (e : Environment) (name : String) (v : Value) : Tame (bindCopy e name v) :=
  .copied_bind v fun w s => s.create e.innermost name w

theorem bindCopy_eq_ok {e : Environment} {name : String} {v : Value} {u : Unit}
    {m m' : Machine} (h : bindCopy e name v m = .ok u m') :
    ∃ w m₁, copied v m = .ok w m₁ ∧ m' = m₁.withStore fun s => s.create e.innermost name w := by
  obtain ⟨w, m₁, hw, h⟩ := bind_eq_ok.1 h
  exact ⟨w, m₁, hw, bindValue_eq_ok h⟩

instance (e : Environment) (name variableName : String) :
    Tame (bindVariable e name variableName) := by
  refine .bind fun o => ?_
  cases o with
  | some b => exact inferInstanceAs (Tame (modifyStore _))
  | none =>
      refine ⟨fun h => ?_, fun h => ?_, fun h => ?_, fun h => ?_, fun hs h => ?_⟩
      · obtain ⟨v, m₁, hv, hb⟩ := bind_eq_ok.1 h
        exact (Tame.ok hv).trans (Tame.ok hb)
      · obtain hv | ⟨v, m₁, hv, hb⟩ := bind_eq_error.1 h
        · exact Tame.failed hv
        · cases hb
      · obtain hv | ⟨v, m₁, hv, hb⟩ := bind_eq_error.1 h
        · exact Tame.bare hv
        · cases hb
      · obtain hv | ⟨v, m₁, hv, hb⟩ := bind_eq_error.1 h
        · exact Tame.unfinished hv
        · cases hb
      · obtain hv | ⟨v, m₁, hv, hb⟩ := bind_eq_error.1 h
        · exact Tame.ne_unfinished hs hv
        · cases hb

/-- **A reference parameter is bound to the slot of the caller's variable**, or to a routine if
there is no such variable. -/
theorem bindVariable_eq_ok {e : Environment} {name variableName : String} {u : Unit}
    {m m' : Machine} (h : bindVariable e name variableName m = .ok u m') :
    (∃ b, m.store.lookup m.environment variableName = some b ∧
      m' = m.withStore fun s => s.share e.innermost name b.slot) ∨
    m.store.lookup m.environment variableName = none ∧
      ∃ r, m' = m.withStore fun s => s.create e.innermost name (.function 0 r) := by
  simp only [bindVariable, observe_bind] at h
  cases hb : m.store.lookup m.environment variableName with
  | some b =>
      rw [hb] at h
      cases h
      exact .inl ⟨b, rfl, rfl⟩
  | none =>
      rw [hb] at h
      obtain ⟨v, m₁, hv, hc⟩ := bind_eq_ok.1 h
      have hr : m.store.read m.environment variableName = none := by simp [Store.read, hb]
      obtain ⟨w, hw, -⟩ | ⟨rfl, -, r, rfl⟩ := readVariable_eq_ok hv
      · rw [hr] at hw; cases hw
      · exact .inr ⟨rfl, r, bindValue_eq_ok hc⟩

/-! ### Reports and the console -/

instance (e : Event) : Tame (report e) := .of_ok (fun _ => rfl) fun _ => ⟨rfl, rfl, rfl⟩

instance (label : String) : Tame (reportStatement label) :=
  .of_ok (fun _ => rfl) fun _ => ⟨rfl, rfl, rfl⟩

instance (line : String) : Tame (print line) := .of_ok (fun _ => rfl) fun _ => ⟨rfl, rfl, rfl⟩

instance (lines : List String) : Tame (printAll lines) :=
  .of_ok (fun _ => rfl) fun _ => ⟨rfl, rfl, rfl⟩

instance (b : Builtin) : Tame (readLine b) where
  ok {m m' a} h := by
    unfold readLine at h
    split at h <;> cases h
    exact ⟨rfl, rfl, rfl⟩
  failed {m m' f} h := by
    unfold readLine at h
    split at h <;> cases h
    rfl
  bare {m m' f} h := by
    unfold readLine at h
    split at h <;> cases h
    rfl
  unfinished {m m'} h := by
    unfold readLine at h
    split at h <;> cases h
  ne_unfinished {m m'} _ h := by
    unfold readLine at h
    split at h <;> cases h

instance (line : String) : Quiet (integerOf line) := by
  unfold integerOf
  split <;> infer_instance

theorem integerOf_eq_ok {line : String} {v : Value} {m m' : Machine}
    (h : integerOf line m = .ok v m') : ∃ i, v = .int i ∧ m' = m := by
  unfold integerOf at h
  cases hi : Decimal.read? (Text.trim line.toList) with
  | some i => rw [hi] at h; cases h; exact ⟨i, rfl, rfl⟩
  | none => rw [hi] at h; cases h

/-- A step that leaves the cells alone. -/
class Storeless (x : Eval α) : Prop where
  ok : ∀ {m m' : Machine} {a : α}, x m = .ok a m' → m'.store = m.store

instance (x : Eval α) [Quiet x] : Storeless x := ⟨fun h => by rw [Quiet.ok h]⟩

instance (e : Event) : Storeless (report e) := ⟨fun h => by cases h; rfl⟩

instance (label : String) : Storeless (reportStatement label) := ⟨fun h => by cases h; rfl⟩

instance (line : String) : Storeless (print line) := ⟨fun h => by cases h; rfl⟩

instance (lines : List String) : Storeless (printAll lines) := ⟨fun h => by cases h; rfl⟩

instance (b : Builtin) : Storeless (readLine b) where
  ok h := by
    unfold readLine at h
    split at h <;> cases h
    rfl

end Eval

/-! ### Scripts, step by step -/

namespace Script

variable {name : String} {args : List Expr}

theorem evaluateCall_of_builtin {b : Builtin} (h : Builtin.ofName? name = some b) :
    evaluateCall (.mk (.name name) args) = call (.builtin b args) done := by
  rw [evaluateCall, h]
  rfl

theorem evaluateCall_of_routine (h : Builtin.ofName? name = none) :
    evaluateCall (.mk (.name name) args) = act (Eval.resolve name args.length) fun callable =>
      call (.invoke name callable args none) done := by
  rw [evaluateCall, h]
  rfl

theorem prompt_eq (b : Builtin) : prompt b args =
    if 1 < args.length then act (Eval.raise (.manyPrompts b)) done
    else call (.evaluateAll args) fun prompts =>
      act (Eval.printAll (prompts.map Value.printed)) fun _ =>
        act (Eval.readLine b) fun line =>
          if b = .readInteger then act (Eval.integerOf line) done else done (.text line) := rfl

theorem invoke_eq (label : String) (callable : Callable) (receiver : Option (Address .object)) :
    invoke label callable args receiver =
      if callable.routine.arity = args.length then
        act (Eval.activate callable) fun e =>
          act (Eval.bindReceiver e receiver) fun _ =>
            call (.bind e (callable.routine.params.zip args)) fun _ =>
              inside (.activation label callable e) callable.routine.body fun status =>
                done status.value
      else act (Eval.raise (.undefinedFunction label args.length)) done := rfl

theorem bindArgument_variable (e : Environment) (p : Param) : bindArgument e p (.variable name) =
    if p.byRef then act (Eval.bindVariable e p.name name) done
    else call (.evaluate (.variable name)) fun v => act (Eval.bindCopy e p.name v) done := rfl

end Script
end ProtoScript
