import ProtoScript.Proofs.EveryStep
/-!
# What every run keeps

Some relations between machines hold from the start of a task to its end because they
hold over every step: that the counter of closures is not set back, that lines are
read from the front.  Such a relation is one that goes on from step to step and that
survives when a machine is taken in somewhere and taken back (`Machine.Lasting`); if
every step of every script keeps it, then every task does, on every way out
(`perform_keeps`).  So it is with each property of steps that is passed on to what is
made of them (`perform_of_steps`).

Most steps change nothing but cells and what is reported (`Eval.Inward`).  For a
relation that looks at neither of these, only the creation of a closure and the steps
on the console are left to be considered (`Eval.steps_of_inward`).
-/

namespace ProtoScript

namespace Surroundings

variable {α : Type} {p : Surroundings} {body : Eval α} {m m' : Machine}

theorem run_eq_ok {r : α} :
    p.run body m = .ok r m' ↔
      ∃ m₁, body (p.enter m) = .ok r m₁ ∧ m' = p.leave m.environment m₁ := by
  unfold run
  cases hb : body (p.enter m) with
  | ok a m₁ =>
      constructor
      · rintro ⟨⟩
        exact ⟨m₁, rfl, rfl⟩
      · rintro ⟨_, ⟨⟩, rfl⟩
        rfl
  | error h m₁ =>
      constructor
      · rintro ⟨⟩
      · rintro ⟨_, ⟨⟩, -⟩

theorem run_eq_error {h : Halt} :
    p.run body m = .error h m' ↔
      ∃ e m₁, body (p.enter m) = .error e m₁ ∧ h = p.halted m₁ e ∧
        m' = p.leave m.environment m₁ := by
  unfold run
  cases hb : body (p.enter m) with
  | ok a m₁ =>
      constructor
      · rintro ⟨⟩
      · rintro ⟨_, _, ⟨⟩, -⟩
  | error e m₁ =>
      constructor
      · rintro ⟨⟩
        exact ⟨e, m₁, rfl, rfl, rfl⟩
      · rintro ⟨_, _, ⟨⟩, rfl, rfl⟩
        rfl

end Surroundings

/-! ### Properties of runs -/

/-- A property of steps that is passed on to what is made of them. -/
structure Eval.Composes (P : ∀ {β : Type}, Eval β → Prop) : Prop where
  pure : ∀ {β : Type} (b : β), P (pure b : Eval β)
  stop : ∀ {β : Type}, P (Eval.stop : Eval β)
  bind : ∀ {β γ : Type} {x : Eval β} {f : β → Eval γ}, P x → (∀ b, P (f b)) → P (x >>= f)
  inside : ∀ {β : Type} {x : Eval β} (p : Surroundings), P x → P (p.run x)

namespace Script

variable {α : Type} {answer : (t : Task) → Eval t.Result} {P : ∀ {β : Type}, Eval β → Prop}
  {C : Task → Prop} {I : Surroundings → List Stmt → Prop}

theorem run_act {β : Type} (x : Eval β) (next : β → Script α) :
    (act x next).run answer = x >>= fun b => (next b).run answer := by
  funext m
  simp only [run, bind, EStateM.bind]
  cases x m <;> rfl

theorem run_call (t : Task) (next : t.Result → Script α) :
    (call t next).run answer = answer t >>= fun r => (next r).run answer := by
  funext m
  simp only [run, bind, EStateM.bind]
  cases answer t m <;> rfl

theorem run_elsewhere (p : Surroundings) (l : List Stmt) (next : Status → Script α) :
    (inside p l next).run answer
      = p.run (answer (.executeAll l)) >>= fun s => (next s).run answer := by
  funext m
  simp only [run, bind, EStateM.bind]
  cases p.run (answer (.executeAll l)) m <;> rfl

/-- A script has a property that its steps have, and the tasks that it calls for. -/
theorem Every.run (hP : Eval.Composes P) (ha : ∀ t, P (answer t)) :
    ∀ {s : Script α}, s.Every P C I → P (s.run answer)
  | done a, _ => hP.pure a
  | act x next, h => by
      rw [run_act]
      exact hP.bind h.1 fun b => (h.2 b).run hP ha
  | call t next, h => by
      rw [run_call]
      exact hP.bind (ha t) fun r => Every.run hP ha (h.2 r)
  | inside p l next, h => by
      rw [run_elsewhere]
      exact hP.bind (hP.inside p (ha (.executeAll l))) fun s => Every.run hP ha (h.2 s)

end Script

/-- **What holds of the steps holds of every task**, under every bound. -/
theorem perform_of_steps {P : ∀ {β : Type}, Eval β → Prop} (hP : Eval.Composes P)
    (hsteps : Eval.Steps P) (n : Nat) (t : Task) : P (perform n t) := by
  induction n generalizing t with
  | zero => exact hP.stop
  | succ n ih => exact (Script.every hsteps t).run hP ih

/-! ### Relations that last -/

/-- A relation that goes on from machine to machine, and on to a machine that is taken back. -/
structure Machine.Lasting (R : Machine → Machine → Prop) : Prop where
  refl : ∀ m, R m m
  trans : ∀ {m₁ m₂ m₃}, R m₁ m₂ → R m₂ m₃ → R m₁ m₃
  leave : ∀ (p : Surroundings) {m m'}, R (p.enter m) m' → R m (p.leave m.environment m')

namespace Eval

variable {α β : Type} {R : Machine → Machine → Prop}

/-- However a step ends, the machine then is related to the machine before. -/
class Keeps (R : Machine → Machine → Prop) (x : Eval α) : Prop where
  ok : ∀ {m m' : Machine} {a : α}, x m = .ok a m' → R m m'
  error : ∀ {m m' : Machine} {h : Halt}, x m = .error h m' → R m m'

/-- A step that always succeeds. -/
theorem Keeps.of_ok {x : Eval α} {f : Machine → α} {g : Machine → Machine}
    (h : ∀ m, x m = .ok (f m) (g m)) (hg : ∀ m : Machine, R m (g m)) : Keeps R x where
  ok hx := by
    rw [h] at hx
    cases hx
    exact hg _
  error hx := by
    rw [h] at hx
    cases hx

theorem Keeps.bind (hR : Machine.Lasting R) {x : Eval α} {f : α → Eval β} (hx : Keeps R x)
    (hf : ∀ a, Keeps R (f a)) : Keeps R (x >>= f) where
  ok h := by
    obtain ⟨a, m₁, hx', ha⟩ := bind_eq_ok.1 h
    exact hR.trans (hx.ok hx') ((hf a).ok ha)
  error h := by
    rcases bind_eq_error.1 h with hx' | ⟨a, m₁, hx', ha⟩
    · exact hx.error hx'
    · exact hR.trans (hx.ok hx') ((hf a).error ha)

theorem Keeps.inside (hR : Machine.Lasting R) {x : Eval α} (hx : Keeps R x) (p : Surroundings) :
    Keeps R (p.run x) where
  ok h := by
    obtain ⟨m₁, hx', rfl⟩ := Surroundings.run_eq_ok.1 h
    exact hR.leave p (hx.ok hx')
  error h := by
    obtain ⟨e, m₁, hx', rfl, rfl⟩ := Surroundings.run_eq_error.1 h
    exact hR.leave p (hx.error hx')

theorem Keeps.composes (hR : Machine.Lasting R) : Composes (Keeps R) where
  pure b :=
    { ok := by
        rintro m _ _ ⟨⟩
        exact hR.refl m
      error := by rintro _ _ _ ⟨⟩ }
  stop :=
    { ok := by rintro _ _ _ ⟨⟩
      error := by
        rintro m _ _ ⟨⟩
        exact hR.refl m }
  bind hx hf := hx.bind hR hf
  inside p hx := hx.inside hR p

end Eval

/-- What is kept to the end is kept on the way. -/
theorem Script.Leads.keeps {α : Type} {answer : (t : Task) → Eval t.Result}
    {R : Machine → Machine → Prop} {C : Task → Prop} {I : Surroundings → List Stmt → Prop}
    (hR : Machine.Lasting R) (ha : ∀ t, Eval.Keeps R (answer t)) {s s' : Script α}
    {m m' : Machine} (h : s.Leads answer m s' m') (hs : s.Every (Eval.Keeps R) C I) : R m m' := by
  induction h with
  | refl => exact hR.refl _
  | act hx _ ih => exact hR.trans (hs.1.ok hx) (ih (hs.2 _))
  | call hr _ ih => exact hR.trans ((ha _).ok hr) (ih (hs.2 _))
  | @inside p l _ _ _ _ _ _ hr _ ih =>
      exact hR.trans (((ha (.executeAll l)).inside hR p).ok hr) (ih (hs.2 _))

/-- **What the steps keep every task keeps, however it ends.** -/
theorem perform_keeps {R : Machine → Machine → Prop} (hR : Machine.Lasting R)
    (hsteps : Eval.Steps (Eval.Keeps R)) (n : Nat) (t : Task) : Eval.Keeps R (perform n t) :=
  perform_of_steps (Eval.Keeps.composes hR) hsteps n t

/-! ### Steps that change cells alone -/

/-- The machine is another one only in its cells and in what was reported. -/
structure Machine.Agrees (m m' : Machine) : Prop extends m.Level m' where
  console : m'.console = m.console
  closures : m'.closures = m.closures

theorem Machine.Agrees.refl (m : Machine) : m.Agrees m := ⟨.refl m, rfl, rfl⟩

namespace Eval

variable {α β : Type}

/-- A step that changes nothing but cells and what is reported. -/
abbrev Inward (x : Eval α) : Prop := Keeps Machine.Agrees x

instance (x : Eval α) [Quiet x] : Inward x where
  ok h := Quiet.ok h ▸ .refl _
  error h := Quiet.error h ▸ .refl _

theorem Inward.bind {x : Eval α} {f : α → Eval β} [Inward x] (hf : ∀ a, Inward (f a)) :
    Inward (x >>= f) where
  ok h := by
    obtain ⟨a, m₁, hx, ha⟩ := bind_eq_ok.1 h
    have h₁ := Keeps.ok (R := Machine.Agrees) hx
    have h₂ := (hf a).ok ha
    exact ⟨h₁.toLevel.trans h₂.toLevel, h₂.console.trans h₁.console,
      h₂.closures.trans h₁.closures⟩
  error h := by
    rcases bind_eq_error.1 h with hx | ⟨a, m₁, hx, ha⟩
    · exact Keeps.error (R := Machine.Agrees) hx
    · have h₁ := Keeps.ok (R := Machine.Agrees) hx
      have h₂ := (hf a).error ha
      exact ⟨h₁.toLevel.trans h₂.toLevel, h₂.console.trans h₁.console,
        h₂.closures.trans h₁.closures⟩

instance (f : Store → Store) : Inward (modifyStore f) :=
  Keeps.of_ok (fun _ => rfl) fun _ => ⟨⟨rfl, rfl, rfl⟩, rfl, rfl⟩

instance (f : Store → Option (α × Store)) : Inward (copying f) where
  ok h := by
    unfold copying at h
    split at h <;> cases h
    exact ⟨⟨rfl, rfl, rfl⟩, rfl, rfl⟩
  error h := by
    unfold copying at h
    split at h <;> cases h
    exact ⟨⟨rfl, rfl, rfl⟩, rfl, rfl⟩

instance (v : Value) : Inward (copied v) := by
  cases v <;> (unfold copied; infer_instance)

instance (v : Value) : Inward (released v) := by
  cases v <;> (unfold released; infer_instance)

instance (e : Event) : Inward (report e) :=
  Keeps.of_ok (fun _ => rfl) fun _ => ⟨⟨rfl, rfl, rfl⟩, rfl, rfl⟩

instance (label : String) : Inward (reportStatement label) :=
  Keeps.of_ok (fun _ => rfl) fun _ => ⟨⟨rfl, rfl, rfl⟩, rfl, rfl⟩

instance (name : String) : Inward (readVariable name) := by
  refine .bind fun o => ?_
  cases o with
  | some v => exact inferInstanceAs (Inward (copied v))
  | none =>
      refine .bind fun r => .bind fun o => ?_
      cases o with
      | some r => exact inferInstanceAs (Inward (pure _))
      | none => exact inferInstanceAs (Inward (raise _))

instance (name : String) (v : Value) : Inward (assign name v) :=
  Keeps.of_ok (fun _ => rfl) fun _ => ⟨⟨rfl, rfl, rfl⟩, rfl, rfl⟩

instance (target : Value) (name : String) : Inward (readField target name) := by
  refine .bind fun a => ?_
  split
  · refine .bind fun o => ?_
    cases o with
    | some p => exact inferInstanceAs (Inward (pure _))
    | none => exact inferInstanceAs (Inward (pure _))
  · refine .bind fun o => ?_
    cases o with
    | some v => exact inferInstanceAs (Inward (copied v))
    | none => exact inferInstanceAs (Inward (raise _))

instance (a : Address .object) (v : Value) : Inward (assignProto a v) := by
  cases v with
  | object p =>
      refine .bind fun b => ?_
      split <;> infer_instance
  | _ => unfold assignProto; infer_instance

instance (target : Value) (name : String) (v : Value) : Inward (assignField target name v) := by
  refine .bind fun a => ?_
  split
  · infer_instance
  · exact .bind fun w => inferInstance

instance : Inward newObject :=
  Keeps.of_ok (fun _ => rfl) fun _ => ⟨⟨rfl, rfl, rfl⟩, rfl, rfl⟩

instance (callable : Callable) : Inward (activate callable) := by
  have hscope : Inward newScope :=
    Keeps.of_ok (fun _ => rfl) fun _ => ⟨⟨rfl, rfl, rfl⟩, rfl, rfl⟩
  cases callable with
  | function r => exact .bind fun a => inferInstance
  | closure c => exact .bind fun a => .bind fun b => .bind fun _ => .bind fun _ => inferInstance

instance (e : Environment) (name : String) (v : Value) : Inward (bindValue e name v) :=
  inferInstanceAs (Inward (modifyStore _))

instance (e : Environment) (receiver : Option (Address .object)) :
    Inward (bindReceiver e receiver) := by
  cases receiver <;> (unfold bindReceiver; infer_instance)

instance (e : Environment) (name : String) (v : Value) : Inward (bindCopy e name v) :=
  .bind fun _ => inferInstance

instance (e : Environment) (name variableName : String) :
    Inward (bindVariable e name variableName) := by
  refine .bind fun o => ?_
  cases o with
  | some b => exact inferInstanceAs (Inward (modifyStore _))
  | none => exact .bind fun v => inferInstance

/-- **Every step changes cells alone**, but the creation of a closure and those on the console. -/
theorem steps_of_inward {R : Machine → Machine → Prop}
    (hR : ∀ {m m' : Machine}, m.Agrees m' → R m m')
    (hcapture : ∀ r byRef, Keeps R (capture r byRef)) (hprint : ∀ line, Keeps R (print line))
    (hprintAll : ∀ lines, Keeps R (printAll lines)) (hreadLine : ∀ b, Keeps R (readLine b)) :
    Steps (Keeps R) := by
  have hinward : ∀ {β : Type} (x : Eval β), Inward x → Keeps R x := fun x hx =>
    ⟨fun h => hR (hx.ok h), fun h => hR (hx.error h)⟩
  -- For the four steps that are not inward there is no instance, and the hypotheses answer.
  constructor <;> intros <;>
    first
      | exact hinward _ inferInstance
      | exact hcapture _ _
      | exact hprint _
      | exact hprintAll _
      | exact hreadLine _

end Eval
end ProtoScript
