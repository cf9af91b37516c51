import ProtoScript.Proofs.Balance
/-!
# Creations of closures

A closure is made where a lambda is evaluated: as an expression, or as the
argument of a call.  It gets the next number, and the counter is never set back.
So two creations of one run have different numbers (`Creation.ext_id`), however
deep in the run and however far from each other they are.

The argument needs an order of the moments.  A script is followed by steps that
are determined, so of two tasks that it opens one has ended, with a result,
before the other one starts (`Moment.Before`).
-/

namespace ProtoScript

/-! ### The counter -/

/-- The counter of closures is not set back. -/
abbrev Machine.Counts (m m' : Machine) : Prop := m.closures ≤ m'.closures

theorem Surroundings.closures_enter (p : Surroundings) (m : Machine) :
    (p.enter m).closures = m.closures := by
  cases p <;> rfl

theorem Surroundings.closures_leave (p : Surroundings) (e : Environment) (m : Machine) :
    (p.leave e m).closures = m.closures := by
  cases p <;> rfl

theorem Machine.lasting_counts : Lasting Counts where
  refl _ := Nat.le_refl _
  trans := Nat.le_trans
  leave p m m' h := by
    show m.closures ≤ (p.leave m.environment m').closures
    rw [p.closures_leave, ← p.closures_enter]
    exact h

namespace Eval

instance {α : Type} (x : Eval α) [Inward x] : Keeps Machine.Counts x where
  ok h := Nat.le_of_eq (Keeps.ok (R := Machine.Agrees) h).closures.symm
  error h := Nat.le_of_eq (Keeps.error (R := Machine.Agrees) h).closures.symm

/-- A closure gets the next number. -/
theorem closures_of_capture {r : Routine} {byRef : Bool} {c : Closure} {m m' : Machine}
    (h : capture r byRef m = .ok c m') : m'.closures = m.closures + 1 ∧ c.id = m'.closures := by
  unfold capture at h
  split at h <;> cases h
  exact ⟨rfl, rfl⟩

instance (r : Routine) (byRef : Bool) : Keeps Machine.Counts (capture r byRef) where
  ok {m m' c} h := by
    have hcount := (closures_of_capture h).1
    show m.closures ≤ m'.closures
    omega
  error h := by
    unfold capture at h
    split at h <;> cases h
    exact Nat.le_refl _

instance (line : String) : Keeps Machine.Counts (print line) :=
  .of_ok (fun _ => rfl) fun _ => Nat.le_refl _

instance (lines : List String) : Keeps Machine.Counts (printAll lines) :=
  .of_ok (fun _ => rfl) fun _ => Nat.le_refl _

instance (b : Builtin) : Keeps Machine.Counts (readLine b) where
  ok h := by
    unfold readLine at h
    split at h <;> cases h
    exact Nat.le_refl _
  error h := by
    unfold readLine at h
    split at h <;> cases h
    exact Nat.le_refl _

/-- No step sets the counter back. -/
theorem steps_counts : Steps (Keeps Machine.Counts) :=
  steps_of_inward (fun h => Nat.le_of_eq h.closures.symm) (fun _ _ => inferInstance)
    (fun _ => inferInstance) (fun _ => inferInstance) fun _ => inferInstance

end Eval

/-- **No task sets the counter back.** -/
theorem perform_counts (n : Nat) (t : Task) : Eval.Keeps Machine.Counts (perform n t) :=
  perform_keeps Machine.lasting_counts Eval.steps_counts n t

/-! ### The order of the moments -/

/-- What is left of a script from a machine on is determined: of two points that it leads to, one
leads to the other. -/
theorem Script.Leads.total {α : Type} {answer : (t : Task) → Eval t.Result} {s s₁ s₂ : Script α}
    {m m₁ m₂ : Machine} (h₁ : s.Leads answer m s₁ m₁) (h₂ : s.Leads answer m s₂ m₂) :
    s₁.Leads answer m₁ s₂ m₂ ∨ s₂.Leads answer m₂ s₁ m₁ := by
  induction h₁ with
  | refl => exact .inl h₂
  | act hx h ih =>
      cases h₂ with
      | refl => exact .inr (.act hx h)
      | act hy h' =>
          cases hx.symm.trans hy
          exact ih h'
  | call hr h ih =>
      cases h₂ with
      | refl => exact .inr (.call hr h)
      | call hr' h' =>
          cases hr.symm.trans hr'
          exact ih h'
  | inside hr h ih =>
      cases h₂ with
      | refl => exact .inr (.inside hr h)
      | inside hr' h' =>
          cases hr.symm.trans hr'
          exact ih h'

namespace Moment

variable {a b c d : Moment} {m m' : Machine}

/-- A task has ended, with a result, and no closure of it is counted later than the other task. -/
def Before (b c : Moment) : Prop :=
  ∃ r m, perform b.fuel b.task b.machine = .ok r m ∧ m.closures ≤ c.machine.closures

/-- What a script has come to opens a moment. -/
inductive Shows (a : Moment) {α : Type} : Script α → Machine → Moment → Prop where
  /-- A call. -/
  | call {t : Task} {next : t.Result → Script α} {m : Machine} :
      Shows a (.call t next) m (a.call t m)
  /-- Statements that are executed elsewhere. -/
  | inside {p : Surroundings} {l : List Stmt} {next : Status → Script α} {m : Machine} :
      Shows a (.inside p l next) m (a.inside p l m)

theorem Opens.shows (h : a.Opens b) : 0 < a.fuel ∧ ∃ s m, a.Shows s m b ∧
    a.task.script.Leads (perform (a.fuel - 1)) a.machine s m := by
  cases h with
  | call ha h => exact ⟨ha, _, _, .call, h⟩
  | inside ha h => exact ⟨ha, _, _, .inside, h⟩

theorem Shows.closures {α : Type} {s : Script α} (h : a.Shows s m b) :
    b.machine.closures = m.closures := by
  cases h with
  | call => rfl
  | inside => exact Surroundings.closures_enter _ _

/-- Wherever a script leads, closures have been counted on. -/
theorem closures_le_of_leads {s s' : Script a.task.Result}
    (h : a.task.script.Leads (perform (a.fuel - 1)) a.machine s m)
    (h' : s.Leads (perform (a.fuel - 1)) m s' m') : m.closures ≤ m'.closures :=
  h'.keeps Machine.lasting_counts (perform_counts _)
    (h.every (Script.every Eval.steps_counts a.task))

theorem Opens.closures_le (h : a.Opens b) : a.machine.closures ≤ b.machine.closures := by
  obtain ⟨-, s, m, hs, hl⟩ := h.shows
  rw [hs.closures]
  exact closures_le_of_leads .refl hl

theorem Within.closures_le (h : a.Within b) : a.machine.closures ≤ b.machine.closures := by
  induction h with
  | refl => exact Nat.le_refl _
  | tail _ hb ih => exact Nat.le_trans ih hb.closures_le

/-- A script that goes on after a task has its result. -/
theorem Shows.before {s s' : Script a.task.Result} (hs : a.Shows s m b) (hs' : a.Shows s' m' c)
    (hl : a.task.script.Leads (perform (a.fuel - 1)) a.machine s m)
    (h : s.Leads (perform (a.fuel - 1)) m s' m') : b = c ∨ b.Before c := by
  cases hs with
  | call =>
      cases h with
      | refl => cases hs'; exact .inl rfl
      | call hr h =>
          refine .inr ⟨_, _, hr, ?_⟩
          rw [hs'.closures]
          exact closures_le_of_leads (hl.trans (.call hr .refl)) h
  | @inside p =>
      cases h with
      | refl => cases hs'; exact .inl rfl
      | inside hr h =>
          obtain ⟨m₂, hb, rfl⟩ := Surroundings.run_eq_ok.1 hr
          refine .inr ⟨_, m₂, hb, ?_⟩
          rw [hs'.closures, ← p.closures_leave m.environment]
          exact closures_le_of_leads (hl.trans (.inside hr .refl)) h

/-- **Of two tasks that a script opens, one ends before the other starts.** -/
theorem Opens.total (hb : a.Opens b) (hc : a.Opens c) : b = c ∨ b.Before c ∨ c.Before b := by
  obtain ⟨-, s, m, hs, hl⟩ := hb.shows
  obtain ⟨-, s', m', hs', hl'⟩ := hc.shows
  rcases hl.total hl' with h | h
  · rcases hs.before hs' hl h with h | h
    · exact .inl h
    · exact .inr (.inl h)
  · rcases hs'.before hs hl' h with h | h
    · exact .inl h.symm
    · exact .inr (.inr h)

/-- A task of which the result is known has the results of what it opens. -/
theorem Opens.ends (h : a.Opens b) {r : a.task.Result}
    (hr : perform a.fuel a.task a.machine = .ok r m) :
    ∃ r' m', perform b.fuel b.task b.machine = .ok r' m' ∧ m'.closures ≤ m.closures := by
  obtain ⟨ha, s, m₁, hs, hl⟩ := h.shows
  rw [perform_eq_of_leads ha hl] at hr
  have hend := Script.leads_of_run hr
  cases hs with
  | call =>
      cases hend with
      | call hr' h => exact ⟨_, _, hr', closures_le_of_leads (hl.trans (.call hr' .refl)) h⟩
  | @inside p =>
      cases hend with
      | inside hr' h =>
          obtain ⟨m₂, hb, rfl⟩ := Surroundings.run_eq_ok.1 hr'
          refine ⟨_, m₂, hb, ?_⟩
          rw [← p.closures_leave m₁.environment]
          exact closures_le_of_leads (hl.trans (.inside hr' .refl)) h

/-! ### Creations -/

end Moment

/-- The lambda that a task evaluates first, and whether the closure captures by reference. -/
def Task.lambda? : Task → Option (Routine × Bool)
  | .evaluate (.lambda r) => some (r, false)
  | .bind _ ((p, .lambda r) :: _) => some (r, p.byRef)
  | _ => none

/-- A lambda is evaluated before anything else. -/
theorem Task.script_of_lambda? {t : Task} {r : Routine} {byRef : Bool}
    (h : t.lambda? = some (r, byRef)) :
    ∃ next : Closure → Script t.Result, t.script = .act (Eval.capture r byRef) next := by
  unfold lambda? at h
  split at h
  · cases h
    exact ⟨_, rfl⟩
  · cases h
    exact ⟨_, rfl⟩
  · cases h

namespace Moment

variable {a b c : Moment} {d : Closure} {m m' : Machine}

/-- A lambda is evaluated at a moment: the closure is made, on the machine `m`. -/
def Creates (a : Moment) (d : Closure) (m : Machine) : Prop :=
  0 < a.fuel ∧ ∃ r byRef, a.task.lambda? = some (r, byRef) ∧
    Eval.capture r byRef a.machine = .ok d m

/-- The number of a closure is the next one. -/
theorem Creates.id_eq (h : a.Creates d m) : d.id = a.machine.closures + 1 := by
  obtain ⟨-, r, byRef, -, hc⟩ := h
  obtain ⟨hm, hd⟩ := Eval.closures_of_capture hc
  rw [hd, hm]

theorem Creates.closures (h : a.Creates d m) : m.closures = d.id := by
  obtain ⟨-, r, byRef, -, hc⟩ := h
  exact (Eval.closures_of_capture hc).2.symm

/-- It captures a snapshot of what can be seen. -/
theorem Creates.snapshot (h : a.Creates d m) :
    a.machine.store.snapshot a.machine.environment = some (d.captured, m.store) := by
  obtain ⟨-, r, byRef, -, hc⟩ := h
  obtain ⟨x, hs, rfl⟩ := Eval.capture_eq_ok hc
  exact hs

/-- Everything else that the moment does comes after the creation. -/
theorem Creates.leads (h : a.Creates d m) {s : Script a.task.Result}
    (hl : a.task.script.Leads (perform (a.fuel - 1)) a.machine s m')
    (hs : ∀ β (x : Eval β) next, s ≠ .act x next) : d.id ≤ m'.closures := by
  obtain ⟨-, r, byRef, ht, hc⟩ := h
  obtain ⟨next, hn⟩ := Task.script_of_lambda? ht
  have hmake : a.task.script.Leads (perform (a.fuel - 1)) a.machine (next d) m := by
    rw [hn]
    exact .act hc .refl
  rw [(Eval.closures_of_capture hc).2]
  rw [hn] at hl
  cases hl with
  | refl => exact absurd rfl (hs _ _ _)
  | act hx h =>
      cases hc.symm.trans hx
      exact closures_le_of_leads hmake h

theorem Creates.le_of_opens (h : a.Creates d m) (hb : a.Opens b) :
    d.id ≤ b.machine.closures := by
  obtain ⟨-, s, m', hs, hl⟩ := hb.shows
  rw [hs.closures]
  refine h.leads hl fun β x next he => ?_
  rw [he] at hs
  cases hs

/-- What is created while a task is performed is counted when it ends. -/
theorem Creates.le_of_within (h : b.Creates d m) (hw : a.Within b) {r : a.task.Result}
    (hr : perform a.fuel a.task a.machine = .ok r m') : d.id ≤ m'.closures := by
  induction hw using Relation.ReflTransGen.head_induction_on generalizing m' with
  | refl =>
      rw [perform_eq_of_leads h.1 .refl] at hr
      exact h.leads (Script.leads_of_run hr) nofun
  | head ho _ ih =>
      obtain ⟨r₁, m₁, hr₁, hle⟩ := ho.ends hr
      exact Nat.le_trans (ih hr₁) hle

/-- What is created later has a greater number. -/
theorem Before.lt (h : a.Before c) {b b' : Moment} {d d' : Closure} {m m' : Machine}
    (hb : a.Within b) (hd : b.Creates d m) (hb' : c.Within b') (hd' : b'.Creates d' m') :
    d.id < d'.id := by
  obtain ⟨r, m₁, hr, hle⟩ := h
  have h₁ := hd.le_of_within hb hr
  have h₂ := hb'.closures_le
  have h₃ := hd'.id_eq
  omega

/-- **Two creations while a task is performed have different numbers.** -/
theorem eq_of_id_eq : ∀ {n : Nat} {a : Moment}, a.fuel = n → ∀ {b b' : Moment} {d d' : Closure}
    {m m' : Machine}, a.Within b → a.Within b' → b.Creates d m → b'.Creates d' m' →
      d.id = d'.id → b = b'
  | n, a, hn, b, b', d, d', m, m', hb, hb', hd, hd', he => by
      rcases Relation.ReflTransGen.cases_head hb with rfl | ⟨c, hc, hcb⟩
      · rcases Relation.ReflTransGen.cases_head hb' with rfl | ⟨c', hc', hcb'⟩
        · rfl
        · -- What is opened after the creation counts on from it.
          have h₁ := hd.le_of_opens hc'
          have h₂ := Within.closures_le hcb'
          have h₃ := hd'.id_eq
          omega
      · rcases Relation.ReflTransGen.cases_head hb' with rfl | ⟨c', hc', hcb'⟩
        · have h₁ := hd'.le_of_opens hc
          have h₂ := Within.closures_le hcb
          have h₃ := hd.id_eq
          omega
        · rcases hc.total hc' with rfl | h | h
          · have hlt : c.fuel < n := by
              have hpos := hc.shows.1
              have hfuel : c.fuel = a.fuel - 1 := by cases hc <;> rfl
              omega
            exact eq_of_id_eq rfl hcb hcb' hd hd' he
          · exact absurd he (Nat.ne_of_lt (h.lt hcb hd hcb' hd'))
          · exact absurd he.symm (Nat.ne_of_lt (h.lt hcb' hd' hcb hd))
termination_by n => n

end Moment

namespace Machine

variable {fuel : Nat} {p : Program} {m₀ : Machine}

/-- A creation of a closure in the run of a program. -/
structure Creation (fuel : Nat) (p : Program) (m₀ : Machine) where
  /-- The moment at which the lambda is evaluated. -/
  moment : Moment
  /-- The closure that is made. -/
  closure : Closure
  /-- The machine with which it is given. -/
  machine : Machine
  reached : Reaches fuel p m₀ moment
  creates : moment.Creates closure machine

/-- The moments of a run belong to the performance of the moment at which `main` starts. -/
theorem Reaches.exists_main {a : Moment} (h : Reaches fuel p m₀ a) :
    ∃ routines r, RoutineTable.ofProgram p = .ok routines ∧
      routines.lookup? mainName 0 = some r ∧
        (Machine.main fuel r (m₀.load routines)).Within a := by
  induction h with
  | main hp hr => exact ⟨_, _, hp, hr, .refl⟩
  | opens _ hb ih =>
      obtain ⟨routines, r, hp, hr, hw⟩ := ih
      exact ⟨routines, r, hp, hr, hw.tail hb⟩

/-- **Creations with one number are one creation.** -/
theorem Creation.ext_id {k l : Creation fuel p m₀} (h : k.closure.id = l.closure.id) : k = l := by
  obtain ⟨routines, r, hp, hr, hk⟩ := k.reached.exists_main
  obtain ⟨routines', r', hp', hr', hl⟩ := l.reached.exists_main
  cases hp.symm.trans hp'
  cases hr.symm.trans hr'
  have hmoment := Moment.eq_of_id_eq rfl hk hl k.creates l.creates h
  obtain ⟨b, d, m, hb, hd⟩ := k
  obtain ⟨b', d', m', hb', hd'⟩ := l
  obtain rfl : b = b' := hmoment
  obtain ⟨-, q, byRef, ht, hc⟩ := id hd
  obtain ⟨-, q', byRef', ht', hc'⟩ := id hd'
  cases ht.symm.trans ht'
  cases hc.symm.trans hc'
  rfl

/-- The numbers go on from those of earlier runs. -/
theorem Creation.lt_id (k : Creation fuel p m₀) : m₀.closures < k.closure.id := by
  obtain ⟨routines, r, -, -, hw⟩ := k.reached.exists_main
  have hle : m₀.closures ≤ k.moment.machine.closures := Moment.Within.closures_le hw
  have hid := k.creates.id_eq
  omega

end Machine
end ProtoScript
