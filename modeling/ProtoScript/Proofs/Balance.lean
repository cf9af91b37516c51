import ProtoScript.Proofs.Keeping
import ProtoScript.Proofs.Moment
/-!
# Balance

Whatever a task does, it leaves the machine in the activation and in the scopes
in which it found it, on every way out.  Two things make it so: the steps of the
machine stay in their activation (`Script.Steady`), and a machine that is taken
in somewhere is taken back.

A script that has come some way is still in its activation, and so is a script
that halts.  For a run it means that the activation of `main` is the innermost one
where its body has come to an end (`Machine.start_eq_ok_iff`,
`Machine.start_eq_error_iff`).
-/

namespace ProtoScript

namespace Surroundings

/-- **What is taken in is taken back.** -/
theorem level_leave (p : Surroundings) {m m' : Machine} (h : (p.enter m).Level m') :
    m.Level (p.leave m.environment m') := by
  cases p with
  | block =>
      refine ⟨?_, h.routines, h.frames⟩
      have he : m'.environment = m.environment.enter m.store.scopes.fresh := h.environment
      simp [leave, Machine.leaveBlock, Machine.report, he]
  | activation label callable environment =>
      refine ⟨rfl, h.routines, ?_⟩
      have hf : m'.frames = ⟨label, callable.routine.arity⟩ :: m.frames := h.frames
      simp [leave, Machine.leaveActivation, hf]

end Surroundings

/-- The steps of scripts are tame. -/
theorem Eval.tame : Eval.Steps Eval.Tame := by
  constructor <;> intros <;> infer_instance

namespace Script

variable {α : Type}

/-- Whether a script makes tame steps only. -/
def Steady : Script α → Prop
  | done _ => True
  | act x next => Eval.Tame x ∧ ∀ b, (next b).Steady
  | call _ next => ∀ r, (next r).Steady
  | inside _ _ next => ∀ s, (next s).Steady

theorem Every.steady {C : Task → Prop} {I : Surroundings → List Stmt → Prop} :
    ∀ {s : Script α}, s.Every Eval.Tame C I → s.Steady
  | done _, _ => trivial
  | act _ _, h => ⟨h.1, fun b => (h.2 b).steady⟩
  | call _ _, h => fun r => Every.steady (h.2 r)
  | inside _ _ _, h => fun s => Every.steady (h.2 s)

/-- Every script is steady. -/
theorem steady (t : Task) : t.script.Steady := (every Eval.tame t).steady

end Script

/-- A machine that is in its activation stays in it. -/
theorem Machine.lasting_level : Lasting Level where
  refl := .refl
  trans := .trans
  leave p _ _ h := p.level_leave h

theorem Eval.Tame.keeps_level {α : Type} (x : Eval α) [Tame x] : Keeps Machine.Level x where
  ok h := Tame.ok h
  error {m m' h} hx := by
    cases h with
    | failed f => exact Tame.failed hx ▸ .refl m
    | unfinished => exact Tame.unfinished hx

/-- **Every task stays in its activation, however it ends.** -/
theorem perform_keeps_level (n : Nat) (t : Task) : Eval.Keeps Machine.Level (perform n t) := by
  refine perform_keeps Machine.lasting_level ?_ n t
  constructor <;> intros <;> exact Eval.Tame.keeps_level _

theorem level_of_perform_eq_ok {n : Nat} {t : Task} {m m' : Machine} {r : t.Result}
    (h : perform n t m = .ok r m') : m.Level m' :=
  (perform_keeps_level n t).ok h

theorem level_of_perform_eq_error {n : Nat} {t : Task} {m m' : Machine} {e : Halt}
    (h : perform n t m = .error e m') : m.Level m' :=
  (perform_keeps_level n t).error h

/-- **A script that has come some way is still in its activation**, and its steps are tame. -/
theorem Script.Leads.level {α : Type} {n : Nat} {s s' : Script α} {m m' : Machine}
    (h : s.Leads (perform n) m s' m') (hs : s.Steady) : m.Level m' ∧ s'.Steady := by
  induction h with
  | refl => exact ⟨.refl _, hs⟩
  | act hx _ ih =>
      have := hs.1
      obtain ⟨hl, hs'⟩ := ih (hs.2 _)
      exact ⟨(Eval.Tame.ok hx).trans hl, hs'⟩
  | call hr _ ih =>
      obtain ⟨hl, hs'⟩ := ih (hs _)
      exact ⟨(level_of_perform_eq_ok hr).trans hl, hs'⟩
  | @inside p l _ _ _ _ _ _ hr _ ih =>
      obtain ⟨hl, hs'⟩ := ih (hs _)
      have hin := (perform_keeps_level n (.executeAll l)).inside Machine.lasting_level p
      exact ⟨(hin.ok hr).trans hl, hs'⟩

/-- **Every machine that a moment passes is in the activation of the moment.** -/
theorem Moment.Passes.level {a : Moment} {m : Machine} (h : a.Passes m) : a.machine.Level m := by
  cases h with
  | here => exact .refl _
  | later _ h => exact (h.level (Script.steady _)).1

namespace Machine

variable {fuel : Nat} {main : Routine} {m m' : Machine}

/-- **A run returns what the body of `main` ends with**, and the activation is left. -/
theorem start_eq_ok_iff {v : Value} :
    start fuel main m = .ok v m' ↔ ∃ status m₁,
      perform fuel (.executeAll main.body) m.enterMain = .ok status m₁ ∧ v = status.value ∧
        m' = { m₁ with frames := m.frames } := by
  unfold start
  cases h : perform fuel (.executeAll main.body) m.enterMain with
  | ok status m₁ =>
      have hframes : m₁.frames.tail = m.frames :=
        congrArg List.tail (level_of_perform_eq_ok h).frames
      rw [← hframes]
      exact ⟨fun h => by cases h; exact ⟨_, _, rfl, rfl, rfl⟩, by rintro ⟨_, _, ⟨⟩, rfl, rfl⟩; rfl⟩
  | error e m₁ => exact ⟨nofun, by rintro ⟨_, _, ⟨⟩, -⟩⟩

/-- **It fails where the body of `main` does**, and the activation is attached at last. -/
theorem start_eq_error_iff {h : Halt} :
    start fuel main m = .error h m' ↔ ∃ e,
      perform fuel (.executeAll main.body) m.enterMain = .error e m' ∧
        h = e.attach (⟨mainName, 0⟩ :: m.frames).reverse := by
  unfold start
  cases hb : perform fuel (.executeAll main.body) m.enterMain with
  | ok status m₁ => exact ⟨nofun, by rintro ⟨_, ⟨⟩, -⟩⟩
  | error e m₁ =>
      have hframes : m₁.frames = ⟨mainName, 0⟩ :: m.frames :=
        (level_of_perform_eq_error hb).frames
      rw [← hframes]
      exact ⟨fun h => by cases h; exact ⟨_, rfl, rfl⟩, by rintro ⟨_, ⟨⟩, rfl⟩; rfl⟩

end Machine
end ProtoScript
