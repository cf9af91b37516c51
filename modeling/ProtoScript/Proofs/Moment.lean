import Mathlib.Logic.Relation
import ProtoScript.Run
/-!
# The moments of a run

A run of a program performs tasks, and each task calls for others.  A moment is
a point of the run at which a task is about to be performed: the task, the
machine, how deep its calls may still go, and the activations that are alive.
The machine holds the environment of the innermost activation only; the others
wait for it, and a moment names them.

`Script.Leads` follows a script from one machine to the next, `Moment.Opens`
goes from a task to the tasks that it calls for, and `Machine.Reaches` collects
the moments of a whole run.  A state of the run is a machine that some moment
`Moment.Passes`: the machine at the moment itself, or after any step of its
script.
-/

namespace ProtoScript

/-- An activation that is alive. -/
structure Activation where
  /-- What was called. -/
  callable : Callable
  /-- Its scopes. -/
  environment : Environment

/-- The scope that a closure brings into its activation. -/
def Callable.installed : Callable → List (Address .scope)
  | function _ => []
  | closure c => [c.captured]

/-- The number of scopes with which an activation starts. -/
def Callable.depth : Callable → Nat
  | function _ => 1
  | closure _ => 3

/-- The activations that are alive, apart from the environment of the innermost. -/
structure Context where
  /-- What runs. -/
  callable : Callable
  /-- The activations that wait for it, the innermost first. -/
  callers : List Activation

/-- The activations that are alive, the innermost first. -/
def Context.live (γ : Context) (environment : Environment) : List Activation :=
  ⟨γ.callable, environment⟩ :: γ.callers

/-- The activations that are alive in given surroundings. -/
def Surroundings.context : Surroundings → (outside : Environment) → Context → Context
  | block, _, γ => γ
  | activation _ callable _, outside, γ => ⟨callable, γ.live outside⟩

/-- A point of a run at which a task is about to be performed. -/
structure Moment where
  /-- How deep the calls may still go. -/
  fuel : Nat
  /-- The task. -/
  task : Task
  /-- The machine. -/
  machine : Machine
  /-- The activations that are alive. -/
  context : Context

namespace Script

variable {α : Type}

/-- How a script goes on: from a script and a machine to what is left of it and the machine then. -/
inductive Leads (answer : (t : Task) → Eval t.Result) :
    Script α → Machine → Script α → Machine → Prop where
  /-- Nothing has happened. -/
  | refl {s : Script α} {m : Machine} : Leads answer s m s m
  /-- A step has been made. -/
  | act {β : Type} {x : Eval β} {next : β → Script α} {b : β} {s : Script α}
      {m m₁ m' : Machine} (hx : x m = .ok b m₁) (h : Leads answer (next b) m₁ s m') :
      Leads answer (.act x next) m s m'
  /-- A call has been answered. -/
  | call {t : Task} {next : t.Result → Script α} {r : t.Result} {s : Script α}
      {m m₁ m' : Machine} (hr : answer t m = .ok r m₁) (h : Leads answer (next r) m₁ s m') :
      Leads answer (.call t next) m s m'
  /-- Statements have been executed elsewhere. -/
  | inside {p : Surroundings} {l : List Stmt} {next : Status → Script α} {r : Status}
      {s : Script α} {m m₁ m' : Machine} (hr : p.run (answer (.executeAll l)) m = .ok r m₁)
      (h : Leads answer (next r) m₁ s m') : Leads answer (.inside p l next) m s m'

theorem Leads.trans {answer : (t : Task) → Eval t.Result} {s₁ s₂ s₃ : Script α}
    {m₁ m₂ m₃ : Machine} (h : Leads answer s₁ m₁ s₂ m₂) (h' : Leads answer s₂ m₂ s₃ m₃) :
    Leads answer s₁ m₁ s₃ m₃ := by
  induction h with
  | refl => exact h'
  | act hx _ ih => exact .act hx (ih h')
  | call hr _ ih => exact .call hr (ih h')
  | inside hr _ ih => exact .inside hr (ih h')

/-- A script runs as what is left of it runs later. -/
theorem Leads.run_eq {answer : (t : Task) → Eval t.Result} {s s' : Script α} {m m' : Machine}
    (h : Leads answer s m s' m') : s.run answer m = s'.run answer m' := by
  induction h with
  | refl => rfl
  | act hx _ ih => simpa only [run, hx] using ih
  | call hr _ ih => simpa only [run, hr] using ih
  | inside hr _ ih => simpa only [run, hr] using ih

/-- A script that has a result leads to its end. -/
theorem leads_of_run {answer : (t : Task) → Eval t.Result} {r : α} {m' : Machine} :
    ∀ {s : Script α} {m : Machine}, s.run answer m = .ok r m' → Leads answer s m (.done r) m'
  | .done _, _, h => by cases h; exact .refl
  | .act x _, m, h => by
      simp only [run] at h
      cases hx : x m with
      | ok b m₁ => rw [hx] at h; exact .act hx (leads_of_run h)
      | error e m₁ => rw [hx] at h; cases h
  | .call t _, m, h => by
      simp only [run] at h
      cases hr : answer t m with
      | ok r m₁ => rw [hr] at h; exact .call hr (leads_of_run h)
      | error e m₁ => rw [hr] at h; cases h
  | .inside p l _, m, h => by
      simp only [run] at h
      cases hr : p.run (answer (.executeAll l)) m with
      | ok r m₁ => rw [hr] at h; exact .inside hr (leads_of_run h)
      | error e m₁ => rw [hr] at h; cases h

/-- One script after another leads through the end of the first. -/
theorem leads_andThen {β : Type} {answer : (t : Task) → Eval t.Result} {k : α → Script β} {r : β}
    {m' : Machine} : ∀ {s : Script α} {m : Machine},
      (s.andThen k).run answer m = .ok r m' → ∃ b m₁,
        Leads answer (s.andThen k) m (k b) m₁ ∧ (k b).run answer m₁ = .ok r m'
  | .done b, m, h => ⟨b, m, .refl, h⟩
  | .act x _, m, h => by
      simp only [andThen, run] at h
      cases hx : x m with
      | ok b m₁ =>
          rw [hx] at h
          obtain ⟨b', m₂, hl, h⟩ := leads_andThen h
          exact ⟨b', m₂, .act hx hl, h⟩
      | error e m₁ => rw [hx] at h; cases h
  | .call t _, m, h => by
      simp only [andThen, run] at h
      cases hr : answer t m with
      | ok r m₁ =>
          rw [hr] at h
          obtain ⟨b', m₂, hl, h⟩ := leads_andThen h
          exact ⟨b', m₂, .call hr hl, h⟩
      | error e m₁ => rw [hr] at h; cases h
  | .inside p l _, m, h => by
      simp only [andThen, run] at h
      cases hr : p.run (answer (.executeAll l)) m with
      | ok r m₁ =>
          rw [hr] at h
          obtain ⟨b', m₂, hl, h⟩ := leads_andThen h
          exact ⟨b', m₂, .inside hr hl, h⟩
      | error e m₁ => rw [hr] at h; cases h

end Script

namespace Moment

/-- The moment at which the script of a moment calls for a task. -/
def call (a : Moment) (t : Task) (m : Machine) : Moment := ⟨a.fuel - 1, t, m, a.context⟩

/-- The moment at which the script of a moment executes statements in given surroundings. -/
def inside (a : Moment) (p : Surroundings) (l : List Stmt) (m : Machine) : Moment :=
  ⟨a.fuel - 1, .executeAll l, p.enter m, p.context m.environment a.context⟩

/-- From a task to a task that its script calls for. -/
inductive Opens : Moment → Moment → Prop where
  /-- A call. -/
  | call {a : Moment} {t : Task} {m : Machine} {next : t.Result → Script a.task.Result}
      (ha : 0 < a.fuel)
      (h : a.task.script.Leads (perform (a.fuel - 1)) a.machine (.call t next) m) :
      Opens a (a.call t m)
  /-- Statements that are executed elsewhere. -/
  | inside {a : Moment} {p : Surroundings} {l : List Stmt} {m : Machine}
      {next : Status → Script a.task.Result} (ha : 0 < a.fuel)
      (h : a.task.script.Leads (perform (a.fuel - 1)) a.machine (.inside p l next) m) :
      Opens a (a.inside p l m)

/-- The moments that belong to performing the task of `a`, the moment `a` itself among them. -/
abbrev Within : Moment → Moment → Prop := Relation.ReflTransGen Opens

/-- The machines that a moment passes itself, without those of the tasks that it opens. -/
inductive Passes : Moment → Machine → Prop where
  /-- The machine at the moment. -/
  | here (a : Moment) : Passes a a.machine
  /-- The machine after some steps of the script. -/
  | later {a : Moment} {s : Script a.task.Result} {m : Machine} (ha : 0 < a.fuel)
      (h : a.task.script.Leads (perform (a.fuel - 1)) a.machine s m) : Passes a m

/-- The assignments of a moment: the name, the value, and the machine on which it is made. -/
def Assigns (a : Moment) (name : String) (v : Value) (m : Machine) : Prop :=
  0 < a.fuel ∧ ∃ next, a.task.script.Leads (perform (a.fuel - 1)) a.machine
    (.act (Eval.assign name v) next) m

/-- Wherever the script of a moment leads, the task of the moment is performed as what is left. -/
theorem perform_eq_of_leads {a : Moment} {s : Script a.task.Result} {m : Machine} (ha : 0 < a.fuel)
    (h : a.task.script.Leads (perform (a.fuel - 1)) a.machine s m) :
    perform a.fuel a.task a.machine = s.run (perform (a.fuel - 1)) m := by
  obtain ⟨n, hn⟩ := Nat.exists_eq_add_one.2 ha
  simp only [hn, Nat.add_sub_cancel] at h ⊢
  exact h.run_eq

end Moment

namespace Machine

/-- The moment at which `main` starts, on a machine with the program loaded. -/
def main (fuel : Nat) (main : Routine) (m : Machine) : Moment where
  fuel := fuel
  task := .executeAll main.body
  machine := m.enterMain
  context := ⟨.function main, []⟩

/-- The moments of the run of a program. -/
inductive Reaches (fuel : Nat) (p : Program) (m : Machine) : Moment → Prop where
  /-- The start of `main`. -/
  | main {routines : RoutineTable} {r : Routine} (h : RoutineTable.ofProgram p = .ok routines)
      (hr : routines.lookup? mainName 0 = some r) :
      Reaches fuel p m (Machine.main fuel r (m.load routines))
  /-- A task that is called for. -/
  | opens {a b : Moment} (h : Reaches fuel p m a) (hb : a.Opens b) : Reaches fuel p m b

theorem Reaches.within {fuel : Nat} {p : Program} {m : Machine} {a b : Moment}
    (h : Reaches fuel p m a) (hb : a.Within b) : Reaches fuel p m b := by
  induction hb with
  | refl => exact h
  | tail _ hb ih => exact .opens ih hb

/-- **A run is the performance of the moment at which `main` starts.** -/
theorem run_eq_start {fuel : Nat} {p : Program} {m : Machine} {routines : RoutineTable}
    {r : Routine} (h : RoutineTable.ofProgram p = .ok routines)
    (hr : routines.lookup? mainName 0 = some r) :
    run fuel p m = start fuel r (m.load routines) := by
  simp [run, h, hr]

end Machine
end ProtoScript
