import ProtoScript.Proofs.Effects
import ProtoScript.Proofs.Replay
/-!
# What an activation keeps while it waits

To evaluate an expression may run any number of activations, also of the same
routine or closure.  Whatever they do, and whether they fail, the scopes of the
activation that evaluates it bind the same names to the same slots, unless a
closure brought them in.  The slots themselves can be written, but only through
references, so a variable to which no reference is made keeps its value.
-/

namespace ProtoScript

namespace Task

variable {t : Task} {m : Machine} {a : Address .scope} {name : String}

/-- The task evaluates an expression. -/
def isExpression : Task → Bool
  | .evaluate _ | .evaluateAll _ | .call _ | .builtin .. | .invoke .. => true
  | .bind .. | .execute _ | .executeAll _ | .block _ | .iterate .. => false

/-- No scope belongs to an expression. -/
theorem notMem_touched (h : t.isExpression) (e : Environment) : a ∉ t.touched e := by
  cases t <;> simp_all [isExpression, touched]

/-- No name is bound by an expression itself. -/
theorem not_binds (h : t.isExpression) : ¬t.Binds m a name := by
  cases t <;> simp_all [isExpression, Binds]

end Task

namespace Moment

variable {a : Moment} {m : Machine}

/-- An expression changes no scope but new ones and captured ones. -/
theorem Ends.scope_eq (hm : a.Ends m) (ha : isolation.before a) (he : a.task.isExpression)
    {x : Address .scope} (hx : x ∈ a.machine.environment.scopes)
    (hi : x ∉ a.context.callable.installed) : m.store.scope x = a.machine.store.scope x :=
  (hm.keeps ha).scope x (ha.2.1.there_innermost hx) (Task.notMem_touched he _)
    (ha.2.1.own_innermost hx hi)

/-- An expression leaves a name to be found where it was found. -/
theorem Ends.home?_eq (hm : a.Ends m) (ha : isolation.before a) (he : a.task.isExpression)
    (name : String) : m.store.home? m.environment name =
      a.machine.store.home? a.machine.environment name := by
  rw [hm.level.environment]
  exact (hm.evolves ha).home?_eq fun x hx =>
    ⟨ha.2.1.there_innermost hx, Task.not_binds he⟩

/-- **The content of a slot changes only where an assignment goes through a reference to it.** -/
theorem Ends.writes (hm : a.Ends m) (ha : isolation.before a) {σ : Address .slot}
    (hσ : σ.index < a.machine.store.slots.size)
    (hne : m.store.slots.get? σ ≠ a.machine.store.slots.get? σ) :
    ∃ v, a.Writes σ v ∧ m.store.slots.get? σ = some v :=
  ((hm.evolves ha).slot σ hσ).resolve_right hne

/-- While the task of a moment is performed, a scope of the environment in force binds a name as a
reference to a slot. -/
def Refers (a : Moment) (σ : Address .slot) : Prop :=
  ∃ b m x name, a.Within b ∧ b.Passes m ∧ x ∈ m.environment.scopes ∧
    m.store.binding? x name = some ⟨σ, true⟩

theorem Writes.refers {σ : Address .slot} {v : Value} (h : a.Writes σ v) : a.Refers σ := by
  obtain ⟨b, name, m, hb, hm, hl⟩ := h
  obtain ⟨x, hmem, hx⟩ := Store.lookup_eq_some hl
  exact ⟨b, m, x, name, hb, hm.passes, hmem, hx⟩

/-- What an activation keeps while a task of it is performed. -/
structure Framed (a : Moment) : Prop where
  /-- Two activations that are alive share no scope but one that closures brought into both. -/
  disjoint : ∀ m, a.Passes m → (a.context.live m.environment).Pairwise fun x y =>
    ∀ s ∈ x.environment.scopes, s ∈ y.environment.scopes →
      s ∈ x.callable.installed ∧ s ∈ y.callable.installed
  /-- An expression leaves a scope as it is that no closure brought in. -/
  scope : a.task.isExpression → ∀ m, a.Ends m → ∀ x ∈ a.machine.environment.scopes,
    x ∉ a.context.callable.installed → m.store.scope x = a.machine.store.scope x
  /-- The content of a slot is what it was or what an assignment wrote through a reference to it,
  on every machine on the way. -/
  slot : ∀ m, a.Passes m ∨ a.Ends m → ∀ σ : Address .slot,
    σ.index < a.machine.store.slots.size →
      m.store.slots.get? σ ≠ a.machine.store.slots.get? σ →
        ∃ v, a.Writes σ v ∧ m.store.slots.get? σ = some v
  /-- A variable has the same value after an expression if it is found in a scope that no closure
  brought in and there is no reference to its slot at any time. -/
  value : a.task.isExpression → ∀ m, a.Ends m → ∀ name x b,
    a.machine.store.home? a.machine.environment name = some x →
      a.machine.store.binding? x name = some b → x ∉ a.context.callable.installed →
        ¬a.Refers b.slot → m.store.read m.environment name =
          a.machine.store.read a.machine.environment name

end Moment

/-- **Activations are isolated from each other.** -/
theorem activation_isolation {fuel : Nat} {p : Program} {m₀ : Machine} {a : Moment}
    (h : Machine.Reaches fuel p m₀ a) : a.Framed where
  disjoint m hm := (hm.separated h.isolated).disjoint
  scope he m hm x hx hi := hm.scope_eq h.isolated he hx hi
  slot m hm σ hσ hne := by
    obtain hm | hm := hm
    · exact ((hm.evolves h.isolated).slot σ hσ).resolve_right hne
    · exact hm.writes h.isolated hσ hne
  value he m hm name x b hx hb hi hr := by
    have hx' : m.store.home? m.environment name = some x :=
      (hm.home?_eq h.isolated he name).trans hx
    have hmem := Store.mem_of_home? hx
    have hscope := hm.scope_eq h.isolated he hmem hi
    have hb' : m.store.binding? x name = some b := by
      rw [Store.binding?, hscope]
      exact hb
    have hslot : m.store.slots.get? b.slot = a.machine.store.slots.get? b.slot := by
      refine Classical.byContradiction fun hne => ?_
      obtain ⟨v, hw, -⟩ :=
        hm.writes h.isolated (h.isolated.1.binding x name b hb) hne
      exact hr hw.refers
    rw [Store.read, Store.read, Store.lookup_eq_of_home? hx', Store.lookup_eq_of_home? hx, hb, hb']
    exact congrArg some (congrArg (·.getD .nil) hslot)

/-- A closure that is running evaluates a call of a routine. -/
theorem activation_isolation_reentry : ∃ a : Moment,
    Machine.Reaches 60 .reentry (.initial {}) a ∧ a.task.isExpression ∧
      a.context.callable.depth = 3 ∧ a.Framed := by
  have hd : ((Machine.replay 60 .reentry (.initial {}) [1, 1, 1, 0, 0, 1, 1, 0, 1, 0, 0, 0]).any
      fun a => decide (a.task.isExpression ∧ a.context.callable.depth = 3)) = true := by
    decide +kernel
  obtain ⟨a, ha, hc⟩ := (Option.any_eq_true _ _).1 hd
  have h := Machine.reaches_of_replay ha
  obtain ⟨he, hdepth⟩ := of_decide_eq_true hc
  exact ⟨a, h, he, hdepth, activation_isolation h⟩

end ProtoScript
