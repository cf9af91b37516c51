import ProtoScript.Proofs.Effects
import ProtoScript.Proofs.Ownership
import ProtoScript.Proofs.Replay
/-!
# Snapshots have one owner

Two places of a run never hold closures that capture by value and share what
they captured, and a closure that a call results in comes with a scope that
nothing else refers to.  So if such a closure is read out of one place and put
in another, the two live apart: an activation that is started through the one
never has the scope of the other in its environment, and its assignments leave
that scope as it is.
-/

namespace ProtoScript

/-- The task is a call of a routine or closure. -/
def Task.isCall : Task → Bool
  | .call _ | .invoke .. => true
  | _ => false

theorem Task.gives_of_isCall {t : Task} (h : t.isCall) (c : Closure) : t.Gives c := by
  cases t <;> simp_all [isCall, Gives]

namespace Moment

variable {a b : Moment} {m : Machine} {c d : Closure} {p q : Store.Place}

/-- The moment `b` belongs to the activation that a closure starts at the moment `a`. -/
def Runs (a : Moment) (c : Closure) (b : Moment) : Prop :=
  a.Within b ∧ b.context = ⟨.closure c, a.context.live a.machine.environment⟩

/-- **An activation has no scope of an owner but that of its own closure.** -/
theorem Runs.notMem_scopes (hb : a.Runs c b) (ha : isolation.before a)
    (ho : ownership.before a) (hp : a.machine.store.content? p = some (.closure c))
    (hc : c.byRef = false) (hm : b.Passes m) (hqp : q ≠ p)
    (hq : m.store.content? q = some (.closure d)) (hd : d.byRef = false) :
    d.captured ∉ m.environment.scopes := by
  obtain ⟨hw, hcontext⟩ := hb
  obtain ⟨hib, hob⟩ := ownership_kept.within ha ho hw
  intro hmem
  by_cases hin : d.captured ∈ b.context.callable.installed
  · rw [hcontext] at hin
    have hdc : d.captured = c.captured := List.mem_singleton.1 hin
    have hlt : c.captured.index < a.machine.store.scopes.size := ha.1.captured_lt hp
    have hs := (hw.settles ha ho).trans (hm.settles hib hob)
    -- The other place would have held the scope already when the closure was invoked.
    have hq' := hs.settled q d hq hd (hdc ▸ hlt)
    exact ho q p d c hqp hq' hp hd hc hdc
  · exact (hm.separated hib).own_innermost hmem hin (Store.captured_of_content? hq)

/-- What is owned while the task of a moment is performed. -/
structure Exclusive (a : Moment) : Prop where
  /-- Different places hold closures with different scopes, if these capture by value. -/
  owned : ∀ m, a.Passes m ∨ a.Ends m → m.store.Owned
  /-- A call that results in a closure gives it a scope that is new, that nothing in the store
  captured and that is in no environment. -/
  result : a.task.isCall → ∀ r m, perform a.fuel a.task a.machine = .ok r m →
    ∀ d, .closure d ∈ a.task.values r →
      a.machine.store.scopes.size ≤ d.captured.index ∧ ¬m.store.Captured d.captured ∧
        ∀ x ∈ a.context.live m.environment, d.captured ∉ x.environment.scopes
  /-- An activation of a closure has the scope of no closure in its environment that is held at
  another place. -/
  installed : ∀ label c args receiver p, a.task = .invoke label (.closure c) args receiver →
    c.byRef = false → a.machine.store.content? p = some (.closure c) →
      ∀ b m, a.Runs c b → b.Passes m → ∀ q d, q ≠ p →
        m.store.content? q = some (.closure d) → d.byRef = false →
          d.captured ∉ m.environment.scopes
  /-- An assignment in an activation of a closure rebinds no name in the scope of a closure that is
  held at another place. -/
  assigned : ∀ label c args receiver p, a.task = .invoke label (.closure c) args receiver →
    c.byRef = false → a.machine.store.content? p = some (.closure c) →
      ∀ b m name v, a.Runs c b → b.Assigns name v m → ∀ q d, q ≠ p →
        m.store.content? q = some (.closure d) → d.byRef = false →
          (m.store.assign m.environment name v).scope d.captured = m.store.scope d.captured

end Moment

/-- **Closures that capture by value are never aliased.** -/
theorem snapshot_ownership {fuel : Nat} {p : Program} {m₀ : Machine} {a : Moment}
    (h : Machine.Reaches fuel p m₀ a) : a.Exclusive where
  owned m hm := by
    obtain hm | hm := hm
    · exact (hm.settles h.isolated h.owned).owned
    · exact (hm.settles h.isolated h.owned).owned
  result ht r m hr d hd := by
    have hm : a.Ends m := .inl ⟨r, hr⟩
    have hf : a.machine.store.Fresh m.store d.captured :=
      (ownership_kept.of_ok h.isolated h.owned hr).2 _ hd d rfl (Task.gives_of_isCall ht d)
    refine ⟨hf.le, hf.free, fun x hx hmem => ?_⟩
    rw [hm.level.environment] at hx
    exact absurd (h.isolated.2.1.there x hx d.captured hmem) (Nat.not_lt_of_le hf.le)
  installed label c args receiver p _ hc hp b m hb hm q d hqp hq hd :=
    hb.notMem_scopes h.isolated h.owned hp hc hm hqp hq hd
  assigned label c args receiver p _ hc hp b m name v hb hv q d hqp hq hd :=
    (Store.alters_assign m.store m.environment name v).scope _
      (hb.notMem_scopes h.isolated h.owned hp hc hv.passes hqp hq hd)

/-- The closure that is held at a place. -/
def Store.closure? (s : Store) (p : Store.Place) : Option Closure :=
  match s.content? p with
  | some (.closure c) => some c
  | _ => none

theorem Store.content?_of_closure? {s : Store} {p : Store.Place} {c : Closure}
    (h : s.closure? p = some c) : s.content? p = some (.closure c) := by
  unfold closure? at h
  split at h
  · next hp =>
      cases h
      exact hp
  · cases h

/-- The closure, if what is called is one. -/
def Callable.closure? : Callable → Option Closure
  | .closure c => some c
  | .function _ => none

theorem Callable.eq_of_closure? {callable : Callable} {c : Closure}
    (h : callable.closure? = some c) : callable = .closure c := by
  cases callable <;> cases h
  rfl

/-- A program in which two variables hold copies of one closure:

    func main() {
        n = 0;
        f = lambda() { n = n + 1; return n; };
        g = f;
        g();
        f();
    } -/
def Program.copies : Program where
  routines :=
    [.mk "main" []
      [.assign (.variable "n") (.int 0),
        .assign (.variable "f") (.lambda (.mk "lambda" []
          [.assign (.variable "n") (.binary .add (.variable "n") (.int 1)),
            .return (some (.variable "n"))])),
        .assign (.variable "g") (.variable "f"),
        .call (.mk (.name "g") []),
        .call (.mk (.name "f") [])]]

/-- One of two copies is invoked. -/
theorem snapshot_ownership_copies : ∃ a c d, Machine.Reaches 40 .copies (.initial {}) a ∧
    (∃ label args receiver, a.task = .invoke label (.closure c) args receiver) ∧
      a.machine.store.content? (.slot ⟨2⟩) = some (.closure c) ∧ c.byRef = false ∧
        a.machine.store.content? (.slot ⟨4⟩) = some (.closure d) ∧ d.byRef = false ∧
          a.Exclusive := by
  have hd : ((Machine.replay 40 .copies (.initial {}) [1, 1, 1, 1, 0, 0, 0]).any fun a =>
      a.task.invoked?.any fun i => i.1.closure?.any fun c =>
        decide (a.machine.store.closure? (.slot ⟨2⟩) = some c ∧ c.byRef = false) &&
          (a.machine.store.closure? (.slot ⟨4⟩)).any fun d => decide (d.byRef = false)) = true := by
    decide +kernel
  obtain ⟨a, ha, hc⟩ := (Option.any_eq_true _ _).1 hd
  obtain ⟨⟨callable, args⟩, hi, hc⟩ := (Option.any_eq_true _ _).1 hc
  obtain ⟨c, hc, hd⟩ := (Option.any_eq_true _ _).1 hc
  obtain ⟨hp, hd⟩ := Bool.and_eq_true_iff.1 hd
  obtain ⟨hp, hb⟩ := of_decide_eq_true hp
  obtain ⟨d, hq, hd⟩ := (Option.any_eq_true _ _).1 hd
  obtain rfl := Callable.eq_of_closure? hc
  obtain ⟨label, receiver, ht⟩ := Task.eq_of_invoked? hi
  have h := Machine.reaches_of_replay ha
  exact ⟨a, c, d, h, ⟨label, args, receiver, ht⟩, Store.content?_of_closure? hp, hb,
    Store.content?_of_closure? hq, of_decide_eq_true hd, snapshot_ownership h⟩

end ProtoScript
