import ProtoScript.Proofs.Creation
import ProtoScript.Proofs.Isolation
import ProtoScript.Proofs.Replay
import ProtoScript.Proofs.Shape
/-!
# Where closures come from

Every closure that is held while a program runs repeats one that was made by the
evaluation of a lambda: it has the number, the lambda and the flag of that one,
and the scope that it captured has the shape that the snapshot had.  So the
number tells everything about a closure but what its captured variables hold.

Two things make it so.  Copying repeats closures and makes no other ones.  And a
name is bound anew in the innermost scope only, which is never a captured one:
an activation of a closure has a scope of its own inside the captured scope
(`Moment.Fenced`), and the scope in which parameters are bound is captured by
nothing until they are.
-/

namespace ProtoScript

namespace Machine

variable {fuel : Nat} {p : Program} {m₀ : Machine}

/-- A closure comes from a creation that the machine has counted. -/
structure Creation.Origin (k : Creation fuel p m₀) (m : Machine) (c : Closure) : Prop where
  repeats : k.machine.store.Repeats k.closure m.store c
  id_le : c.id ≤ m.closures

/-- Some creation of a run is the origin of a closure. -/
def Descends (fuel : Nat) (p : Program) (m₀ m : Machine) (c : Closure) : Prop :=
  ∃ k : Creation fuel p m₀, k.Origin m c

/-- Every closure that is held comes from a creation of the run. -/
def Traced (fuel : Nat) (p : Program) (m₀ m : Machine) : Prop :=
  ∀ q c, m.store.content? q = some (.closure c) → Descends fuel p m₀ m c

variable {m m' : Machine} {c d : Closure} {v w : Value}

theorem Descends.of_repeats (h : Descends fuel p m₀ m d) (hc : m.store.Repeats d m'.store c)
    (hle : m.closures ≤ m'.closures) : Descends fuel p m₀ m' c := by
  obtain ⟨k, hk⟩ := h
  refine ⟨k, hk.repeats.trans hc, ?_⟩
  rw [hc.id_eq]
  exact Nat.le_trans hk.id_le hle

/-- What a machine holds is not changed by where it is. -/
theorem Descends.of_eq (h : Descends fuel p m₀ m c) (hs : m'.store = m.store)
    (hn : m'.closures = m.closures) : Descends fuel p m₀ m' c :=
  h.of_repeats (.of_shape fun _ => by rw [hs]) (Nat.le_of_eq hn.symm)

theorem Traced.of_eq (h : Traced fuel p m₀ m) (hs : m'.store = m.store)
    (hn : m'.closures = m.closures) : Traced fuel p m₀ m' := fun q c hq =>
  (h q c (hs ▸ hq)).of_eq hs hn

namespace Traced

/-- A change that makes no closures but copies. -/
theorem breeds (h : Traced fuel p m₀ m) (hb : m.store.Breeds m'.store)
    (hle : m.closures ≤ m'.closures) : Traced fuel p m₀ m' := fun q c hq => by
  obtain ⟨q', d, hq', hd⟩ := hb q c hq
  exact (h q' d hq').of_repeats hd hle

/-- A small change, with a value of known descent, that leaves the shapes of captured scopes
alone. -/
theorem alters (h : Traced fuel p m₀ m) {l : List (Address .scope)} {f : Store → Store}
    (ha : Store.Alters l v m.store (f m.store))
    (hv : ∀ c, v = .closure c → Descends fuel p m₀ m c)
    (hs : ∀ c, m.store.Captured c.captured ∨ v = .closure c →
      ∀ name, (f m.store).shape c.captured name = m.store.shape c.captured name) :
    Traced fuel p m₀ (m.withStore f) := fun q c hq => by
  obtain ⟨x, hx⟩ := ha.content
  rcases hx q with hq' | ⟨-, hq'⟩
  · have hheld := hq'.symm.trans hq
    exact (h q c hheld).of_repeats
      (.of_shape (hs c (.inl (Store.captured_of_content? hheld)))) (Nat.le_refl _)
  · have hc : v = .closure c := Option.some.inj (hq'.symm.trans hq)
    exact (hv c hc).of_repeats (.of_shape (hs c (.inr hc))) (Nat.le_refl _)

/-- A small change that leaves all scopes alone. -/
theorem alters_nil (h : Traced fuel p m₀ m) {f : Store → Store}
    (ha : Store.Alters [] v m.store (f m.store))
    (hv : ∀ c, v = .closure c → Descends fuel p m₀ m c) : Traced fuel p m₀ (m.withStore f) :=
  h.alters ha hv fun _ _ => Store.shape_eq_of_scope (ha.scope _ (List.not_mem_nil))

/-- A name may be bound to a value in a scope that neither is captured nor is going to be. -/
theorem create (h : Traced fuel p m₀ m) {x : Address .scope} (hx : ¬m.store.Captured x)
    (name : String) (hv : ∀ c, v = .closure c → Descends fuel p m₀ m c ∧ c.captured ≠ x) :
    Traced fuel p m₀ (m.withStore fun s => s.create x name v) := by
  refine h.alters (Store.alters_create _ x name v) (fun c hc => (hv c hc).1) fun c hc => ?_
  refine Store.shape_create_of_ne ?_ name v
  rcases hc with hc | hc
  · exact fun he => hx (he ▸ hc)
  · exact (hv c hc).2

/-- A slot may be referred to in a scope that is not captured. -/
theorem share (h : Traced fuel p m₀ m) {x : Address .scope} (hx : ¬m.store.Captured x)
    (name : String) {slot : Address .slot} (hs : slot.index < m.store.slots.size) :
    Traced fuel p m₀ (m.withStore fun s => s.share x name slot) := by
  refine h.alters (v := .nil) (Store.alters_share x name .nil hs) nofun fun c hc => ?_
  refine Store.shape_eq_of_scope (Store.scope_bind_of_ne _ (fun he => ?_) name _)
  rcases hc with hc | hc
  · exact hx (he ▸ hc)
  · cases hc

/-- A value may be assigned if the innermost scope neither is captured nor is going to be. -/
theorem assign (h : Traced fuel p m₀ m) {e : Environment} (hx : ¬m.store.Captured e.innermost)
    (name : String)
    (hv : ∀ c, v = .closure c → Descends fuel p m₀ m c ∧ c.captured ≠ e.innermost) :
    Traced fuel p m₀ (m.withStore fun s => s.assign e name v) := by
  refine h.alters (Store.alters_assign _ e name v) (fun c hc => (hv c hc).1) fun c hc => ?_
  refine Store.shape_assign ?_ name v
  rcases hc with hc | hc
  · exact fun he => hx (he ▸ hc)
  · exact (hv c hc).2

/-- A copy may be made. -/
theorem copied (h : Traced fuel p m₀ m) (hs : m.store.Closed)
    (hv : ∀ c, v = .closure c → Descends fuel p m₀ m c) (hw : Eval.copied v m = .ok w m') :
    Traced fuel p m₀ m' ∧ ∀ c, w = .closure c → Descends fuel p m₀ m' c := by
  obtain ⟨s, hc, rfl⟩ := Eval.copied_eq_ok hw
  obtain ⟨hb, hd⟩ := Store.breeds_copy hs hc
  refine ⟨h.breeds hb (Nat.le_refl _), fun c hc => ?_⟩
  obtain ⟨d, hvd, hrep⟩ := hd c hc
  exact (hv d hvd).of_repeats hrep (Nat.le_refl _)

theorem released (h : Traced fuel p m₀ m) (hs : m.store.Closed)
    (hv : ∀ c, v = .closure c → Descends fuel p m₀ m c) (hw : Eval.released v m = .ok w m') :
    Traced fuel p m₀ m' ∧ ∀ c, w = .closure c → Descends fuel p m₀ m' c := by
  obtain ⟨s, hc, rfl⟩ := Eval.released_eq_ok hw
  obtain ⟨hb, hd⟩ := Store.breeds_release hs hc
  refine ⟨h.breeds hb (Nat.le_refl _), fun c hc => ?_⟩
  obtain ⟨d, hvd, hrep⟩ := hd c hc
  exact (hv d hvd).of_repeats hrep (Nat.le_refl _)

/-- A closure may be made, and it comes from its own creation. -/
theorem creates (h : Traced fuel p m₀ m) {b : Moment} (hb : Reaches fuel p m₀ b)
    (hm : b.machine = m) (hs : m.store.Closed) (hd : b.Creates d m') :
    Traced fuel p m₀ m' ∧ Descends fuel p m₀ m' d := by
  subst hm
  refine ⟨?_, ⟨b, d, m', hb, hd⟩, .refl _ _, Nat.le_of_eq hd.closures.symm⟩
  exact h.breeds (Store.breeds_snapshot hs hd.snapshot).1 (hd.closures ▸ hd.id_eq ▸ Nat.le_succ _)

end Traced
end Machine

/-- The scope in which parameters are bound is there, and nothing has captured it. -/
def Task.Clear (s : Store) : Task → Prop
  | .bind e _ => e.innermost.index < s.scopes.size ∧ ¬s.Captured e.innermost
  | _ => True

namespace Moment

/-- The scope that a closure brought in is there, and it is not the innermost one. -/
def Fenced (a : Moment) : Prop :=
  ∀ x ∈ a.context.callable.installed,
    x.index < a.machine.store.scopes.size ∧ x ≠ a.machine.environment.innermost

end Moment

/-- **The contract of lineage**, for a run. -/
def lineage (fuel : Nat) (p : Program) (m₀ : Machine) : Contract where
  before a := Machine.Traced fuel p m₀ a.machine ∧ a.Fenced ∧ a.task.Clear a.machine.store
  during _ m := Machine.Traced fuel p m₀ m
  result a r m := (∀ l, a.task ≠ .evaluateAll l) →
    ∀ v ∈ a.task.values r, ∀ c, v = .closure c → Machine.Descends fuel p m₀ m c

namespace Lineage

open Machine

variable {fuel : Nat} {p : Program} {m₀ : Machine} {a : Moment} {m m' : Machine} {v w : Value}

/-- The innermost scope is not captured, and no value that is given may have captured it. -/
theorem innermost_free (hi : isolation.before a) (hf : a.Fenced) :
    ¬a.machine.store.Captured a.machine.environment.innermost :=
  hi.2.1.own_innermost List.mem_cons_self fun hmem => (hf _ hmem).2 rfl

/-- What is known has not captured a scope that nothing had captured. -/
theorem ne_of_known {s s' : Store} {x : Address .scope} (hx : x.index < s.scopes.size)
    (hfree : ¬s.Captured x) (hv : s.Known s' v) : ∀ c, v = .closure c → c.captured ≠ x := by
  rintro c hc rfl
  exact hfree ((hv c hc).2 hx)

/-- What is known of the values that a script holds: a closure descends from a creation, and it has
been made since or captured what was captured before. -/
def Good (fuel : Nat) (p : Program) (m₀ : Machine) : Provenance → Moment → Machine → Value → Prop
  | .listed, _, _, _ => True
  | _, a, m, v => (∀ c, v = .closure c → Descends fuel p m₀ m c) ∧ a.machine.store.Known m.store v

theorem good_of_not_closure (h : ∀ c, v ≠ .closure c) (o : Provenance) :
    Good fuel p m₀ o a m v := by
  cases o with
  | listed => trivial
  | _ => exact ⟨fun c hc => absurd hc (h c), .of_not_closure h⟩

/-- Such values are a result. -/
theorem accepts (a : Moment) (m : Machine) :
    (lineage fuel p m₀).Accepts (Good fuel p m₀) a m := by
  intro r hv hne v hv'
  obtain ⟨n, t, m₁, γ⟩ := a
  cases t with
  | evaluateAll l => exact absurd rfl (hne l)
  | _ => exact (hv v hv').1

/-- Values that a task gives are such. -/
theorem good_of_result {t : Task} {r : t.Result}
    (h : (lineage fuel p m₀).At (Reaches fuel p m₀) a m) (ho : a.Opens (a.call t m))
    (hr : perform (a.fuel - 1) t m = .ok r m')
    (hv : (lineage fuel p m₀).result (a.call t m) r m') :
    ∀ v ∈ t.values r, Good fuel p m₀ t.provenance a m' v := by
  intro v hv'
  have hk : a.machine.store.Known m'.store v :=
    .trans (h.passes.keeps h.within.isolated)
      ((isolation_kept.of_ok trivial (Reaches.opens h.within ho).isolated hr).2 v hv')
  cases t with
  | evaluateAll l => trivial
  | _ => exact ⟨hv nofun v hv', hk⟩

/-- A copy of such a value may be made. -/
theorem copied (h : (lineage fuel p m₀).At (Reaches fuel p m₀) a m)
    (hd : ∀ c, v = .closure c → Descends fuel p m₀ m c) (hk : a.machine.store.Known m.store v)
    (hw : Eval.copied v m = .ok w m') : Traced fuel p m₀ m' ∧ Good fuel p m₀ .operand a m' w := by
  have hkeeps := h.passes.keeps h.within.isolated
  obtain ⟨hm', hd'⟩ := Traced.copied h.during hkeeps.closed hd hw
  exact ⟨hm', hd', (Isolation.copied hkeeps hk hw).2⟩

/-- A task may be called for that binds parameters in a clear scope. -/
theorem allows {t : Task} (h : (lineage fuel p m₀).At (Reaches fuel p m₀) a m)
    (ht : t.Clear m.store) : (lineage fuel p m₀).Allows (Reaches fuel p m₀) a t m := by
  refine fun _ _ => ⟨⟨h.during, fun x hx => ?_, ht⟩, fun _ hm' => hm'⟩
  obtain ⟨hlt, hne⟩ := h.before.2.1 x hx
  refine ⟨Nat.lt_of_lt_of_le hlt (h.passes.keeps h.within.isolated).scopes_le, ?_⟩
  change x ≠ m.environment.innermost
  rw [h.passes.level.environment]
  exact hne

/-- A scope that is clear at a moment stays clear. -/
theorem clear_of_passes {e : Environment} {l : List (Param × Expr)} (hi : isolation.before a)
    (hp : a.Passes m) (h : Task.Clear a.machine.store (.bind e l)) (l' : List (Param × Expr)) :
    Task.Clear m.store (.bind e l') :=
  ⟨Nat.lt_of_lt_of_le h.1 (hp.keeps hi).scopes_le,
    fun hc => h.2 ((hp.keeps hi).captured _ h.1 hc)⟩

theorem clear_of_asks {t : Task} (h : (lineage fuel p m₀).At (Reaches fuel p m₀) a m)
    (ht : a.task.Asks t) : t.Clear m.store := by
  have hclear := h.before.2.2
  generalize he : a.task = t' at ht hclear
  cases ht with
  | parameters e q l => exact clear_of_passes h.within.isolated h.passes hclear l
  | _ => trivial

/-- The scope of an activation in which parameters are bound is clear when it is made. -/
theorem clear_storeFor {label : String} {callable : Callable} {args : List Expr}
    {receiver : Option (Address .object)} (hi : isolation.before a)
    (ht : a.task = .invoke label callable args receiver) :
    Task.Clear (Eval.storeFor a.machine.store callable)
      (.bind (Eval.scopesFor a.machine.store callable) []) := by
  have hg := hi.2.2
  rw [ht] at hg
  refine ⟨Eval.innermost_lt_storeFor _ _, ?_⟩
  refine Isolation.free_of_mem_scopesFor hi.1 List.mem_cons_self fun hmem => ?_
  exact absurd (hi.1.captured _ (Isolation.captured_of_grounded hg hmem))
    (Nat.not_lt_of_le (Eval.innermost_scopesFor _ _))

theorem clear_storeWith {label : String} {callable : Callable} {args : List Expr}
    {receiver : Option (Address .object)} (hi : isolation.before a)
    (ht : a.task = .invoke label callable args receiver) (l : List (Param × Expr)) :
    Task.Clear (Eval.storeWith a.machine.store callable receiver)
      (.bind (Eval.scopesFor a.machine.store callable) l) := by
  have hk := Isolation.keeps_storeWith hi.1 callable receiver
  obtain ⟨hlt, hfree⟩ := clear_storeFor hi ht
  exact ⟨Nat.lt_of_lt_of_le hlt hk.scopes_le, fun hc => hfree (hk.captured _ hlt hc)⟩

/-- The scope that an activation brings in is there, and parameters are not bound in it. -/
theorem fenced_body {label : String} {callable : Callable} {args : List Expr}
    {receiver : Option (Address .object)} (hi : isolation.before a) (hp : a.Passes m)
    (ht : a.task = .invoke label callable args receiver) :
    (a.inside (.activation label callable (Eval.scopesFor a.machine.store callable))
      callable.routine.body m).Fenced := by
  intro x hx
  have hg := hi.2.2
  rw [ht] at hg
  have hold := hi.1.captured _ (Isolation.captured_of_grounded hg hx)
  refine ⟨Nat.lt_of_lt_of_le hold (hp.keeps hi).scopes_le, ?_⟩
  rintro rfl
  exact absurd hold (Nat.not_lt_of_le (Eval.innermost_scopesFor a.machine.store callable))

/-- Statements may be executed where the scope that a closure brought in is fenced. -/
theorem allowsInside {q : Surroundings} {l : List Stmt}
    (h : (lineage fuel p m₀).At (Reaches fuel p m₀) a m) (hf : (a.inside q l m).Fenced) :
    (lineage fuel p m₀).AllowsInside (Reaches fuel p m₀) a q l m := by
  have hm : Traced fuel p m₀ m := h.during
  refine fun _ _ => ⟨⟨?_, hf, trivial⟩, fun m' hm' => ?_⟩
  · cases q with
    | block =>
        exact hm.breeds (.of_eq (fun _ => Store.content?_newScope _ _ _)
          (Store.scope_newScope_empty _)) (Nat.le_refl _)
    | activation => exact hm.of_eq rfl rfl
  · cases q <;> exact Traced.of_eq hm' rfl rfl

/-- A parameter may be bound to a value of known descent. -/
theorem traced_create {e : Environment} {q : Param} {l : List (Param × Expr)}
    (hc : Task.Clear a.machine.store (.bind e l))
    (hk : a.machine.store.Keeps (a.task.touched a.machine.environment) m.store)
    (hm : Traced fuel p m₀ m) (hv : Good fuel p m₀ .operand a m v) :
    Traced fuel p m₀ (m.withStore fun s => s.create e.innermost q.name v) :=
  hm.create (fun hx => hc.2 (hk.captured _ hc.1 hx)) _ fun c h =>
    ⟨hv.1 c h, ne_of_known hc.1 hc.2 hv.2 c h⟩

/-- **The steps of scripts make no closures but by creations and copies.** -/
theorem stepwise (fuel : Nat) (p : Program) (m₀ : Machine) :
    (lineage fuel p m₀).Stepwise (Reaches fuel p m₀) (Good fuel p m₀) where
  opens hP hb := .opens hP hb
  start _ _ ha := ha.1
  still h hs hc := Traced.breeds h.during (by rw [hs]; exact .refl _) hc
  plain hv := good_of_not_closure hv.ne_closure
  operand hv := hv
  listed _ _ _ := trivial
  result _ _ := accepts _ _
  asks h ht := allows h (clear_of_asks h ht)
  invokes h _ _ := allows h trivial
  answer h ho hr _ hv := good_of_result h ho hr hv
  copied {a m m' v w} h hv hw := by
    refine copied h (fun c hc => ?_)
      (Isolation.known_of_contains (h.passes.keeps h.within.isolated) hv) hw
    obtain ⟨q, hq⟩ := (hc ▸ hv : m.store.Contains (.closure c)).closure
    exact h.during q c hq
  prototype _ _ := good_of_not_closure (by rintro _ ⟨⟩) _
  capture {a c m} h hc := by
    obtain ⟨hm, hd⟩ := Traced.creates h.during h.within rfl h.within.isolated.1 hc
    have hf := (Store.snapshot_spec h.within.isolated.1 hc.snapshot).2
    refine ⟨hm, ?_, .of_fresh (Nat.le_refl _) ?_⟩
    · rintro _ ⟨⟩
      exact hd
    · rintro _ ⟨⟩
      exact hf
  newObject h := ⟨Traced.alters_nil (v := .nil) h.during (Store.alters_newObject _ _)
    (by rintro _ ⟨⟩),
    good_of_not_closure (by rintro _ ⟨⟩) _⟩
  activate {a label callable args receiver m} h _ hs hcount := by
    refine Traced.breeds h.during (.of_eq (fun q => ?_) fun x => ?_) hcount
    · rw [hs]
      cases callable <;> simp [Eval.storeFor]
    · rw [hs]
      cases callable <;> simp [Eval.storeFor]
  receive {a label callable args o m} h ht hs := by
    refine Traced.create (v := .object o) h.during (fun hc => ?_) _ (by rintro _ ⟨⟩)
    rw [hs] at hc
    exact (clear_storeFor h.within.isolated ht).2 hc
  parameters h ht hs l := allows h (hs ▸ clear_storeWith h.within.isolated ht l)
  body _ ht _ h' _ := allowsInside h' (fenced_body h'.within.isolated h'.passes ht)
  block {a l} h _ := by
    refine allowsInside h fun x hx => ?_
    obtain ⟨hlt, -⟩ := h.before.2.1 x hx
    exact ⟨Nat.lt_of_lt_of_le hlt
      (Isolation.keeps_enter .block h.within.isolated.1).scopes_le, Heap.ne_fresh_of_lt hlt⟩
  outside {a q l status m m'} h ho hr _ hv v hv' := by
    have hk := isolation_kept.of_ok trivial (Reaches.opens h.within ho).isolated hr
    refine ⟨fun c hc => ?_, Isolation.known_leave (h.passes.keeps h.within.isolated)
      (hk.2 v hv')⟩
    have hd := hv (by rintro _ ⟨⟩) v hv' c hc
    cases q <;> exact hd.of_eq rfl rfl
  bind {a e q arg l m v} h ht hv := by
    have hc := h.before.2.2
    rw [ht] at hc
    exact traced_create hc (h.passes.keeps h.within.isolated) h.during hv
  bindCopy {a e q arg l m m' v w} h ht hv hw := by
    have hc := h.before.2.2
    rw [ht] at hc
    obtain ⟨hm', hw'⟩ := copied h hv.1 hv.2 hw
    exact traced_create hc
      (Isolation.copied (h.passes.keeps h.within.isolated) hv.2 hw).1 hm' hw'
  share {a e q arg l m name b} h ht hb := by
    have hc := h.before.2.2
    rw [ht] at hc
    obtain ⟨x, -, hb⟩ := Store.lookup_eq_some hb
    have hk := h.passes.keeps h.within.isolated
    exact Traced.share h.during (fun hx => hc.2 (hk.captured _ hc.1 hx)) _
      (hk.closed.binding x name b hb)
  assign {a name e m m' v} _ _ _ _ _ h _ hv := by
    have hfree := innermost_free h.within.isolated h.before.2.1
    have hlt := h.within.there (x := a.machine.environment.innermost) List.mem_cons_self
    have hk := h.passes.keeps h.within.isolated
    refine ⟨?_, accepts _ _⟩
    rw [show m'.environment = a.machine.environment from h.passes.level.environment]
    exact Traced.assign h.during (fun hc => hfree (hk.captured _ hlt hc)) name fun c hc =>
      ⟨hv.1 c hc, ne_of_known hlt hfree hv.2 c hc⟩
  setProto h _ := Traced.alters_nil (v := .nil) h.during (Store.alters_setProto _ _ _ _)
    (by rintro _ ⟨⟩)
  setField h _ hv hw := by
    obtain ⟨hm', hw'⟩ := copied h hv.1 hv.2 hw
    exact hm'.alters_nil (Store.alters_setField _ _ _ _) hw'.1
  released {a m m' v w} h hv hw := by
    have hk := h.passes.keeps h.within.isolated
    obtain ⟨hm', hd⟩ := Traced.released h.during hk.closed hv.1 hw
    obtain ⟨s, hs, rfl⟩ := Eval.released_eq_ok hw
    exact ⟨hm', hd, (Store.Keeps.release hk hs).2⟩

end Lineage

/-- **Every script keeps the contract of lineage.** -/
theorem lineage_kept (fuel : Nat) (p : Program) (m₀ : Machine) :
    (lineage fuel p m₀).Kept (Machine.Reaches fuel p m₀) :=
  (Lineage.stepwise fuel p m₀).kept

end ProtoScript
