import ProtoScript.Proofs.Stepwise
/-!
# Isolation

The scopes of an activation are its own, unless a closure brought one in: the
scope that the closure captured is shared by all activations of the closure.
What is own to an activation is captured by nothing and belongs to no other
activation that is alive (`Store.Separated`), so while a caller waits nothing
can be bound anew in its own scopes.

The contract that carries this through a run says which scopes a task may
change: none if it evaluates an expression, those of its environment if it
executes statements, and always those that some closure captured
(`Store.Keeps`).
-/

namespace ProtoScript
namespace Store

/-- The activations that are alive share no scope but one that closures brought into them. -/
structure Separated (s : Store) (l : List Activation) : Prop where
  there : ∀ x ∈ l, ∀ a ∈ x.environment.scopes, a.index < s.scopes.size
  own : ∀ x ∈ l, ∀ a ∈ x.environment.scopes, a ∉ x.callable.installed → ¬s.Captured a
  disjoint : l.Pairwise fun x y => ∀ a ∈ x.environment.scopes, a ∈ y.environment.scopes →
    a ∈ x.callable.installed ∧ a ∈ y.callable.installed

/-- A change that rebinds names in the scopes `l` and in captured scopes alone. -/
structure Keeps (l : List (Address .scope)) (s s' : Store) : Prop where
  slots_le : s.slots.size ≤ s'.slots.size
  scopes_le : s.scopes.size ≤ s'.scopes.size
  closed : s'.Closed
  captured : ∀ a : Address .scope, a.index < s.scopes.size → s'.Captured a → s.Captured a
  scope : ∀ a : Address .scope, a.index < s.scopes.size → a ∉ l → ¬s.Captured a →
    s'.scope a = s.scope a

/-- What a closure captured is in the store, and it has been made since or captured before. -/
def Known (s s' : Store) (v : Value) : Prop :=
  ∀ c, v = .closure c → c.captured.index < s'.scopes.size ∧
    (c.captured.index < s.scopes.size → s.Captured c.captured)

variable {l l' : List (Address .scope)} {s₀ s s' : Store} {v w : Value}

namespace Keeps

theorem refl (hs : s.Closed) (l : List (Address .scope)) : s.Keeps l s where
  slots_le := Nat.le_refl _
  scopes_le := Nat.le_refl _
  closed := hs
  captured _ _ h := h
  scope _ _ _ _ := rfl

theorem mono (h : s.Keeps l s') (hl : l ⊆ l') : s.Keeps l' s' :=
  ⟨h.slots_le, h.scopes_le, h.closed, h.captured, fun a ha hn => h.scope a ha fun hm => hn (hl hm)⟩

/-- A second change may also rebind names in scopes that are new or captured. -/
theorem trans (h : s₀.Keeps l s) (h' : s.Keeps l' s')
    (hl : ∀ a ∈ l', a.index < s₀.scopes.size → a ∈ l ∨ s₀.Captured a) : s₀.Keeps l s' where
  slots_le := Nat.le_trans h.slots_le h'.slots_le
  scopes_le := Nat.le_trans h.scopes_le h'.scopes_le
  closed := h'.closed
  captured a ha hc := h.captured a ha (h'.captured a (Nat.lt_of_lt_of_le ha h.scopes_le) hc)
  scope a ha hn hc := by
    have ha' := Nat.lt_of_lt_of_le ha h.scopes_le
    have hn' : a ∉ l' := fun hm => (hl a hm ha).elim hn hc
    exact (h'.scope a ha' hn' fun hc' => hc (h.captured a ha hc')).trans (h.scope a ha hn hc)

/-- A small change with a value that is known. -/
theorem alters (h : s₀.Keeps l s) (ha : Alters l' v s s') (hv : s₀.Known s v)
    (hl : ∀ a ∈ l', a.index < s₀.scopes.size → a ∈ l) : s₀.Keeps l s' where
  slots_le := Nat.le_trans h.slots_le ha.slots_le
  scopes_le := Nat.le_trans h.scopes_le ha.scopes_le
  closed := by
    refine ⟨fun a name b hb => ?_, ?_⟩
    · obtain hb | hb := ha.binding a name b hb
      · exact Nat.lt_of_lt_of_le (h.closed.binding a name b hb) ha.slots_le
      · exact hb
    · rintro _ ⟨p, c, hp, rfl⟩
      obtain ⟨q, hq⟩ := ha.content
      obtain hp' | ⟨-, hp'⟩ := hq p
      · exact Nat.lt_of_lt_of_le (h.closed.captured_lt (hp'.symm.trans hp)) ha.scopes_le
      · have hc : v = .closure c := Option.some.inj (hp'.symm.trans hp)
        exact Nat.lt_of_lt_of_le (hv c hc).1 ha.scopes_le
  captured := by
    rintro _ hlt ⟨p, c, hp, rfl⟩
    obtain ⟨q, hq⟩ := ha.content
    obtain hp' | ⟨-, hp'⟩ := hq p
    · exact h.captured _ hlt (captured_of_content? (hp'.symm.trans hp))
    · have hc : v = .closure c := Option.some.inj (hp'.symm.trans hp)
      exact (hv c hc).2 hlt
  scope a hlt hn hc := (ha.scope a fun hm => hn (hl a hm hlt)).trans (h.scope a hlt hn hc)

/-- A copy that is made on the way. -/
theorem enlarges (h : s₀.Keeps l s) (he : s.Enlarges s') : s₀.Keeps l s' where
  slots_le := Nat.le_trans h.slots_le he.slots_le
  scopes_le := Nat.le_trans h.scopes_le he.scopes_le
  closed := he.closed h.closed
  captured := by
    rintro _ hlt ⟨p, c, hp, rfl⟩
    obtain hc | ⟨-, q, hc⟩ | ⟨-, hle, -⟩ := he.closure p c hp
    · exact h.captured _ hlt (captured_of_content? hc)
    · exact h.captured _ hlt (captured_of_content? hc)
    · exact absurd (Nat.lt_of_lt_of_le hlt h.scopes_le) (Nat.not_lt_of_le hle)
  scope a hlt hn hc :=
    (he.scope a (Nat.lt_of_lt_of_le hlt h.scopes_le)).trans (h.scope a hlt hn hc)

end Keeps

namespace Known

theorem of_not_closure (h : ∀ c, v ≠ .closure c) : s₀.Known s v :=
  fun c hc => absurd hc (h c)

theorem mono (h : s₀.Known s v) (hs : s.scopes.size ≤ s'.scopes.size) : s₀.Known s' v :=
  fun c hc => ⟨Nat.lt_of_lt_of_le (h c hc).1 hs, (h c hc).2⟩

/-- What is known since a later store is known since an earlier one. -/
theorem trans (h : s₀.Keeps l s) (hv : s.Known s' v) : s₀.Known s' v :=
  fun c hc => ⟨(hv c hc).1, fun hlt =>
    h.captured _ hlt ((hv c hc).2 (Nat.lt_of_lt_of_le hlt h.scopes_le))⟩

/-- What is held is known. -/
theorem of_content? (h : s₀.Keeps l s) {p : Place} (hp : s.content? p = some v) :
    s₀.Known s v := by
  rintro c rfl
  exact ⟨h.closed.captured_lt hp, fun hlt => h.captured _ hlt (captured_of_content? hp)⟩

theorem of_fresh (h : s₀.scopes.size ≤ s.scopes.size)
    (hf : ∀ c, v = .closure c → s.Fresh s' c.captured) : s₀.Known s' v :=
  fun c hc => ⟨(hf c hc).lt, fun hlt =>
    absurd hlt (Nat.not_lt_of_le (Nat.le_trans h (hf c hc).le))⟩

end Known

/-- **A copy of a known value is known.** -/
theorem Keeps.copy (h : s₀.Keeps l s) (hv : s₀.Known s v) (hc : s.copy v = some (w, s')) :
    s₀.Keeps l s' ∧ s₀.Known s' w := by
  obtain ⟨he, hw⟩ := copy_spec h.closed hc
  refine ⟨h.enlarges he, fun c hc => ?_⟩
  obtain ⟨-, rfl⟩ | ⟨-, hf⟩ := hw c hc
  · exact hv.mono he.scopes_le c rfl
  · exact Known.of_fresh (v := w) h.scopes_le (fun c' hc' => by
      rw [hc] at hc'; cases hc'; exact hf) c hc

theorem Keeps.release (h : s₀.Keeps l s) (hc : s.release v = some (w, s')) :
    s₀.Keeps l s' ∧ s₀.Known s' w := by
  obtain ⟨he, hw⟩ := release_spec h.closed hc
  exact ⟨h.enlarges he, .of_fresh h.scopes_le hw⟩

namespace Separated

variable {γ : Context} {e : Environment}

/-- The scopes of the innermost activation are there. -/
theorem there_innermost (h : s.Separated (γ.live e)) {a : Address .scope} (ha : a ∈ e.scopes) :
    a.index < s.scopes.size :=
  h.there ⟨γ.callable, e⟩ List.mem_cons_self a ha

/-- The own scopes of the innermost activation are captured by nothing. -/
theorem own_innermost (h : s.Separated (γ.live e)) {a : Address .scope} (ha : a ∈ e.scopes)
    (hi : a ∉ γ.callable.installed) : ¬s.Captured a :=
  h.own ⟨γ.callable, e⟩ List.mem_cons_self a ha hi

/-- What is separated stays so while others are at work. -/
theorem keeps {x : List Activation} (h : s.Separated x) (hk : s.Keeps l s') :
    s'.Separated x where
  there y hy a ha := Nat.lt_of_lt_of_le (h.there y hy a ha) hk.scopes_le
  own y hy a ha hi hc := h.own y hy a ha hi (hk.captured a (h.there y hy a ha) hc)
  disjoint := h.disjoint

/-- A new scope belongs to the innermost activation alone. -/
theorem block (h : s.Separated (γ.live e)) (hs : s.Closed) :
    (s.newScope ∅).Separated (γ.live (e.enter s.scopes.fresh)) := by
  have hfree : ¬(s.newScope ∅).Captured s.scopes.fresh :=
    ((Enlarges.refl hs).fresh hs ∅).free
  have hk : s.Keeps [] (s.newScope ∅) :=
    (Keeps.refl hs []).enlarges ((Enlarges.refl hs).newScope nofun)
  have h' := h.keeps hk
  have hd := List.pairwise_cons.1 h.disjoint
  refine ⟨?_, ?_, List.pairwise_cons.2 ⟨?_, hd.2⟩⟩
  · rintro x hx a ha
    obtain rfl | hx := List.mem_cons.1 hx
    · obtain rfl | ha := List.mem_cons.1 ha
      · rw [size_scopes_newScope]
        exact Nat.lt_succ_self _
      · exact h'.there_innermost ha
    · exact h'.there x (List.mem_cons_of_mem _ hx) a ha
  · rintro x hx a ha hi
    obtain rfl | hx := List.mem_cons.1 hx
    · obtain rfl | ha := List.mem_cons.1 ha
      · exact hfree
      · exact h'.own_innermost ha hi
    · exact h'.own x (List.mem_cons_of_mem _ hx) a ha hi
  · rintro y hy a ha ha'
    obtain rfl | ha := List.mem_cons.1 ha
    · exact absurd rfl (Heap.ne_fresh_of_lt (h.there y (List.mem_cons_of_mem _ hy) _ ha'))
    · exact hd.1 y hy a ha ha'

/-- **A new activation is separated from those that wait**: its own scopes are new, and the scope
that a closure brings in is captured, so no other activation owns it. -/
theorem activation (h : s₀.Separated (γ.live e)) (hk : s₀.Keeps l s) {callable : Callable}
    {e' : Environment} (hthere : ∀ a ∈ e'.scopes, a.index < s.scopes.size)
    (hown : ∀ a ∈ e'.scopes, a ∉ callable.installed →
      s₀.scopes.size ≤ a.index ∧ ¬s.Captured a)
    (hinst : ∀ a ∈ callable.installed, s₀.Captured a) :
    s.Separated (Context.live ⟨callable, γ.live e⟩ e') := by
  have h' := h.keeps hk
  refine ⟨?_, ?_, List.pairwise_cons.2 ⟨?_, h'.disjoint⟩⟩
  · rintro x hx a ha
    obtain rfl | hx := List.mem_cons.1 hx
    · exact hthere a ha
    · exact h'.there x hx a ha
  · rintro x hx a ha hi
    obtain rfl | hx := List.mem_cons.1 hx
    · exact (hown a ha hi).2
    · exact h'.own x hx a ha hi
  · rintro y hy a ha ha'
    have hlt := h.there y hy a ha'
    have hi : a ∈ callable.installed := by
      refine Decidable.byContradiction fun hi => ?_
      exact absurd hlt (Nat.not_lt_of_le (hown a ha hi).1)
    refine ⟨hi, Decidable.byContradiction fun hn => ?_⟩
    exact h.own y hy a ha' hn (hinst a hi)

end Separated
end Store

namespace Eval

/-- A copy leads to what the store holds. -/
theorem closed_of_copied {v w : Value} {m m' : Machine} (hs : m.store.Closed)
    (h : copied v m = .ok w m') : m'.store.Closed := by
  obtain ⟨s, hc, rfl⟩ := copied_eq_ok h
  exact (Store.copy_spec hs hc).1.closed hs

/-- The scopes of an activation are new, but for the one that a closure brings in. -/
theorem mem_scopesFor {s : Store} {callable : Callable} {a : Address .scope}
    (h : a ∈ (scopesFor s callable).scopes) : a ∈ callable.installed ∨
      s.scopes.size ≤ a.index ∧ a.index < (storeFor s callable).scopes.size := by
  cases callable with
  | function r =>
      obtain rfl := List.mem_singleton.1 h
      refine .inr ⟨Nat.le_refl _, ?_⟩
      rw [storeFor, Store.size_scopes_newScope]
      exact Nat.lt_succ_self _
  | closure c =>
      have hsize : (storeFor s (.closure c)).scopes.size = s.scopes.size + 1 + 1 := by
        simp [storeFor]
      have hfresh : (s.newScope ∅).scopes.fresh.index = s.scopes.size + 1 :=
        Store.size_scopes_newScope s ∅
      rw [hsize]
      obtain h | h := List.mem_cons.1 h
      · have ha : a.index = s.scopes.size + 1 := h ▸ hfresh
        exact .inr (by omega)
      · obtain h | h := List.mem_cons.1 h
        · exact .inl (List.mem_singleton.2 h)
        · have ha : a.index = s.scopes.size := by rw [List.mem_singleton.1 h]; rfl
          exact .inr (by omega)

theorem innermost_scopesFor (s : Store) (callable : Callable) :
    s.scopes.size ≤ (scopesFor s callable).innermost.index := by
  cases callable with
  | function r => exact Nat.le_refl _
  | closure c =>
      have hfresh : (s.newScope ∅).scopes.fresh.index = s.scopes.size + 1 :=
        Store.size_scopes_newScope s ∅
      change s.scopes.size ≤ (s.newScope ∅).scopes.fresh.index
      omega

theorem innermost_lt_storeFor (s : Store) (callable : Callable) :
    (scopesFor s callable).innermost.index < (storeFor s callable).scopes.size := by
  cases callable with
  | function r =>
      rw [storeFor, Store.size_scopes_newScope]
      exact Nat.lt_succ_self _
  | closure c =>
      rw [storeFor, Store.size_scopes_newScope]
      exact Nat.lt_succ_self _

/-- Scopes that are made for an activation change no view. -/
theorem alters_storeFor (s : Store) (callable : Callable) (v : Value) :
    Store.Alters [] v s (storeFor s callable) := by
  cases callable with
  | function r => exact Store.alters_newScope s v
  | closure c =>
      exact .of_eq v rfl (by simp [storeFor]; omega) (by simp [storeFor]) (by simp [storeFor])

end Eval

namespace Task

/-- The scopes in which a task may rebind names. -/
def touched (e : Environment) : Task → List (Address .scope)
  | .execute _ | .executeAll _ | .block _ | .iterate .. => e.scopes
  | .bind e' _ => [e'.innermost]
  | .evaluate _ | .evaluateAll _ | .call _ | .builtin .. | .invoke .. => []

/-- A closure that is invoked is held somewhere. -/
def Grounded (s : Store) : Task → Prop
  | .invoke _ (.closure c) _ _ => s.Captured c.captured
  | _ => True

end Task

/-- **The contract of isolation.** -/
def isolation : Contract where
  before a := a.machine.store.Closed ∧
    a.machine.store.Separated (a.context.live a.machine.environment) ∧
    a.task.Grounded a.machine.store
  during a m := a.machine.store.Keeps (a.task.touched a.machine.environment) m.store
  result a r m := ∀ v ∈ a.task.values r, a.machine.store.Known m.store v

namespace Isolation

variable {P : Moment → Prop} {a : Moment} {m m' : Machine} {s₀ s : Store}
  {l : List (Address .scope)} {v w : Value}

/-- What a task calls for touches no scope that it does not touch itself. -/
theorem touched_of_asks {t t' : Task} (h : t.Asks t') (e : Environment) :
    t'.touched e ⊆ t.touched e := by
  cases h <;> first | exact List.nil_subset _ | exact List.Subset.refl _

/-- Only an invocation needs a closure. -/
theorem grounded_of_asks {t t' : Task} (h : t.Asks t') (s : Store) : t'.Grounded s := by
  cases h <;> trivial

/-- A task that finds its closure may be called for if what it touches is touched or new. -/
theorem allows {t : Task} (h : isolation.At P a m) (hg : t.Grounded m.store)
    (ht : ∀ x ∈ t.touched m.environment, x.index < a.machine.store.scopes.size →
      x ∈ a.task.touched a.machine.environment) : isolation.Allows P a t m := by
  have hm := h.during
  refine fun _ _ => ⟨⟨hm.closed, ?_, hg⟩, fun m' hm' =>
    Store.Keeps.trans hm hm' fun x hx hlt => .inl (ht x hx hlt)⟩
  rw [show (a.call t m).machine.environment = a.machine.environment from
    h.passes.level.environment]
  exact h.before.2.1.keeps hm

/-- What is held is known. -/
theorem known_of_contains (h : s₀.Keeps l s) (hv : s.Contains v) : s₀.Known s v := by
  rintro c rfl
  obtain ⟨p, hp⟩ := hv.closure
  exact Store.Known.of_content? h hp c rfl

/-- A copy of a known value is known. -/
theorem copied (h : s₀.Keeps l m.store) (hv : s₀.Known m.store v)
    (hw : Eval.copied v m = .ok w m') : s₀.Keeps l m'.store ∧ s₀.Known m'.store w := by
  obtain ⟨s, hs, rfl⟩ := Eval.copied_eq_ok hw
  exact h.copy hv hs

/-- To take a machine in somewhere rebinds nothing. -/
theorem keeps_enter (p : Surroundings) (h : m.store.Closed) :
    m.store.Keeps [] (p.enter m).store := by
  cases p with
  | block => exact (Store.Keeps.refl h []).enlarges ((Store.Enlarges.refl h).newScope nofun)
  | activation => exact .refl h []

/-- What is known inside is known outside. -/
theorem known_leave {p : Surroundings} {e : Environment} (h : s₀.Keeps l m.store)
    (hv : (p.enter m).store.Known m'.store v) : s₀.Known (p.leave e m').store v := by
  have hk := Store.Known.trans h (Store.Known.trans (keeps_enter p h.closed) hv)
  cases p <;> exact hk

/-- Scopes may be made for an activation. -/
theorem keeps_storeFor (hs : s.Closed) (callable : Callable) :
    s.Keeps [] (Eval.storeFor s callable) :=
  .alters (.refl hs _) (Eval.alters_storeFor s callable .nil) (.of_not_closure nofun) nofun

/-- The receiver may be bound in them. -/
theorem keeps_storeWith (hs : s.Closed) (callable : Callable)
    (receiver : Option (Address .object)) :
    (Eval.storeFor s callable).Keeps [(Eval.scopesFor s callable).innermost]
      (Eval.storeWith s callable receiver) := by
  have hc := (keeps_storeFor hs callable).closed
  cases receiver with
  | none => exact .refl hc _
  | some o =>
      exact .alters (.refl hc _) (Store.alters_create _ _ _ _) (.of_not_closure nofun)
        fun x hx _ => hx

/-- The innermost scope of an activation was not there before. -/
theorem new_innermost {callable : Callable} {x : Address .scope}
    (hx : x ∈ [(Eval.scopesFor s callable).innermost]) : ¬x.index < s.scopes.size := by
  rw [List.mem_singleton.1 hx]
  exact Nat.not_lt_of_le (Eval.innermost_scopesFor s callable)

/-- What an activation brings in was captured before it was invoked. -/
theorem captured_of_grounded {label : String} {callable : Callable} {args : List Expr}
    {receiver : Option (Address .object)}
    (h : Task.Grounded s (.invoke label callable args receiver)) {x : Address .scope}
    (hx : x ∈ callable.installed) : s.Captured x := by
  cases callable with
  | function r => cases hx
  | closure c =>
      obtain rfl := List.mem_singleton.1 hx
      exact h

/-- A scope of an activation is captured by nothing when it is made, unless it was brought in. -/
theorem free_of_mem_scopesFor (hs : s.Closed) {callable : Callable} {x : Address .scope}
    (hx : x ∈ (Eval.scopesFor s callable).scopes) (hi : x ∉ callable.installed) :
    ¬(Eval.storeFor s callable).Captured x := fun hc => by
  obtain ⟨hle, -⟩ := (Eval.mem_scopesFor hx).resolve_left hi
  obtain ⟨p, c, hp, rfl⟩ := hc
  obtain ⟨q, hq⟩ := (Eval.alters_storeFor s callable .nil).content
  obtain hp' | ⟨-, hp'⟩ := hq p
  · exact absurd (hs.captured_lt (hp'.symm.trans hp)) (Nat.not_lt_of_le hle)
  · cases hp'.symm.trans hp

/-- The body of a routine is executed in scopes that are separated from those of the callers. -/
theorem allowsInside_body {label : String} {callable : Callable} {args : List Expr}
    {receiver : Option (Address .object)} (h : isolation.At P a m')
    (ht : a.task = .invoke label callable args receiver)
    (hk : (Eval.storeFor a.machine.store callable).Keeps
      [(Eval.scopesFor a.machine.store callable).innermost] m'.store) :
    isolation.AllowsInside P a
      (.activation label callable (Eval.scopesFor a.machine.store callable))
      callable.routine.body m' := by
  obtain ⟨n, t, m₀, γ⟩ := a
  obtain rfl : t = _ := ht
  have hm : m₀.store.Keeps [] m'.store := h.during
  have hinst : ∀ x ∈ callable.installed, m₀.store.Captured x := fun x hx =>
    captured_of_grounded h.before.2.2 hx
  refine fun _ _ => ⟨⟨hm.closed, ?_, trivial⟩, fun m₁ hm₁ => Store.Keeps.trans hm hm₁ ?_⟩
  · change m'.store.Separated (Context.live ⟨callable, γ.live m'.environment⟩
      (Eval.scopesFor m₀.store callable))
    rw [h.passes.level.environment]
    refine h.before.2.1.activation hm (fun x hx => ?_) (fun x hx hi => ?_) hinst
    · obtain hi | ⟨-, hlt⟩ := Eval.mem_scopesFor hx
      · exact Nat.lt_of_lt_of_le (h.before.1.captured x (hinst x hi)) hm.scopes_le
      · exact Nat.lt_of_lt_of_le hlt hk.scopes_le
    · obtain ⟨hle, hlt⟩ := (Eval.mem_scopesFor hx).resolve_left hi
      exact ⟨hle, fun hc => free_of_mem_scopesFor h.before.1 hx hi (hk.captured x hlt hc)⟩
  · intro x hx hlt
    obtain hi | ⟨hle, -⟩ := Eval.mem_scopesFor hx
    · exact .inr (hinst x hi)
    · exact absurd hlt (Nat.not_lt_of_le hle)

/-- The statements of a block are executed in one more scope. -/
theorem allowsInside_block {l : List Stmt} (h : isolation.At P a a.machine)
    (ht : a.task = .block l) : isolation.AllowsInside P a .block l a.machine := by
  obtain ⟨n, t, m₀, γ⟩ := a
  obtain rfl : t = _ := ht
  have hm := keeps_enter .block h.before.1
  refine fun _ _ => ⟨⟨hm.closed, h.before.2.1.block h.before.1, trivial⟩, fun m' hm' => ?_⟩
  refine Store.Keeps.trans (hm.mono (List.nil_subset _)) hm' fun x hx hlt => .inl ?_
  obtain rfl | hx := List.mem_cons.1 hx
  · exact absurd rfl (Heap.ne_fresh_of_lt hlt)
  · exact hx

/-- **The steps of scripts observe isolation**, and values are known. -/
theorem stepwise : isolation.Stepwise (fun _ => True) fun _ a m v =>
    a.machine.store.Known m.store v where
  opens _ _ := trivial
  start _ _ ha := .refl ha.1 _
  still h hs _ := by
    change Store.Keeps _ _ _
    rw [hs]
    exact h.during
  plain hv _ := .of_not_closure hv.ne_closure
  operand hv := hv
  listed _ hv hd := hv.mono hd.scopes_le
  result _ _ _ hv := hv
  asks {a t m} h ht := by
    refine allows h (grounded_of_asks ht _) fun x hx _ => touched_of_asks ht _ ?_
    rwa [← h.passes.level.environment]
  invokes {a label callable args receiver m} h hc _ := by
    refine allows h ?_ nofun
    cases callable with
    | function r => trivial
    | closure c =>
        obtain ⟨p, hp⟩ := hc c rfl
        exact Store.captured_of_content? hp
  answer h _ _ _ hv v hv' := .trans h.during (hv v hv')
  copied h hv hw := copied h.during (known_of_contains h.during hv) hw
  prototype _ _ := .of_not_closure nofun
  capture {a c m} h hc := by
    obtain ⟨he, hf⟩ := Store.snapshot_spec h.before.1 hc.snapshot
    refine ⟨Store.Keeps.enlarges h.during he, .of_fresh (Nat.le_refl _) ?_⟩
    rintro _ ⟨⟩
    exact hf
  newObject h := ⟨.alters h.during (Store.alters_newObject _ .nil) (.of_not_closure nofun) nofun,
    .of_not_closure nofun⟩
  activate {a label callable args receiver m} h _ hs _ := by
    change Store.Keeps _ _ _
    rw [hs]
    exact (keeps_storeFor h.before.1 callable).mono (List.nil_subset _)
  receive h _ _ := .alters h.during (Store.alters_create _ _ _ _) (.of_not_closure nofun)
    fun _ hx hlt => absurd hlt (new_innermost hx)
  parameters h _ _ _ := allows h trivial fun _ hx hlt => absurd hlt (new_innermost hx)
  body {a label callable args receiver l m m'} h ht hs h' hd := by
    have hk := keeps_storeWith h.before.1 callable receiver
    rw [← hs] at hk
    exact allowsInside_body h' ht (hk.trans hd fun x hx _ => .inl hx)
  block := allowsInside_block
  outside h _ _ _ hv v hv' := known_leave h.during (hv v hv')
  bind {a e p arg l m v} h ht hv := by
    refine .alters h.during (Store.alters_create _ _ _ _) hv fun x hx _ => ?_
    rwa [ht]
  bindCopy {a e p arg l m m' v w} h ht hv hw := by
    obtain ⟨hm', hw⟩ := copied h.during hv hw
    refine .alters hm' (Store.alters_create _ _ _ _) hw fun x hx _ => ?_
    rwa [ht]
  share {a e p arg l m name b} h ht hb := by
    obtain ⟨x, -, hb⟩ := Store.lookup_eq_some hb
    have hs := (Store.Keeps.closed h.during).binding x name b hb
    refine .alters h.during (Store.alters_share _ _ .nil hs) (.of_not_closure nofun)
      fun x hx _ => ?_
    rwa [ht]
  assign {a name e m m' v} _ ht _ _ _ h' _ hv := by
    refine ⟨.alters h'.during (Store.alters_assign _ _ _ _) hv fun x hx _ => ?_, fun _ hv => hv⟩
    rwa [ht, ← h'.passes.level.environment]
  setProto h _ := .alters h.during (Store.alters_setProto _ .nil _ _) (.of_not_closure nofun) nofun
  setField {a m m' o name v w} h _ hv hw := by
    obtain ⟨hm', hw⟩ := copied h.during hv hw
    exact .alters hm' (Store.alters_setField _ _ _ _) hw nofun
  released {a m m' v w} h _ hw := by
    obtain ⟨s, hs, rfl⟩ := Eval.released_eq_ok hw
    exact Store.Keeps.release h.during hs

end Isolation

/-- **Every script keeps the contract of isolation.** -/
theorem isolation_kept : isolation.Kept fun _ => True :=
  Isolation.stepwise.kept

/-- The only scope of a machine on which `main` starts is bound to nothing. -/
theorem isolation_main (fuel : Nat) (r : Routine) (m : Machine) (routines : RoutineTable) :
    isolation.before (Machine.main fuel r (m.load routines)) := by
  have hscope : ∀ a, ((∅ : Store).newScope ∅).scope a = ∅ := fun a => by
    rw [Store.scope_newScope_empty]
    rfl
  have hcontent : ∀ p, ((∅ : Store).newScope ∅).content? p = none := fun p => by
    rw [Store.content?_newScope]
    cases p <;> rfl
  have hfree : ∀ a, ¬((∅ : Store).newScope ∅).Captured a := by
    rintro a ⟨p, c, hp, -⟩
    rw [hcontent] at hp
    cases hp
  refine ⟨⟨fun a name b hb => ?_, fun a ha => absurd ha (hfree a)⟩, ⟨?_, ?_, ?_⟩, trivial⟩
  · have hb' : ((∅ : Store).newScope ∅).binding? a name = some b := hb
    rw [Store.binding?, hscope] at hb'
    cases hb'
  · intro x hx a ha
    obtain rfl := List.mem_singleton.1 hx
    obtain rfl := List.mem_singleton.1 ha
    exact Nat.one_pos
  · exact fun x _ a _ _ => hfree a
  · exact List.pairwise_singleton _ _

variable {fuel : Nat} {p : Program} {m m' : Machine} {a : Moment}

/-- **Every moment of a run satisfies the contract of isolation.** -/
theorem Machine.Reaches.isolated (h : Machine.Reaches fuel p m a) : isolation.before a := by
  induction h with
  | main _ _ => exact isolation_main _ _ _ _
  | opens _ hb ih => exact isolation_kept.before_of_opens trivial ih hb

/-- The scopes of an environment are there. -/
theorem Machine.Reaches.there (h : Machine.Reaches fuel p m a) {x : Address .scope}
    (hx : x ∈ a.machine.environment.scopes) : x.index < a.machine.store.scopes.size :=
  h.isolated.2.1.there_innermost hx

/-- The task of a moment ends on a machine, with a result or with a failure. -/
def Moment.Ends (a : Moment) (m : Machine) : Prop :=
  (∃ r, perform a.fuel a.task a.machine = .ok r m) ∨
    ∃ f, perform a.fuel a.task a.machine = .error (.failed f) m

theorem Moment.Ends.level (hm : a.Ends m) : a.machine.Level m := by
  obtain ⟨r, hr⟩ | ⟨f, hf⟩ := hm
  · exact level_of_perform_eq_ok hr
  · exact level_of_perform_eq_error hf

/-- What a task has done to the store when it ends. -/
theorem Moment.Ends.keeps (hm : a.Ends m) (ha : isolation.before a) :
    a.machine.store.Keeps (a.task.touched a.machine.environment) m.store := by
  obtain ⟨r, hr⟩ | ⟨f, hf⟩ := hm
  · exact (isolation_kept.of_ok trivial ha hr).1
  · exact isolation_kept.of_failed trivial ha hf

/-- What a task has done to the store so far. -/
theorem Moment.Passes.keeps (hm : a.Passes m) (ha : isolation.before a) :
    a.machine.store.Keeps (a.task.touched a.machine.environment) m.store :=
  isolation_kept.during_of_passes trivial ha hm

/-- **The activations that are alive are separated all the time.** -/
theorem Moment.Passes.separated (hm : a.Passes m) (ha : isolation.before a) :
    m.store.Separated (a.context.live m.environment) := by
  rw [hm.level.environment]
  exact ha.2.1.keeps (hm.keeps ha)

end ProtoScript
