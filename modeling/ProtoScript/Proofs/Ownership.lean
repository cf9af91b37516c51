import ProtoScript.Proofs.Isolation
/-!
# Ownership of captured scopes

A closure that captures by value owns the scope that it captured: no other
place holds such a closure with the same scope (`Store.Owned`).  This is so
because whatever is stored is a copy, a snapshot or a value that has just been
released, and each of these comes with a scope that has been made for it and
that nothing else has captured.

Calls by name and calls of methods take the closure that is held without
copying it.  They do not store it, so this does no harm.

A scope that is owned never comes to another place either: a closure that
captures by value and holds a scope that was there before is where it was
before (`Store.Settles`).
-/

namespace ProtoScript

namespace Store

/-- Two places never hold closures that capture by value and captured the same scope. -/
def Owned (s : Store) : Prop :=
  ∀ p q c d, p ≠ q → s.content? p = some (.closure c) → s.content? q = some (.closure d) →
    c.byRef = false → d.byRef = false → c.captured ≠ d.captured

/-- A change after which every scope has one owner, and scopes that were there before have no
owner but the one before. -/
structure Settles (s s' : Store) : Prop where
  scopes_le : s.scopes.size ≤ s'.scopes.size
  owned : s'.Owned
  settled : ∀ p c, s'.content? p = some (.closure c) → c.byRef = false →
    c.captured.index < s.scopes.size → s.content? p = some (.closure c)

/-- A closure that captures by value comes with a scope that has been made since. -/
def Owner (s s' : Store) (v : Value) : Prop :=
  ∀ c, v = .closure c → c.byRef = false → s.Fresh s' c.captured

variable {l : List (Address .scope)} {s₀ s s' : Store} {v w : Value} {a : Address .scope}

theorem Fresh.trans (hs : s₀.scopes.size ≤ s.scopes.size) (h : s.Fresh s' a) : s₀.Fresh s' a :=
  ⟨Nat.le_trans hs h.le, h.lt, h.free⟩

theorem Owner.of_not_closure (h : ∀ c, v ≠ .closure c) : s₀.Owner s v :=
  fun c hc => absurd hc (h c)

/-- A copy is an owner, whatever it is a copy of. -/
theorem owner_of_copy (hs : s.Closed) (h : s.copy v = some (w, s'))
    (hle : s₀.scopes.size ≤ s.scopes.size) : s₀.Owner s' w := by
  intro c hc hr
  obtain ⟨hr', -⟩ | ⟨-, hf⟩ := (copy_spec hs h).2 c hc
  · rw [hr] at hr'
    cases hr'
  · exact hf.trans hle

namespace Settles

theorem refl (h : s.Owned) : s.Settles s :=
  ⟨Nat.le_refl _, h, fun _ _ hp _ _ => hp⟩

theorem trans (h : s₀.Settles s) (h' : s.Settles s') : s₀.Settles s' where
  scopes_le := Nat.le_trans h.scopes_le h'.scopes_le
  owned := h'.owned
  settled p c hp hr hlt :=
    h.settled p c (h'.settled p c hp hr (Nat.lt_of_lt_of_le hlt h.scopes_le)) hr hlt

/-- **A copy brings no second owner into the store.** -/
theorem enlarges (h : s₀.Settles s) (he : s.Enlarges s') : s₀.Settles s' := by
  -- A closure with a scope that was there before the copy is where it was.
  have hold : ∀ p c, s'.content? p = some (.closure c) → c.byRef = false →
      c.captured.index < s.scopes.size → s.content? p = some (.closure c) := by
    intro p c hp hr hlt
    obtain hc | ⟨hr', -⟩ | ⟨-, hle, -⟩ := he.closure p c hp
    · exact hc
    · rw [hr] at hr'
      cases hr'
    · exact absurd hlt (Nat.not_lt_of_le hle)
  refine ⟨Nat.le_trans h.scopes_le he.scopes_le, fun p q c d hpq hp hq hc hd hcd => ?_,
    fun p c hp hr hlt => h.settled p c
      (hold p c hp hr (Nat.lt_of_lt_of_le hlt h.scopes_le)) hr hlt⟩
  by_cases hlt : c.captured.index < s.scopes.size
  · exact h.owned p q c d hpq (hold p c hp hc hlt) (hold q d hq hd (hcd ▸ hlt)) hc hd hcd
  · exact he.distinct p q c d hpq hp hq hc hd (Nat.le_of_not_lt hlt) hcd

/-- **An owner may be stored.** -/
theorem alters (h : s₀.Settles s) (ha : Alters l v s s') (hv : s₀.Owner s v) :
    s₀.Settles s' := by
  obtain ⟨x, hx⟩ := ha.content
  -- What is held afterwards was held before, or it is the value that was stored.
  have hcases : ∀ p c, s'.content? p = some (.closure c) →
      s.content? p = some (.closure c) ∨ p = x ∧ v = .closure c := by
    intro p c hp
    obtain hp' | ⟨rfl, hp'⟩ := hx p
    · exact .inl (hp'.symm.trans hp)
    · exact .inr ⟨rfl, Option.some.inj (hp'.symm.trans hp)⟩
  refine ⟨Nat.le_trans h.scopes_le ha.scopes_le, fun p q c d hpq hp hq hc hd hcd => ?_,
    fun p c hp hr hlt => ?_⟩
  · obtain hp | ⟨rfl, hvc⟩ := hcases p c hp
    · obtain hq | ⟨rfl, hvd⟩ := hcases q d hq
      · exact h.owned p q c d hpq hp hq hc hd hcd
      · exact (hv d hvd hd).free (hcd ▸ captured_of_content? hp)
    · obtain hq | ⟨rfl, -⟩ := hcases q d hq
      · exact (hv c hvc hc).free (hcd ▸ captured_of_content? hq)
      · exact hpq rfl
  · obtain hp | ⟨-, hvc⟩ := hcases p c hp
    · exact h.settled p c hp hr hlt
    · exact absurd hlt (Nat.not_lt_of_le (hv c hvc hr).le)

end Settles
end Store

/-- Which closures a task gives with a scope made for them: the value of an expression if it
captures by value, and every value that leaves an activation. -/
def Task.Gives : Task → Closure → Prop
  | .evaluate _, c => c.byRef = false
  | .evaluateAll _, _ => False
  | _, _ => True

/-- **The contract of ownership.** -/
def ownership : Contract where
  before a := a.machine.store.Owned
  during a m := a.machine.store.Settles m.store
  result a r m := ∀ v ∈ a.task.values r, ∀ c, v = .closure c → a.task.Gives c →
    a.machine.store.Fresh m.store c.captured

namespace Ownership

variable {P : Moment → Prop} {a : Moment} {m m' : Machine} {s₀ : Store} {v w : Value}

/-- To take a machine in somewhere makes no owner. -/
theorem settles_enter (p : Surroundings) (h : m.store.Owned) :
    m.store.Settles (p.enter m).store := by
  cases p with
  | block =>
      exact (Store.Settles.refl h).alters (Store.alters_newScope _ .nil) (.of_not_closure nofun)
  | activation => exact .refl h

/-- A copy may be made, and it is an owner. -/
theorem copied (hs : m.store.Closed) (h : s₀.Settles m.store) (hw : Eval.copied v m = .ok w m') :
    s₀.Settles m'.store ∧ s₀.Owner m'.store w := by
  obtain ⟨s, hc, rfl⟩ := Eval.copied_eq_ok hw
  exact ⟨h.enlarges (Store.copy_spec hs hc).1, Store.owner_of_copy hs hc h.scopes_le⟩

/-- What happens elsewhere is settled if going there is. -/
theorem allowsInside {p : Surroundings} {l : List Stmt} (h : ownership.At P a m) :
    ownership.AllowsInside P a p l m := by
  have hm := Store.Settles.trans h.during (settles_enter p (Store.Settles.owned h.during))
  refine fun _ _ => ⟨hm.owned, fun m' hm' => ?_⟩
  cases p <;> exact hm.trans hm'

/-- What is known of the values that a script holds: one that a call gives has a scope made for it,
and so has the value of an expression if it captures by value. -/
def Good : Provenance → Moment → Machine → Value → Prop
  | .operand, a, m, v => a.machine.store.Owner m.store v
  | .listed, _, _, _ => True
  | .given, a, m, v => ∀ c, v = .closure c → a.machine.store.Fresh m.store c.captured

/-- Such values are a result. -/
theorem accepts (a : Moment) (m : Machine) : ownership.Accepts Good a m := by
  intro r hv v hv' c hc hg
  obtain ⟨n, t, m₀, γ⟩ := a
  cases t with
  | evaluate e => exact hv v hv' c hc hg
  | evaluateAll l => exact hg.elim
  | _ => exact hv v hv' c hc

/-- Values that a task gives are such. -/
theorem good_of_result {t : Task} {r : t.Result} (h : a.machine.store.Settles m.store)
    (hv : ownership.result (a.call t m) r m') : ∀ v ∈ t.values r, Good t.provenance a m' v := by
  intro v hv'
  cases t with
  | evaluate e => exact fun c hc hr => (hv v hv' c hc hr).trans h.scopes_le
  | evaluateAll l => trivial
  | _ => exact fun c hc => (hv v hv' c hc trivial).trans h.scopes_le

/-- **The steps of scripts leave every scope one owner.** -/
theorem stepwise : ownership.Stepwise isolation.before Good where
  opens ha hb := isolation_kept.before_of_opens trivial ha hb
  start _ _ ho := .refl ho
  still h hs _ := by
    change Store.Settles _ _
    rw [hs]
    exact h.during
  plain hv o := by
    cases o with
    | operand => exact .of_not_closure hv.ne_closure
    | listed => trivial
    | given => exact fun c hc => absurd hc (hv.ne_closure c)
  operand hv c hc _ := hv c hc
  listed _ _ _ := trivial
  result _ _ := accepts _ _
  asks h _ := fun _ _ => ⟨Store.Settles.owned h.during, fun _ => Store.Settles.trans h.during⟩
  invokes h _ _ := fun _ _ =>
    ⟨Store.Settles.owned h.during, fun _ => Store.Settles.trans h.during⟩
  answer h _ _ _ hv := good_of_result h.during hv
  copied h _ hw := copied (h.passes.keeps h.within).closed h.during hw
  prototype _ _ := .of_not_closure nofun
  capture h hc := by
    obtain ⟨he, hf⟩ := Store.snapshot_spec h.within.1 hc.snapshot
    refine ⟨Store.Settles.enlarges h.during he, ?_⟩
    rintro _ ⟨⟩ -
    exact hf
  newObject h := ⟨.alters h.during (Store.alters_newObject _ .nil) (.of_not_closure nofun),
    .of_not_closure nofun⟩
  activate h _ hs _ := by
    change Store.Settles _ _
    rw [hs]
    exact .alters h.during (Eval.alters_storeFor _ _ .nil) (.of_not_closure nofun)
  receive h _ _ := .alters h.during (Store.alters_create _ _ _ _) (.of_not_closure nofun)
  parameters h _ _ _ := fun _ _ =>
    ⟨Store.Settles.owned h.during, fun _ => Store.Settles.trans h.during⟩
  body _ _ _ h' _ := allowsInside h'
  block h _ := allowsInside h
  outside {a p l status m m'} h _ _ _ hv v hv' c hc := by
    have hm := Store.Settles.trans h.during (settles_enter p (Store.Settles.owned h.during))
    have hf := (hv v hv' c hc trivial).trans hm.scopes_le
    cases p <;> exact hf
  bind h _ hv := .alters h.during (Store.alters_create _ _ _ _) hv
  bindCopy h _ _ hw := by
    obtain ⟨hm', hv⟩ := copied (h.passes.keeps h.within).closed h.during hw
    exact hm'.alters (Store.alters_create _ _ _ _) hv
  share h _ hb := by
    obtain ⟨x, -, hb⟩ := Store.lookup_eq_some hb
    have hs := (h.passes.keeps h.within).closed.binding x _ _ hb
    exact .alters h.during (Store.alters_share _ _ .nil hs) (.of_not_closure nofun)
  assign _ _ _ _ _ h' _ hv :=
    ⟨.alters h'.during (Store.alters_assign _ _ _ _) hv, accepts _ _⟩
  setProto h _ := .alters h.during (Store.alters_setProto _ .nil _ _) (.of_not_closure nofun)
  setField h _ _ hw := by
    obtain ⟨hm', hv⟩ := copied (h.passes.keeps h.within).closed h.during hw
    exact hm'.alters (Store.alters_setField _ _ _ _) hv
  released h _ hw := by
    obtain ⟨s, hs, rfl⟩ := Eval.released_eq_ok hw
    obtain ⟨he, hf⟩ := Store.release_spec (h.passes.keeps h.within).closed hs
    exact ⟨Store.Settles.enlarges h.during he, fun c hc =>
      (hf c hc).trans (Store.Settles.scopes_le h.during)⟩

end Ownership

/-- **Every script keeps the contract of ownership.** -/
theorem ownership_kept : ownership.Kept isolation.before :=
  Ownership.stepwise.kept

/-- Nothing is held when `main` starts. -/
theorem ownership_main (fuel : Nat) (r : Routine) (m : Machine) (routines : RoutineTable) :
    ownership.before (Machine.main fuel r (m.load routines)) := by
  intro p q c d _ hp
  cases p <;> cases hp

/-- **Every moment of a run satisfies the contract of ownership.** -/
theorem Machine.Reaches.owned {fuel : Nat} {p : Program} {m : Machine} {a : Moment}
    (h : Machine.Reaches fuel p m a) : ownership.before a := by
  induction h with
  | main _ _ => exact ownership_main _ _ _ _
  | opens h hb ih => exact ownership_kept.before_of_opens h.isolated ih hb

namespace Moment

variable {a b : Moment} {m : Machine}

/-- What a task has done to the owners of scopes so far. -/
theorem Passes.settles (hm : a.Passes m) (ha : isolation.before a) (ho : ownership.before a) :
    a.machine.store.Settles m.store :=
  ownership_kept.during_of_passes ha ho hm

/-- What a task has done to the owners of scopes when it ends. -/
theorem Ends.settles (hm : a.Ends m) (ha : isolation.before a) (ho : ownership.before a) :
    a.machine.store.Settles m.store := by
  obtain ⟨r, hr⟩ | ⟨f, hf⟩ := hm
  · exact (ownership_kept.of_ok ha ho hr).1
  · exact ownership_kept.of_failed ha ho hf

/-- What has been done to the owners of scopes at a moment within. -/
theorem Within.settles (h : a.Within b) (ha : isolation.before a) (ho : ownership.before a) :
    a.machine.store.Settles b.machine.store := by
  induction h with
  | refl => exact .refl ho
  | tail h hb ih =>
      obtain ⟨hi, ho'⟩ := ownership_kept.within ha ho h
      cases hb with
      | call hn hl => exact ih.trans (Passes.settles (.later hn hl) hi ho')
      | @inside p l m next hn hl =>
          have hs := Passes.settles (.later hn hl) hi ho'
          exact (ih.trans hs).trans (Ownership.settles_enter p hs.owned)

end Moment

end ProtoScript
