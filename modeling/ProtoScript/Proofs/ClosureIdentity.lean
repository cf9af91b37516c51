import ProtoScript.Proofs.Lineage
import ProtoScript.Proofs.SnapshotOwnership
/-!
# The identity of closures

A closure is what it was when it was made, and so are all its copies: the number
says by which evaluation of a lambda, and with it come the lambda, the flag and
the shape of the captured scope.  Nothing that a program does changes the shape
of a scope that is captured: no call adds a name to it or takes one away, and no
owned name becomes a reference.  So two closures are equal exactly if one
evaluation made both.
-/

namespace ProtoScript

namespace Store.Evolves

/-- A scope in which nothing is bound anew keeps its shape. -/
theorem shape_eq {X R : Address .scope → String → Prop} {W : Address .slot → Value → Prop}
    {s s' : Store} (h : s.Evolves X R W s') {a : Address .scope} {name : String}
    (ha : a.index < s.scopes.size) (hX : ¬X a name) : s'.shape a name = s.shape a name := by
  rw [Store.shape, Store.shape]
  cases hb : s.binding? a name with
  | none => rw [(h.gained a name ha hb).resolve_left hX]
  | some b =>
      obtain ⟨b', hb', hx | rfl | ⟨-, hr, hr', -⟩⟩ := h.kept a name b hb
      · exact absurd hx hX
      · rw [hb']
      · rw [hb', Option.map_some, Option.map_some, Binding.shape, Binding.shape, hr, hr']
        rfl

end Store.Evolves

namespace Machine

variable {fuel : Nat} {p : Program} {m₀ m m' : Machine} {a : Moment} {c d : Closure}

/-- Nothing is held when `main` starts, and its only scope is not captured. -/
theorem lineage_main (fuel n : Nat) (p : Program) (m₀ : Machine) (r : Routine) (m : Machine)
    (routines : RoutineTable) :
    (lineage fuel p m₀).before (Machine.main n r (m.load routines)) := by
  refine ⟨fun q c hq => ?_, nofun, trivial⟩
  cases q <;> cases hq

/-- **Every moment of a run satisfies the contract of lineage.** -/
theorem Reaches.lineage (h : Reaches fuel p m₀ a) : (lineage fuel p m₀).before a := by
  induction h with
  | main _ _ => exact lineage_main _ _ _ _ _ _ _
  | opens h hb ih => exact (lineage_kept fuel p m₀).before_of_opens h ih hb

/-- **Every closure that is held on a machine of the run comes from a creation.** -/
theorem Reaches.traced (h : Reaches fuel p m₀ a) (hm : a.Passes m ∨ a.Ends m) :
    Traced fuel p m₀ m := by
  rcases hm with hm | ⟨r, hr⟩ | ⟨f, hf⟩
  · exact (lineage_kept fuel p m₀).during_of_passes h h.lineage hm
  · exact ((lineage_kept fuel p m₀).of_ok h h.lineage hr).1
  · exact (lineage_kept fuel p m₀).of_failed h h.lineage hf

/-- No task binds a name anew in a scope that is captured when it starts. -/
theorem Reaches.not_binds (h : Reaches fuel p m₀ a) {x : Address .scope}
    (hx : a.machine.store.Captured x) (name : String) : ¬a.task.Binds a.machine x name := by
  obtain ⟨-, hf, hclear⟩ := h.lineage
  have hfree := Lineage.innermost_free h.isolated hf
  intro hb
  obtain ⟨n, t, m, γ⟩ := a
  cases t with
  | execute s => exact hfree (hb.2.1 ▸ hx)
  | executeAll l => exact hfree (hb.2.1 ▸ hx)
  | bind e l => exact hclear.2 (hb.1 ▸ hx)
  | _ => exact hb

/-- **The shape of a captured scope does not change.** -/
theorem Reaches.shape_eq (h : Reaches fuel p m₀ a) (hm : a.Passes m ∨ a.Ends m)
    {x : Address .scope} (hx : a.machine.store.Captured x) (name : String) :
    m.store.shape x name = a.machine.store.shape x name := by
  have hlt := h.isolated.1.captured x hx
  rcases hm with hm | hm
  · exact (hm.evolves h.isolated).shape_eq hlt (h.not_binds hx name)
  · exact (hm.evolves h.isolated).shape_eq hlt (h.not_binds hx name)

namespace Creation

variable {k l : Creation fuel p m₀}

theorem Origin.id_eq (h : k.Origin m c) : c.id = k.closure.id := h.repeats.id_eq

/-- A closure has one origin. -/
theorem Origin.eq_of_id (h : k.Origin m c) (hl : l.closure.id = c.id) : l = k :=
  ext_id (hl.trans h.id_eq)

/-- What comes from one creation is alike. -/
theorem Origin.alike (hc : k.Origin m c) (hd : k.Origin m' d) :
    c.routine = d.routine ∧ c.byRef = d.byRef ∧
      ∀ name, m.store.shape c.captured name = m'.store.shape d.captured name :=
  ⟨hc.repeats.routine_eq.trans hd.repeats.routine_eq.symm,
    hc.repeats.byRef_eq.trans hd.repeats.byRef_eq.symm,
    fun name => (hc.repeats.shape name).trans (hd.repeats.shape name).symm⟩

/-- A snapshot has the shape of what can be seen where the lambda is evaluated. -/
theorem shape_eq (k : Creation fuel p m₀) (name : String) :
    k.machine.store.shape k.closure.captured name =
      (k.moment.machine.store.lookup k.moment.machine.environment name).map Binding.shape :=
  (Store.breeds_snapshot k.reached.isolated.1 k.creates.snapshot).2 name

end Creation
end Machine

/-- What is known of the closures that are held while the task of a moment is performed. -/
structure Moment.Identifies (fuel : Nat) (p : Program) (m₀ : Machine) (a : Moment) : Prop where
  /-- A closure that is held comes from one evaluation of a lambda: it differs from what was made
  there in the place of the captured scope at most, and that has the shape of the snapshot. -/
  origin : ∀ m, a.Passes m ∨ a.Ends m → ∀ q c, m.store.content? q = some (.closure c) →
    ∃ k : Machine.Creation fuel p m₀, k.Origin m c ∧ ∀ l : Machine.Creation fuel p m₀,
      l.closure.id = c.id → l = k
  /-- Its number is one that the run has given. -/
  number : ∀ m, a.Passes m ∨ a.Ends m → ∀ q c, m.store.content? q = some (.closure c) →
    m₀.closures < c.id ∧ c.id ≤ m.closures
  /-- A number is given once. -/
  distinct : ∀ k l : Machine.Creation fuel p m₀, k.closure.id = l.closure.id → k = l
  /-- A snapshot has the shape of what can be seen where the lambda is evaluated. -/
  snapshot : ∀ (k : Machine.Creation fuel p m₀) name,
    k.machine.store.shape k.closure.captured name =
      (k.moment.machine.store.lookup k.moment.machine.environment name).map Binding.shape
  /-- Closures with one number are alike, whenever they are held in the run. -/
  alike : ∀ m, a.Passes m ∨ a.Ends m → ∀ q c, m.store.content? q = some (.closure c) →
    ∀ b, Machine.Reaches fuel p m₀ b → ∀ m', b.Passes m' ∨ b.Ends m' → ∀ q' d,
      m'.store.content? q' = some (.closure d) → c.id = d.id →
        c.routine = d.routine ∧ c.byRef = d.byRef ∧
          ∀ name, m.store.shape c.captured name = m'.store.shape d.captured name
  /-- Two closures are equal exactly if they come from one evaluation. -/
  same : ∀ m, a.Passes m ∨ a.Ends m → ∀ q c, m.store.content? q = some (.closure c) →
    ∀ q' d, m.store.content? q' = some (.closure d) →
      ((Value.closure c).same (.closure d) = true ↔
        ∃ k : Machine.Creation fuel p m₀, k.Origin m c ∧ k.Origin m d)
  /-- The shape of a scope that is captured when the task starts does not change. -/
  kept : ∀ m, a.Passes m ∨ a.Ends m → ∀ q c, a.machine.store.content? q = some (.closure c) →
    ∀ name, m.store.shape c.captured name = a.machine.store.shape c.captured name

/-- **Closures keep what they had when they were made**, and so do all their copies. -/
theorem closure_identity {fuel : Nat} {p : Program} {m₀ : Machine} {a : Moment}
    (h : Machine.Reaches fuel p m₀ a) : a.Identifies fuel p m₀ where
  origin m hm q c hc := by
    obtain ⟨k, hk⟩ := h.traced hm q c hc
    exact ⟨k, hk, fun l hl => hk.eq_of_id hl⟩
  number m hm q c hc := by
    obtain ⟨k, hk⟩ := h.traced hm q c hc
    refine ⟨?_, hk.id_le⟩
    rw [hk.id_eq]
    exact k.lt_id
  distinct _ _ hid := Machine.Creation.ext_id hid
  snapshot k name := k.shape_eq name
  alike m hm q c hc b hb m' hm' q' d hd hid := by
    obtain ⟨k, hk⟩ := h.traced hm q c hc
    obtain ⟨l, hl⟩ := hb.traced hm' q' d hd
    obtain rfl : l = k := hk.eq_of_id (hl.id_eq.symm.trans hid.symm)
    exact hk.alike hl
  same m hm q c hc q' d hd := by
    obtain ⟨k, hk⟩ := h.traced hm q c hc
    obtain ⟨l, hl⟩ := h.traced hm q' d hd
    have hsame : (Value.closure c).same (.closure d) = true ↔ c.id = d.id := by
      simp [Value.same]
    rw [hsame]
    constructor
    · intro hid
      obtain rfl : l = k := hk.eq_of_id (hl.id_eq.symm.trans hid.symm)
      exact ⟨l, hk, hl⟩
    · rintro ⟨k', hkc, hkd⟩
      rw [hkc.id_eq, hkd.id_eq]
  kept m hm q c hc name := h.shape_eq hm (Store.captured_of_content? hc) name

/-- Two variables hold copies of one closure, which have captured different scopes and are equal. -/
theorem closure_identity_copies : ∃ a c d, Machine.Reaches 40 .copies (.initial {}) a ∧
    a.machine.store.content? (.slot ⟨2⟩) = some (.closure c) ∧
      a.machine.store.content? (.slot ⟨4⟩) = some (.closure d) ∧ c.captured ≠ d.captured ∧
        (Value.closure c).same (.closure d) = true ∧
          a.Identifies 40 .copies (.initial {}) := by
  have hd : ((Machine.replay 40 .copies (.initial {}) [1, 1, 1, 1, 0, 0, 0]).any fun a =>
      (a.machine.store.closure? (.slot ⟨2⟩)).any fun c =>
        (a.machine.store.closure? (.slot ⟨4⟩)).any fun d =>
          decide (c.captured ≠ d.captured ∧ (Value.closure c).same (.closure d) = true))
      = true := by
    decide +kernel
  obtain ⟨a, ha, hc⟩ := (Option.any_eq_true _ _).1 hd
  obtain ⟨c, hc, hd⟩ := (Option.any_eq_true _ _).1 hc
  obtain ⟨d, hd, he⟩ := (Option.any_eq_true _ _).1 hd
  obtain ⟨hne, hsame⟩ := of_decide_eq_true he
  have h := Machine.reaches_of_replay ha
  exact ⟨a, c, d, h, Store.content?_of_closure? hc, Store.content?_of_closure? hd, hne, hsame,
    closure_identity h⟩

end ProtoScript
