import ProtoScript.Proofs.Isolation
/-!
# Bindings and slots

A name that a scope binds stays bound there.  Its binding changes only if it is
owned, and then it owns a slot that has been made since; new names appear only
where a plain assignment or a parameter puts them (`Task.Binds`).  And the
content of a slot that exists changes only where an assignment goes through a
reference to this slot (`Moment.Writes`).

Both are told by one relation between the store before and the store after,
`Store.Evolves`, and one contract carries it through a run.
-/

namespace ProtoScript

namespace Store

/-- A change that makes bindings anew only where `X` says, gives owned names new slots only where
`R` says, and writes only what `W` says. -/
structure Evolves (X R : Address .scope → String → Prop) (W : Address .slot → Value → Prop)
    (s s' : Store) : Prop where
  slots_le : s.slots.size ≤ s'.slots.size
  scopes_le : s.scopes.size ≤ s'.scopes.size
  kept : ∀ a name b, s.binding? a name = some b → ∃ b', s'.binding? a name = some b' ∧
    (X a name ∨ b' = b ∨
      R a name ∧ b.byRef = false ∧ b'.byRef = false ∧ s.slots.size ≤ b'.slot.index)
  gained : ∀ (a : Address .scope) name, a.index < s.scopes.size → s.binding? a name = none →
    X a name ∨ s'.binding? a name = none
  slot : ∀ σ : Address .slot, σ.index < s.slots.size →
    (∃ v, W σ v ∧ s'.slots.get? σ = some v) ∨ s'.slots.get? σ = s.slots.get? σ

variable {X X' R : Address .scope → String → Prop} {W : Address .slot → Value → Prop}
  {s₀ s s' : Store}

namespace Evolves

/-- A change that is seen in no scope and no slot that exists. -/
theorem of_eq (hs : s.slots.size ≤ s'.slots.size) (hc : s.scopes.size ≤ s'.scopes.size)
    (hscope : ∀ a : Address .scope, a.index < s.scopes.size → s'.scope a = s.scope a)
    (hslot : ∀ σ : Address .slot, σ.index < s.slots.size →
      s'.slots.get? σ = s.slots.get? σ) : Evolves X R W s s' where
  slots_le := hs
  scopes_le := hc
  kept a name b hb := ⟨b, by rwa [binding?, hscope a (lt_of_binding? hb)], .inr (.inl rfl)⟩
  gained a name ha hb := .inr (by rwa [binding?, hscope a ha])
  slot σ hσ := .inr (hslot σ hσ)

theorem refl (s : Store) : Evolves X R W s s :=
  of_eq (Nat.le_refl _) (Nat.le_refl _) (fun _ _ => rfl) fun _ _ => rfl

theorem trans (h : Evolves X R W s₀ s) (h' : Evolves X' R W s s')
    (hX : ∀ a name, a.index < s₀.scopes.size → X' a name → X a name) : Evolves X R W s₀ s' where
  slots_le := Nat.le_trans h.slots_le h'.slots_le
  scopes_le := Nat.le_trans h.scopes_le h'.scopes_le
  kept a name b hb := by
    obtain ⟨b₁, hb₁, h₁⟩ := h.kept a name b hb
    obtain ⟨b₂, hb₂, h₂⟩ := h'.kept a name b₁ hb₁
    refine ⟨b₂, hb₂, ?_⟩
    obtain hx | rfl | ⟨hR, hr, hr₁, hle⟩ := h₁
    · exact .inl hx
    · obtain hx | rfl | ⟨hR, hr, hr₂, hle⟩ := h₂
      · exact .inl (hX a name (lt_of_binding? hb) hx)
      · exact .inr (.inl rfl)
      · exact .inr (.inr ⟨hR, hr, hr₂, Nat.le_trans h.slots_le hle⟩)
    · obtain hx | rfl | ⟨-, -, hr₂, hle₂⟩ := h₂
      · exact .inl (hX a name (lt_of_binding? hb) hx)
      · exact .inr (.inr ⟨hR, hr, hr₁, hle⟩)
      · exact .inr (.inr ⟨hR, hr, hr₂, Nat.le_trans h.slots_le hle₂⟩)
  gained a name ha hb := by
    obtain hx | hb₁ := h.gained a name ha hb
    · exact .inl hx
    · exact (h'.gained a name (Nat.lt_of_lt_of_le ha h.scopes_le) hb₁).imp_left (hX a name ha)
  slot σ hσ := by
    obtain hw | h₂ := h'.slot σ (Nat.lt_of_lt_of_le hσ h.slots_le)
    · exact .inl hw
    · exact (h.slot σ hσ).imp (fun ⟨v, hw, hv⟩ => ⟨v, hw, h₂.trans hv⟩) h₂.trans

theorem mono (h : Evolves X R W s s')
    (hX : ∀ a name, a.index < s.scopes.size → X a name → X' a name) : Evolves X' R W s s' :=
  (refl s).trans h hX

/-- A name that is not found afterwards was not found before. -/
theorem lookup_eq_none (h : Evolves X R W s s') {e : Environment} {name : String}
    (hn : s'.lookup e name = none) : s.lookup e name = none := by
  rw [Store.lookup_eq_none] at hn ⊢
  intro a ha
  cases hb : s.binding? a name with
  | none => rfl
  | some b =>
      obtain ⟨b', hb', -⟩ := h.kept a name b hb
      rw [hn a ha] at hb'
      cases hb'

/-- A scope that is there binds the names that it bound. -/
theorem isSome_binding? (h : Evolves X R W s s') {a : Address .scope} {name : String}
    (ha : a.index < s.scopes.size) (hX : ¬X a name) :
    (s'.binding? a name).isSome = (s.binding? a name).isSome := by
  cases hb : s.binding? a name with
  | some b =>
      obtain ⟨b', hb', -⟩ := h.kept a name b hb
      rw [hb']
      rfl
  | none => rw [(h.gained a name ha hb).resolve_left hX]

/-- A name is found where it was found. -/
theorem home?_eq (h : Evolves X R W s s') {e : Environment} {name : String}
    (he : ∀ a ∈ e.scopes, a.index < s.scopes.size ∧ ¬X a name) :
    s'.home? e name = s.home? e name :=
  home?_congr fun a ha => h.isSome_binding? (he a ha).1 (he a ha).2

/-- A reference stays what it is. -/
theorem reference (h : Evolves X R W s s') {a : Address .scope} {name : String}
    {σ : Address .slot} (hb : s.binding? a name = some ⟨σ, true⟩) (hX : ¬X a name) :
    s'.binding? a name = some ⟨σ, true⟩ := by
  obtain ⟨b', hb', hx | rfl | ⟨-, hr, -⟩⟩ := h.kept a name _ hb
  · exact absurd hx hX
  · exact hb'
  · cases hr

theorem enlarges (he : s.Enlarges s') : Evolves X R W s s' := by
  refine of_eq he.slots_le he.scopes_le he.scope fun σ hσ => ?_
  cases hv : s.slots.get? σ with
  | none => exact absurd ((Heap.get?_eq_none_iff _ _).1 hv) (Nat.not_le_of_lt hσ)
  | some v => exact he.content (.slot σ) v hv

/-- Making a slot leaves the others alone. -/
theorem get?_create (a : Address .scope) (name : String) (v : Value) {σ : Address .slot}
    (hσ : σ.index < s.slots.size) : (s.create a name v).slots.get? σ = s.slots.get? σ :=
  Heap.get?_push_of_ne _ _ (Heap.ne_fresh_of_lt hσ)

theorem create {a : Address .scope} {name : String} (v : Value) (hX : X a name) :
    Evolves X R W s (s.create a name v) where
  slots_le := by simp
  scopes_le := by simp
  kept a' name' b hb := by
    rw [binding?_create]
    split
    · next h => exact ⟨_, rfl, .inl (h.1 ▸ h.2.1 ▸ hX)⟩
    · exact ⟨b, hb, .inr (.inl rfl)⟩
  gained a' name' _ hb := by
    rw [binding?_create]
    split
    · next h => exact .inl (h.1 ▸ h.2.1 ▸ hX)
    · exact .inr hb
  slot σ hσ := .inr (get?_create a name v hσ)

/-- An owned name gets a new slot. -/
theorem create_of_owned {a : Address .scope} {name : String} (v : Value) {b : Binding}
    (hb : s.binding? a name = some b) (hr : b.byRef = false) (hR : R a name) :
    Evolves X R W s (s.create a name v) where
  slots_le := by simp
  scopes_le := by simp
  kept a' name' b' hb' := by
    rw [binding?_create]
    split
    · next h =>
        obtain ⟨rfl, rfl, -⟩ := h
        rw [hb] at hb'
        cases hb'
        exact ⟨_, rfl, .inr (.inr ⟨hR, hr, rfl, Nat.le_refl _⟩)⟩
    · exact ⟨b', hb', .inr (.inl rfl)⟩
  gained a' name' _ hb' := by
    rw [binding?_create]
    split
    · next h =>
        obtain ⟨rfl, rfl, -⟩ := h
        rw [hb] at hb'
        cases hb'
    · exact .inr hb'
  slot σ hσ := .inr (get?_create a name v hσ)

theorem share {a : Address .scope} {name : String} (slot : Address .slot) (hX : X a name) :
    Evolves X R W s (s.share a name slot) where
  slots_le := Nat.le_refl _
  scopes_le := by simp
  kept a' name' b hb := by
    rw [binding?_share]
    split
    · next h => exact ⟨_, rfl, .inl (h.1 ▸ h.2.1 ▸ hX)⟩
    · exact ⟨b, hb, .inr (.inl rfl)⟩
  gained a' name' _ hb := by
    rw [binding?_share]
    split
    · next h => exact .inl (h.1 ▸ h.2.1 ▸ hX)
    · exact .inr hb
  slot _ _ := .inr rfl

theorem writeSlot {σ : Address .slot} {v : Value} (hW : W σ v) :
    Evolves X R W s (s.writeSlot σ v) where
  slots_le := by simp
  scopes_le := Nat.le_refl _
  kept _ _ b hb := ⟨b, hb, .inr (.inl rfl)⟩
  gained _ _ _ hb := .inr hb
  slot τ hτ := by
    by_cases h : τ = σ
    · subst h
      exact .inl ⟨v, hW, Heap.get?_set_self _ _ hτ⟩
    · exact .inr (Heap.get?_set_of_ne _ _ h)

/-- **An assignment** writes the slot of a reference, gives an owned name a new slot, or binds a
name that is found nowhere in the innermost scope. -/
theorem assign {e : Environment} {name : String} {v : Value}
    (hX : s.lookup e name = none → X e.innermost name)
    (hR : ∀ a b, s.home? e name = some a → s.binding? a name = some b → b.byRef = false →
      R a name)
    (hW : ∀ b, s.lookup e name = some b → b.byRef = true → W b.slot v) :
    Evolves X R W s (s.assign e name v) := by
  obtain ⟨b, hb, hr, h⟩ | ⟨b, a, ha, hb, hr, h⟩ | ⟨hn, h⟩ := s.assign_cases e name v
  · rw [h]
    exact writeSlot (hW b hb hr)
  · rw [h]
    exact create_of_owned v hb hr (hR a b ha hb hr)
  · rw [h]
    exact create v (hX hn)

end Evolves

/-- After an assignment the name is found. -/
theorem lookup_assign_ne_none {e : Environment} (he : e.innermost.index < s.scopes.size)
    (name : String) (v : Value) : (s.assign e name v).lookup e name ≠ none := by
  intro hn
  rw [Store.lookup_eq_none] at hn
  obtain ⟨b, hb, -, h⟩ | ⟨b, a, ha, hb, -, h⟩ | ⟨-, h⟩ := s.assign_cases e name v
  · obtain ⟨a, ha, hb⟩ := lookup_eq_some hb
    rw [h] at hn
    exact nomatch hb.symm.trans (hn a ha)
  · have hb' := hn a (mem_of_home? ha)
    rw [h, binding?_create, if_pos ⟨rfl, rfl, lt_of_binding? hb⟩] at hb'
    cases hb'
  · have hb' := hn e.innermost List.mem_cons_self
    rw [h, binding?_create, if_pos ⟨rfl, rfl, he⟩] at hb'
    cases hb'

end Store

/-- The name to which a statement assigns, if it is a plain assignment. -/
def Stmt.target? : Stmt → Option String
  | .assign (.variable name) _ => some name
  | _ => none

/-- Where a task may bind a name anew: a plain assignment to a name that is found nowhere binds it
in the innermost scope, and parameters are bound in the scope of the routine. -/
def Task.Binds (m : Machine) : Task → Address .scope → String → Prop
  | .execute s, a, name => s.target? = some name ∧ a = m.environment.innermost ∧
      m.store.lookup m.environment name = none
  | .executeAll l, a, name => (∃ s ∈ l, s.target? = some name) ∧
      a = m.environment.innermost ∧ m.store.lookup m.environment name = none
  | .bind e l, a, name => a = e.innermost ∧ ∃ p ∈ l, p.1.name = name
  | _, _, _ => False

namespace Moment

/-- Some assignment within a moment goes through a reference to a slot and writes a value. -/
def Writes (a : Moment) (σ : Address .slot) (v : Value) : Prop :=
  ∃ b name m, a.Within b ∧ b.Assigns name v m ∧
    m.store.lookup m.environment name = some ⟨σ, true⟩

/-- Some assignment within a moment gives an owned name a new slot where it is found. -/
def Rebinds (a : Moment) (x : Address .scope) (name : String) : Prop :=
  ∃ b v m β, a.Within b ∧ b.Assigns name v m ∧
    m.store.home? m.environment name = some x ∧ m.store.binding? x name = some β ∧
      β.byRef = false

end Moment

/-- **The contract of effects**, for the moments within `a₀`. -/
def effects (a₀ : Moment) : Contract where
  before _ := True
  during a m := a.machine.store.Evolves (a.task.Binds a.machine) a₀.Rebinds a₀.Writes m.store
  result a _ m := ∀ name e, a.task = .execute (.assign (.variable name) e) →
    m.store.lookup m.environment name ≠ none

namespace Effects

variable {a₀ a : Moment} {P : Moment → Prop} {m m' : Machine}
  {X R : Address .scope → String → Prop} {W : Address .slot → Value → Prop} {s s' : Store}

/-- A copy evolves the store in no way that is seen. -/
theorem evolves_copied {u v : Value} (hs : m.store.Closed) (h : Eval.copied u m = .ok v m') :
    m.store.Evolves X R W m'.store := by
  obtain ⟨s, hc, rfl⟩ := Eval.copied_eq_ok h
  exact .enlarges (Store.copy_spec hs hc).1

/-- Nor does a change of objects. -/
theorem evolves_objects (hs : s'.slots = s.slots) (hc : s'.scopes = s.scopes) :
    s.Evolves X R W s' :=
  .of_eq (by rw [hs]) (by rw [hc]) (fun _ _ => by simp only [Store.scope, hc]) fun _ _ => by rw [hs]

/-- Scopes that are made for an activation bind nothing. -/
theorem evolves_storeFor (s : Store) (callable : Callable) :
    s.Evolves X R W (Eval.storeFor s callable) := by
  have hk := Eval.alters_storeFor s callable .nil
  refine .of_eq hk.slots_le hk.scopes_le (fun x _ => hk.scope x nofun) fun σ _ => ?_
  cases callable <;> rfl

/-- What happens in a new scope is not seen. -/
theorem trans_of_new {e : Environment} (h : s.Evolves X R W s')
    (hnew : s.scopes.size ≤ e.innermost.index) {Y : Address .scope → String → Prop} {s'' : Store}
    (hY : ∀ x name, Y x name → x = e.innermost) (h' : s'.Evolves Y R W s'') :
    s.Evolves X R W s'' :=
  h.trans h' fun x name hlt hy => absurd (hY x name hy ▸ hlt) (Nat.not_lt_of_le hnew)

/-- The script may go on with a change that it may make. -/
theorem during_of_evolves (h : (effects a₀).At P a m)
    (hs : m.store.Evolves (a.task.Binds a.machine) a₀.Rebinds a₀.Writes m'.store) :
    (effects a₀).during a m' :=
  Store.Evolves.trans h.during hs fun _ _ _ h => h

/-- A task may be called for that binds only what the script may bind. -/
theorem allows {t : Task} (h : (effects a₀).At P a m)
    (ht : ∀ x name, x.index < a.machine.store.scopes.size → t.Binds m x name →
      a.task.Binds a.machine x name) : (effects a₀).Allows P a t m :=
  fun _ _ => ⟨trivial, fun _ hm' => Store.Evolves.trans h.during hm' ht⟩

/-- What a task calls for binds only what the task may bind. -/
theorem binds_of_asks {t : Task} (h : (effects a₀).At P a m) (ht : a.task.Asks t)
    {x : Address .scope} {name : String} (hb : t.Binds m x name) :
    a.task.Binds a.machine x name := by
  have he : m.environment = a.machine.environment := h.passes.level.environment
  have hd : a.machine.store.Evolves _ _ _ m.store := h.during
  obtain ⟨n, t', m₀, γ⟩ := a
  cases ht with
  | parameters e p l =>
      obtain ⟨hx, q, hq, hn⟩ := hb
      exact ⟨hx, q, List.mem_cons_of_mem _ hq, hn⟩
  | first s l =>
      obtain ⟨ht, hx, hn⟩ := hb
      rw [he] at hx hn
      exact ⟨⟨s, List.mem_cons_self, ht⟩, hx, hd.lookup_eq_none hn⟩
  | rest s l =>
      obtain ⟨⟨s', hs', ht⟩, hx, hn⟩ := hb
      rw [he] at hx hn
      exact ⟨⟨s', List.mem_cons_of_mem _ hs', ht⟩, hx, hd.lookup_eq_none hn⟩
  | _ => exact hb.elim

/-- Parameters are bound in the innermost scope of the routine. -/
theorem binds_parameter {e : Environment} {p : Param} {arg : Expr} {l : List (Param × Expr)}
    (ht : a.task = .bind e ((p, arg) :: l)) : a.task.Binds a.machine e.innermost p.name := by
  rw [ht]
  exact ⟨rfl, _, List.mem_cons_self, rfl⟩

/-- An assignment binds, rebinds and writes what its moment may. -/
theorem evolves_assign {name : String} {e : Expr} {v : Value} (hi : a₀.Within a)
    (ht : a.task = .execute (.assign (.variable name) e)) (ha : a.Assigns name v m)
    (h : (effects a₀).At P a m) :
    m.store.Evolves (a.task.Binds a.machine) a₀.Rebinds a₀.Writes
      (m.store.assign m.environment name v) := by
  have he : m.environment = a.machine.environment := h.passes.level.environment
  refine .assign (fun hn => ?_) (fun x b hx hb hr => ⟨a, v, m, b, hi, ha, hx, hb, hr⟩)
    fun b hb hr => ?_
  · rw [ht, he] at *
    exact ⟨rfl, rfl, Store.Evolves.lookup_eq_none h.during hn⟩
  · obtain ⟨σ, _⟩ := b
    obtain rfl := hr
    exact ⟨a, name, m, hi, ha, hb⟩

/-- **The steps of scripts have the effects that are told.** -/
theorem stepwise (a₀ : Moment) : (effects a₀).Stepwise
    (fun b => a₀.Within b ∧ isolation.before b) fun _ _ _ _ => True where
  opens h hb := ⟨h.1.tail hb, isolation_kept.before_of_opens trivial h.2 hb⟩
  start _ _ _ := .refl _
  still h hs _ := by
    change Store.Evolves _ _ _ _ _
    rw [hs]
    exact h.during
  plain _ _ := trivial
  operand _ := trivial
  listed _ _ _ := trivial
  result _ ht _ _ := fun name e he => absurd he (ht name e)
  asks h ht := allows h fun _ _ _ => binds_of_asks h ht
  invokes h _ _ := allows h fun _ _ _ hb => hb.elim
  answer _ _ _ _ _ _ _ := trivial
  copied h _ hw :=
    ⟨during_of_evolves h (evolves_copied (h.passes.keeps h.within.2).closed hw), trivial⟩
  prototype _ _ := trivial
  capture h hc := ⟨.enlarges (Store.snapshot_spec h.within.2.1 hc.snapshot).1, trivial⟩
  newObject h := ⟨during_of_evolves h (evolves_objects rfl rfl), trivial⟩
  activate _ _ hs _ := by
    change Store.Evolves _ _ _ _ _
    rw [hs]
    exact evolves_storeFor _ _
  receive h _ _ := trans_of_new h.during (Eval.innermost_scopesFor _ _) (fun _ _ hx => hx)
    (.create (X := fun x _ => x = _) _ rfl)
  parameters h _ _ _ := allows h fun x _ hlt hb =>
    absurd (hb.1 ▸ hlt) (Nat.not_lt_of_le (Eval.innermost_scopesFor _ _))
  body _ _ _ h' _ := fun _ _ => ⟨trivial, fun m' hm' =>
    trans_of_new h'.during (Eval.innermost_scopesFor _ _) (fun _ _ hb => hb.2.1) hm'⟩
  block {a l} h _ := by
    have hnew : a.machine.store.Evolves (a.task.Binds a.machine) a₀.Rebinds a₀.Writes
        (a.machine.store.newScope ∅) :=
      .of_eq (Nat.le_refl _) (by simp) (fun x _ => Store.scope_newScope_empty _ x) fun _ _ => rfl
    refine fun _ _ => ⟨trivial, fun m' hm' => ?_⟩
    exact trans_of_new (e := a.machine.enterBlock.environment) hnew (Nat.le_refl _)
      (fun _ _ hb => hb.2.1) hm'
  outside _ _ _ _ _ _ _ := trivial
  bind h ht _ := during_of_evolves h (.create _ (binds_parameter ht))
  bindCopy h ht _ hw := during_of_evolves h <|
    (evolves_copied (h.passes.keeps h.within.2).closed hw).trans
      (.create _ (binds_parameter ht)) fun _ _ _ h => h
  share h ht _ := during_of_evolves h (.share _ (binds_parameter ht))
  assign {a name e m m' v} _ ht _ _ _ h' ha _ := by
    refine ⟨during_of_evolves h' (evolves_assign h'.within.1 ht ha h'), ?_⟩
    intro _ _ name' e' ht'
    rw [ht] at ht'
    cases ht'
    refine Store.lookup_assign_ne_none ?_ name v
    have hk := h'.passes.keeps h'.within.2
    rw [h'.passes.level.environment]
    exact Nat.lt_of_lt_of_le (h'.within.2.2.1.there_innermost List.mem_cons_self) hk.scopes_le
  setProto h _ := during_of_evolves h (evolves_objects rfl rfl)
  setField h _ _ hw := during_of_evolves h <|
    (evolves_copied (h.passes.keeps h.within.2).closed hw).trans (evolves_objects rfl rfl)
      fun _ _ _ h => h
  released h _ hw := by
    obtain ⟨s, hs, rfl⟩ := Eval.released_eq_ok hw
    have he := (Store.release_spec (h.passes.keeps h.within.2).closed hs).1
    exact ⟨during_of_evolves h (.enlarges he), trivial⟩

end Effects

/-- **Every script keeps the contract of effects.** -/
theorem effects_kept (a₀ : Moment) :
    (effects a₀).Kept fun b => a₀.Within b ∧ isolation.before b :=
  (Effects.stepwise a₀).kept

namespace Moment

variable {a b : Moment} {m : Machine}

/-- What a task has bound and written when it ends. -/
theorem Ends.evolves (hm : a.Ends m) (ha : isolation.before a) :
    a.machine.store.Evolves (a.task.Binds a.machine) a.Rebinds a.Writes m.store := by
  obtain ⟨r, hr⟩ | ⟨f, hf⟩ := hm
  · exact ((effects_kept a).of_ok ⟨.refl, ha⟩ trivial hr).1
  · exact (effects_kept a).of_failed ⟨.refl, ha⟩ trivial hf

/-- What a task has bound and written so far. -/
theorem Passes.evolves (hm : a.Passes m) (ha : isolation.before a) :
    a.machine.store.Evolves (a.task.Binds a.machine) a.Rebinds a.Writes m.store :=
  (effects_kept a).during_of_passes ⟨.refl, ha⟩ trivial hm

/-- An assignment is made on a machine that its moment passes. -/
theorem Assigns.passes {name : String} {v : Value} (h : a.Assigns name v m) : a.Passes m := by
  obtain ⟨hn, next, hl⟩ := h
  exact .later hn hl

end Moment
end ProtoScript
