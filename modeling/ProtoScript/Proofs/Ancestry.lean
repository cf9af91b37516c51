import ProtoScript.Proofs.Replay
import ProtoScript.Proofs.Upkeep
/-!
# Prototype chains have an end

An object is given a prototype only if it is not on the chain of the prototype.
To see this the chain is walked, and the walk has an end only because no chain is
a circle, which is what the look protects.  So the two are shown together:
links point to objects that are there and never lead back (`Store.Rooted`), hence
a chain has no more steps than there are objects (`Store.Rooted.exists_root`) and
shows exactly what can be reached (`Store.Rooted.mem_chain_iff`), hence a new link
does not lead back either (`Store.Rooted.setProto`).

That the objects in question are there is part of the invariant, for an object
that is made later could be what an older link was waiting for.
-/

namespace ProtoScript

open Relation

namespace Store

/-- From an object to its prototype. -/
def Ascends (s : Store) (a b : Address .object) : Prop := (s.object a).proto = some b

/-- What is found so many steps up the chain of an object. -/
def ancestor? (s : Store) : Nat → Address .object → Option (Address .object)
  | 0, a => some a
  | n + 1, a => (s.object a).proto.bind (s.ancestor? n)

variable {s s' : Store} {a b o q : Address .object} {n k : Nat}

theorem lt_of_ascends (h : s.Ascends a b) : a.index < s.objects.size := by
  unfold Ascends object at h
  cases hg : s.objects.get? a with
  | some x => exact Heap.index_lt_of_get?_eq_some hg
  | none => rw [hg] at h; cases h

/-- The last step up a chain may be taken by itself. -/
theorem ancestor?_succ (s : Store) :
    ∀ k a, s.ancestor? (k + 1) a = (s.ancestor? k a).bind fun b => (s.object b).proto
  | 0, a => by
      rw [ancestor?, ancestor?, Option.bind_some]
      cases (s.object a).proto <;> rfl
  | k + 1, a => by
      rw [ancestor?, ancestor?, Option.bind_assoc]
      exact congrArg _ (funext fun p => ancestor?_succ s k p)

/-- **A chain consists of the ancestors.** -/
theorem chainUpTo_eq (s : Store) :
    ∀ n a, s.chainUpTo n a = (List.range n).filterMap fun k => s.ancestor? k a
  | 0, _ => rfl
  | n + 1, a => by
      rw [List.range_succ_eq_map, chainUpTo, List.filterMap_cons, List.filterMap_map]
      refine congrArg (a :: ·) ?_
      cases hp : (s.object a).proto with
      | some p =>
          refine (chainUpTo_eq s n p).trans (List.filterMap_congr fun k _ => ?_)
          rw [Function.comp, ancestor?, hp, Option.bind_some]
      | none =>
          refine (List.filterMap_eq_nil_iff.2 fun k _ => ?_).symm
          rw [Function.comp, ancestor?, hp, Option.bind_none]

theorem mem_chainUpTo : b ∈ s.chainUpTo n a ↔ ∃ k < n, s.ancestor? k a = some b := by
  rw [chainUpTo_eq, List.mem_filterMap]
  simp only [List.mem_range]

/-- The ancestors are what can be reached. -/
theorem reflTransGen_iff : ReflTransGen s.Ascends a b ↔ ∃ k, s.ancestor? k a = some b := by
  constructor
  · intro h
    induction h using ReflTransGen.head_induction_on with
    | refl => exact ⟨0, rfl⟩
    | head h _ ih =>
        obtain ⟨k, hk⟩ := ih
        exact ⟨k + 1, by rw [ancestor?, h, Option.bind_some, hk]⟩
  · rintro ⟨k, hk⟩
    induction k generalizing a with
    | zero => cases hk; exact .refl
    | succ k ih =>
        obtain ⟨p, hp, hk⟩ := Option.bind_eq_some_iff.1 hk
        exact .head hp (ih hk)

/-- So many steps up a chain are a walk. -/
theorem exists_isChain_of_ancestor? (h : s.ancestor? k a = some b) :
    ∃ l, (a :: l).IsChain s.Ascends ∧ l.length = k := by
  induction k generalizing a with
  | zero => exact ⟨[], List.isChain_singleton a, rfl⟩
  | succ k ih =>
      obtain ⟨p, hp, h⟩ := Option.bind_eq_some_iff.1 h
      obtain ⟨l, hl, hn⟩ := ih h
      exact ⟨p :: l, List.isChain_cons_cons.2 ⟨hp, hl⟩, congrArg (· + 1) hn⟩

/-- A field that is written links no object anew. -/
theorem proto_setField (s : Store) (o : Address .object) (name : String) (v : Value)
    (a : Address .object) : ((s.setField o name v).object a).proto = (s.object a).proto := by
  simp only [object, setField, Heap.get?_set]
  split
  · next h => rw [h.1]; rfl
  · rfl

/-- Prototypes are there, and no chain comes back. -/
structure Forest (s : Store) : Prop where
  link : ∀ {a b}, s.Ascends a b → b.index < s.objects.size
  acyclic : ∀ a, ¬TransGen s.Ascends a a

/-- **A chain has fewer steps than there are objects.** -/
theorem Forest.lt_size (hs : s.Forest) (h : s.ancestor? k a = some b)
    (ha : a.index < s.objects.size) : k < s.objects.size := by
  obtain ⟨l, hl, rfl⟩ := exists_isChain_of_ancestor? h
  have hthere : ∀ x ∈ a :: l, x.index < s.objects.size := by
    clear h
    induction l generalizing a with
    | nil => simpa using ha
    | cons y l ih =>
        obtain ⟨hy, hl⟩ := List.isChain_cons_cons.1 hl
        exact List.forall_mem_cons.2 ⟨ha, ih (hs.link hy) hl⟩
  exact Address.length_le_of_isChain hs.acyclic hl hthere

/-- Prototypes are there, and no chain comes back; no object has a field of its own with the name
of the prototype, and the objects that are held are there. -/
structure Rooted (s : Store) : Prop where
  link : ∀ {a b}, s.Ascends a b → b.index < s.objects.size
  acyclic : ∀ a, ¬TransGen s.Ascends a a
  field : ∀ a, (s.object a).fields.get? protoName = none
  held : ∀ {p o}, s.content? p = some (.object o) → o.index < s.objects.size

namespace Rooted

theorem forest (hs : s.Rooted) : s.Forest := ⟨hs.link, hs.acyclic⟩

theorem lt_size (hs : s.Rooted) (h : s.ancestor? k a = some b) (ha : a.index < s.objects.size) :
    k < s.objects.size :=
  hs.forest.lt_size h ha

/-- **Every chain has an end**, after fewer steps than there are objects. -/
theorem exists_root (hs : s.Rooted) (ha : a.index < s.objects.size) :
    ∃ k < s.objects.size, ∃ b, s.ancestor? k a = some b ∧ (s.object b).proto = none := by
  refine Decidable.byContradiction fun hn => ?_
  -- Without an end there are as many steps as one likes.
  have hstep : ∀ k, ∃ b, s.ancestor? k a = some b := by
    intro k
    induction k with
    | zero => exact ⟨a, rfl⟩
    | succ k ih =>
        obtain ⟨b, hb⟩ := ih
        cases hp : (s.object b).proto with
        | some p => exact ⟨p, by rw [ancestor?_succ, hb, Option.bind_some, hp]⟩
        | none => exact absurd ⟨k, hs.lt_size hb ha, b, hb, hp⟩ hn
  obtain ⟨b, hb⟩ := hstep s.objects.size
  exact Nat.lt_irrefl _ (hs.lt_size hb ha)

/-- An object is found on a chain exactly if the chain leads to it. -/
theorem mem_chain_iff (hs : s.Rooted) (ho : o.index < s.objects.size) :
    o ∈ s.chain q ↔ ReflTransGen s.Ascends q o := by
  rw [chain, mem_chainUpTo, reflTransGen_iff]
  constructor
  · rintro ⟨k, -, hk⟩
    exact ⟨k, hk⟩
  · rintro ⟨k, hk⟩
    refine ⟨k, ?_, hk⟩
    cases k with
    | zero => exact Nat.zero_lt_of_lt ho
    | succ k =>
        obtain ⟨p, hp, -⟩ := Option.bind_eq_some_iff.1 hk
        exact hs.lt_size hk (lt_of_ascends hp)

/-- **How far a chain is followed does not matter**, if it is as far as there are objects. -/
theorem chainUpTo_of_size_le (hs : s.Rooted) (ha : a.index < s.objects.size)
    (hn : s.objects.size ≤ n) : s.chainUpTo n a = s.chain a := by
  obtain ⟨d, rfl⟩ := Nat.exists_eq_add_of_le hn
  have hlast : ((List.range d).map (s.objects.size + ·)).filterMap (fun k => s.ancestor? k a)
      = [] := by
    refine List.filterMap_eq_nil_iff.2 fun k hk => ?_
    obtain ⟨i, -, rfl⟩ := List.mem_map.1 hk
    cases hb : s.ancestor? (s.objects.size + i) a with
    | some b => exact absurd (hs.lt_size hb ha) (Nat.not_lt_of_le (Nat.le_add_right _ _))
    | none => rfl
  rw [chain, chainUpTo_eq, chainUpTo_eq, List.range_add, List.filterMap_append, hlast,
    List.append_nil]

/-! ### Changes of the store -/

/-- Values may come and go where the objects stay. -/
theorem of_objects_eq (hs : s.Rooted) (ho : s'.objects = s.objects)
    (hheld : ∀ p o, s'.content? p = some (.object o) → o.index < s.objects.size) :
    s'.Rooted := by
  have hobject : s'.object = s.object := by
    funext a
    rw [object, object, ho]
  have hascends : s'.Ascends = s.Ascends := by
    funext a b
    rw [Ascends, Ascends, hobject]
  refine ⟨fun {a b} h => ?_, fun a h => ?_, fun a => ?_, fun h => ?_⟩
  · rw [hascends] at h
    exact ho ▸ hs.link h
  · rw [hascends] at h
    exact hs.acyclic a h
  · rw [hobject]
    exact hs.field a
  · rw [ho]
    exact hheld _ _ h

theorem enlarges (hs : s.Rooted) (he : s.Enlarges s') : s'.Rooted := by
  refine hs.of_objects_eq he.objects fun p o hp => ?_
  obtain ⟨q, hq⟩ := he.object p o hp
  exact hs.held hq

/-- A value that is there may be stored. -/
theorem alters (hs : s.Rooted) {l : List (Address .scope)} {v : Value} (ha : Alters l v s s')
    (ho : s'.objects = s.objects) (hv : ∀ o, v = .object o → o.index < s.objects.size) :
    s'.Rooted := by
  refine hs.of_objects_eq ho fun p o hp => ?_
  obtain ⟨q, hq⟩ := ha.content
  obtain h | ⟨-, h⟩ := hq p
  · exact hs.held (h.symm.trans hp)
  · exact hv o (Option.some.inj (h.symm.trans hp))

theorem newObject (hs : s.Rooted) : s.newObject.Rooted := by
  have hsize : s.newObject.objects.size = s.objects.size + 1 := Heap.size_push _ _
  have hascends : s.newObject.Ascends = s.Ascends := by
    funext a b
    rw [Ascends, Ascends, object_newObject]
  refine ⟨fun {a b} h => ?_, fun a h => ?_, fun a => ?_, fun h => ?_⟩
  · rw [hascends] at h
    exact Nat.lt_of_lt_of_le (hs.link h) (hsize ▸ Nat.le_succ _)
  · rw [hascends] at h
    exact hs.acyclic a h
  · rw [object_newObject]
    exact hs.field a
  · rw [content?_newObject] at h
    exact Nat.lt_of_lt_of_le (hs.held h) (hsize ▸ Nat.le_succ _)

theorem setField (hs : s.Rooted) {name : String} (hn : name ≠ protoName) {v : Value}
    (hv : ∀ o, v = .object o → o.index < s.objects.size) (o : Address .object) :
    (s.setField o name v).Rooted := by
  have hsize : (s.setField o name v).objects.size = s.objects.size := Heap.size_set _ _ _
  have hascends : (s.setField o name v).Ascends = s.Ascends := by
    funext a b
    rw [Ascends, Ascends, proto_setField]
  refine ⟨fun {a b} h => ?_, fun a h => ?_, fun a => ?_, fun {p q} h => ?_⟩
  · rw [hascends] at h
    exact hsize ▸ hs.link h
  · rw [hascends] at h
    exact hs.acyclic a h
  · have hc := content?_setField s o name v (.field a protoName)
    rw [if_neg fun h => hn (by simpa using (Place.field.inj h.1).2.symm)] at hc
    exact hc.trans (hs.field a)
  · rw [hsize]
    rw [content?_setField] at h
    split at h
    · exact hv q (Option.some.inj h)
    · exact hs.held h

/-- A walk over one further link avoids the link, or the way leads to its start and on from its
end. -/
theorem transGen_of_link {R R' : Address .object → Address .object → Prop}
    (hR : ∀ x y, R' x y → R x y ∨ x = o ∧ y = q) (hq : ¬ReflTransGen R q o)
    {x y : Address .object} (h : TransGen R' x y) :
    TransGen R x y ∨ ReflTransGen R x o ∧ ReflTransGen R q y := by
  induction h with
  | single h =>
      obtain h | ⟨rfl, rfl⟩ := hR _ _ h
      · exact .inl (.single h)
      · exact .inr ⟨.refl, .refl⟩
  | tail _ h ih =>
      obtain h | ⟨rfl, rfl⟩ := hR _ _ h
      · exact ih.imp (fun hx => hx.tail h) fun hx => ⟨hx.1, hx.2.tail h⟩
      · obtain hx | ⟨-, hy⟩ := ih
        · exact .inr ⟨hx.to_reflTransGen, .refl⟩
        · exact absurd hy hq

theorem setProto (hs : s.Rooted) {p : Option (Address .object)}
    (hp : ∀ q, p = some q → q.index < s.objects.size ∧ o ∉ s.chain q) :
    (s.setProto o p).Rooted := by
  have hsize : (s.setProto o p).objects.size = s.objects.size := Heap.size_set _ _ _
  -- A link is an old one or the one that has been set.
  have hlink : ∀ {a b}, (s.setProto o p).Ascends a b →
      s.Ascends a b ∨ a = o ∧ p = some b ∧ o.index < s.objects.size := by
    intro a b h
    simp only [Ascends, object, Store.setProto, Heap.get?_set] at h
    split at h
    · next ha => exact .inr ⟨ha.1, h, ha.2⟩
    · exact .inl h
  refine ⟨fun {a b} h => ?_, fun a h => ?_, fun a => ?_, fun h => ?_⟩
  · rw [hsize]
    obtain h | ⟨-, h, -⟩ := hlink h
    · exact hs.link h
    · exact (hp b h).1
  · by_cases hn : ∃ q, p = some q ∧ o.index < s.objects.size
    · obtain ⟨q, rfl, ho⟩ := hn
      have hq : ¬ReflTransGen s.Ascends q o := fun hq => (hp q rfl).2 ((hs.mem_chain_iff ho).2 hq)
      have hR : ∀ x y, (s.setProto o (some q)).Ascends x y → s.Ascends x y ∨ x = o ∧ y = q :=
        fun x y h => (hlink h).imp_right fun h => ⟨h.1, (Option.some.inj h.2.1).symm⟩
      obtain h | ⟨ha, hb⟩ := transGen_of_link hR hq h
      · exact hs.acyclic a h
      · exact hq (hb.trans ha)
    · refine hs.acyclic a (TransGen.mono (fun x y h => ?_) a a h)
      obtain h | ⟨-, h, ho⟩ := hlink h
      · exact h
      · exact absurd ⟨y, h, ho⟩ hn
  · have hc := content?_setProto s o p (.field a protoName)
    exact hc.trans (hs.field a)
  · rw [content?_setProto] at h
    exact hsize ▸ hs.held h

end Rooted

/-! ### Runs -/

/-- The upkeep of prototypes: chains have an end, and the objects that values name are there. -/
def ancestry : Upkeep where
  during s₀ s := s.Rooted ∧ s₀.objects.size ≤ s.objects.size
  object s o := o.index < s.objects.size
  closure _ _ _ := True

theorem objects_assign (s : Store) (e : Environment) (name : String) (v : Value) :
    (s.assign e name v).objects = s.objects := by
  obtain ⟨b, -, -, h⟩ | ⟨b, a, -, -, -, h⟩ | ⟨-, h⟩ := s.assign_cases e name v <;> rw [h] <;> rfl

theorem ancestry_lawful : ancestry.Lawful := by
  have hvalue : ∀ {s₀ s : Store} {v : Value}, ancestry.value s₀ s v →
      ∀ o, v = .object o → o.index < s.objects.size := by
    rintro s₀ s _ hv o rfl
    exact hv
  have hcopy : ∀ {s s' : Store} {w : Value}, s.Rooted → s.Enlarges s' → (∃ c, w = .closure c) →
      ancestry.during s s' ∧ ancestry.value s s' w := by
    rintro s s' _ hs he ⟨c, rfl⟩
    exact ⟨⟨hs.enlarges he, Nat.le_of_eq (congrArg Heap.size he.objects.symm)⟩, trivial⟩
  exact {
    refl := fun h => ⟨h.1, Nat.le_refl _⟩
    trans := fun h h' => ⟨h'.1, Nat.le_trans h.2 h'.2⟩
    object_mono := fun h ho => Nat.lt_of_lt_of_le ho h.2
    closure_since := fun _ _ => trivial
    held := fun h hp => h.1.held hp
    proto := fun h hp => h.1.link hp
    copy := fun hc h hw => hcopy h.1 (copy_spec hc hw).1 (closure_of_copy hw)
    release := fun hc h hw => hcopy h.1 (release_spec hc hw).1 (closure_of_release hw)
    capture := fun hc h hx => by
      have he := (snapshot_spec hc hx).1
      exact ⟨⟨h.1.enlarges he, Nat.le_of_eq (congrArg Heap.size he.objects.symm)⟩,
        fun _ _ _ => trivial⟩
    newScope := fun h => ⟨h.1.alters (alters_newScope _ .nil) rfl nofun, Nat.le_refl _⟩
    newObject := fun {s} h => by
      have hlt : s.objects.size < s.newObject.objects.size := by
        rw [Store.newObject, Heap.size_push]
        exact Nat.lt_succ_self _
      exact ⟨⟨h.1.newObject, Nat.le_of_lt hlt⟩, hlt⟩
    create := fun _ h _ hv name => ⟨h.1.alters (alters_create _ _ name _) rfl (hvalue hv), h.2⟩
    share := fun h x name slot => ⟨h.1.of_objects_eq rfl fun p o hp => by
      rw [content?_share] at hp
      exact h.1.held hp, Nat.le_refl _⟩
    assign := fun {s₀ s e v _ _} _ _ h _ _ hv name => by
      have ho := objects_assign s e name v
      exact ⟨h.1.alters (alters_assign _ e name v) ho (hvalue hv), ho ▸ h.2⟩
    setField := fun {s₀ s name v} _ h hn hv o => by
      have hsize : (s.setField o name v).objects.size = s.objects.size := Heap.size_set _ _ _
      exact ⟨h.1.setField hn (hvalue hv) o, hsize ▸ h.2⟩
    setProto := fun {s o p} h hp => by
      have hsize : (s.setProto o p).objects.size = s.objects.size := Heap.size_set _ _ _
      exact ⟨h.1.setProto hp, Nat.le_of_eq hsize.symm⟩ }

/-- Whether a value may not become the prototype of an object: it is neither an object nor nothing,
or the object can be reached from it. -/
def Bars (s : Store) (o : Address .object) : Value → Prop
  | .object q => ReflTransGen s.Ascends q o
  | .nil => False
  | _ => True

end Store

/-- The object that a value is. -/
def Value.object? : Value → Option (Address .object)
  | .object o => some o
  | _ => none

open Store

/-- **A prototype is refused exactly if it is no object or leads back**, and then nothing has
changed. -/
theorem Eval.assignField_protoName {m : Machine} (hs : m.store.Rooted) {o : Address .object}
    (ho : o.index < m.store.objects.size) (v : Value) :
    (m.store.Bars o v → ∃ fault, fault.kind = .type ∧
      assignField (.object o) protoName v m = .error (.failed ⟨fault, []⟩) m) ∧
    (¬m.store.Bars o v →
      assignField (.object o) protoName v m
        = .ok () (m.withStore fun s => s.setProto o v.object?)) := by
  have hassign : assignField (.object o) protoName v m = assignProto o v m := by
    rw [assignField, objectOf]
    rfl
  rw [hassign]
  cases v with
  | object q =>
      rw [Bars, ← hs.mem_chain_iff ho, assignProto, observe_bind]
      constructor
      · intro h
        rw [decide_eq_true h]
        exact ⟨.prototypeCycle, rfl, rfl⟩
      · intro h
        rw [decide_eq_false h]
        rfl
  | nil => exact ⟨False.elim, fun _ => rfl⟩
  | _ => exact ⟨fun _ => ⟨.prototypeType _, rfl, rfl⟩, fun h => absurd trivial h⟩

/-- The machine on which the operands of an assignment to a field are evaluated. -/
def Machine.announce (m : Machine) (s : Stmt) (name : String) : Machine :=
  (m.report (.executed s.label m.environment.depth)).report (.fieldAssigned name)

/-- An assignment to a field comes to the evaluation of its operands. -/
theorem leads_assign_field (n : Nat) (object e : Expr) (name : String) (m : Machine) :
    (Script.execute (.assign (.field object name) e)).Leads (perform n) m
      (.call (.evaluate object) fun t => .call (.evaluate e) fun v =>
        .act (Eval.assignField t name v) fun _ => .done Status.proceed)
      (m.announce (.assign (.field object name) e) name) := by
  have hexecuted : Eval.reportStatement (Stmt.assign (.field object name) e).label m
      = .ok () (m.report (.executed (Stmt.assign (.field object name) e).label
        m.environment.depth)) := rfl
  exact .act hexecuted (.act rfl .refl)

/-- An assignment to a field ends as the step does that assigns. -/
theorem perform_assign_field {n : Nat} {object e : Expr} {name : String} {m₀ m₁ m₂ : Machine}
    {t v : Value}
    (h₁ : perform n (.evaluate object) (m₀.announce (.assign (.field object name) e) name)
      = .ok t m₁)
    (h₂ : perform n (.evaluate e) m₁ = .ok v m₂) :
    perform (n + 1) (.execute (.assign (.field object name) e)) m₀
      = match Eval.assignField t name v m₂ with
        | .ok _ m => .ok .proceed m
        | .error h m => .error h m := by
  have hl := (leads_assign_field n object e name m₀).trans (.call h₁ (.call h₂ .refl))
  refine hl.run_eq.trans ?_
  simp only [Script.run]
  cases Eval.assignField t name v m₂ <;> rfl

/-- What is known of prototypes while the task of a moment is performed. -/
structure Moment.Ancestral (a : Moment) : Prop where
  /-- From every object fewer steps than there are objects lead to one without prototype. -/
  root : ∀ m, a.Passes m ∨ a.Ends m → ∀ o : Address .object, o.index < m.store.objects.size →
    ∃ k < m.store.objects.size, ∃ b, m.store.ancestor? k o = some b ∧
      (m.store.object b).proto = none
  /-- No object has a field of its own with the name of the prototype. -/
  field : ∀ m, a.Passes m ∨ a.Ends m → ∀ o, (m.store.object o).fields.get? protoName = none
  /-- A walk along a chain ends by itself: it may be as long as one likes. -/
  walk : ∀ m, a.Passes m ∨ a.Ends m → ∀ o : Address .object, o.index < m.store.objects.size →
    ∀ n, m.store.objects.size ≤ n → m.store.chainUpTo n o = m.store.chain o
  /-- A prototype is refused exactly if it is no object or leads back, and then nothing has
  changed. -/
  refuses : ∀ m, a.Passes m ∨ a.Ends m → ∀ o : Address .object, o.index < m.store.objects.size →
    ∀ v, (m.store.Bars o v → ∃ fault, fault.kind = .type ∧
        Eval.assignField (.object o) protoName v m = .error (.failed ⟨fault, []⟩) m) ∧
      (¬m.store.Bars o v → Eval.assignField (.object o) protoName v m
        = .ok () (m.withStore fun s => s.setProto o v.object?))
  /-- So it is for the statement, when its operands have been evaluated. -/
  statement : ∀ n object e m₀ γ,
    a = ⟨n + 1, .execute (.assign (.field object protoName) e), m₀, γ⟩ →
    ∀ o m₁ v m₂,
      perform n (.evaluate object) (m₀.announce (.assign (.field object protoName) e) protoName)
        = .ok (.object o) m₁ →
      perform n (.evaluate e) m₁ = .ok v m₂ →
        (m₂.store.Bars o v → ∃ failure, failure.fault.kind = .type ∧
          perform a.fuel (.execute (.assign (.field object protoName) e)) m₀
            = .error (.failed failure) m₂) ∧
        (¬m₂.store.Bars o v →
          perform a.fuel (.execute (.assign (.field object protoName) e)) m₀
            = .ok .proceed (m₂.withStore fun s => s.setProto o v.object?))

theorem Store.rooted_main : ((∅ : Store).newScope ∅).Rooted where
  link h := nomatch h
  acyclic a h := by
    cases h with
    | single h => cases h
    | tail _ h => cases h
  field _ := rfl
  held {p o} h := by
    cases p <;> cases h

/-- **Every moment of a run keeps its prototypes in order.** -/
theorem Machine.Reaches.ancestry {fuel : Nat} {p : Program} {m : Machine} {a : Moment}
    (h : Machine.Reaches fuel p m a) : ancestry.contract.before a :=
  ancestry_lawful.before_of_reaches ⟨rooted_main, Nat.le_refl _⟩ h

namespace Moment

variable {a : Moment} {m : Machine} {fuel : Nat} {p : Program} {m₀ : Machine}

theorem rooted (h : Machine.Reaches fuel p m₀ a) (hm : a.Passes m ∨ a.Ends m) :
    m.store.Rooted := by
  obtain hm | hm := hm
  · exact (ancestry_lawful.kept.during_of_passes h.isolated h.ancestry hm).1
  · exact (ancestry_lawful.during_of_ends h.isolated h.ancestry hm).1

/-- The object to which a prototype is given is there. -/
theorem assigns_object {n : Nat} {object e : Expr} {name : String} {m₁ m₂ : Machine} {γ : Context}
    {o : Address .object} {v : Value}
    (h : Machine.Reaches fuel p m₀ ⟨n + 1, .execute (.assign (.field object name) e), m, γ⟩)
    (h₁ : perform n (.evaluate object) (m.announce (.assign (.field object name) e) name)
      = .ok (.object o) m₁)
    (h₂ : perform n (.evaluate e) m₁ = .ok v m₂) :
    m₂.store.Rooted ∧ o.index < m₂.store.objects.size := by
  have hl₁ := leads_assign_field n object e name m
  have hl₂ := hl₁.trans (.call h₁ .refl)
  have hb₁ := h.opens (.call n.succ_pos hl₁)
  have hb₂ := h.opens (.call n.succ_pos hl₂)
  obtain ⟨-, ho⟩ := ancestry_lawful.kept.of_ok hb₁.isolated hb₁.ancestry h₁
  obtain ⟨⟨hs, hle⟩, -⟩ := ancestry_lawful.kept.of_ok hb₂.isolated hb₂.ancestry h₂
  exact ⟨hs, Nat.lt_of_lt_of_le (ho nofun _ List.mem_cons_self) hle⟩

end Moment

/-- **Prototype chains stay acyclic.**  At every moment of a run each chain has an end, and an
object is refused as a prototype exactly if the chain would come back. -/
theorem prototype_acyclicity {fuel : Nat} {p : Program} {m₀ : Machine} {a : Moment}
    (h : Machine.Reaches fuel p m₀ a) : a.Ancestral where
  root _ hm _ ho := (Moment.rooted h hm).exists_root ho
  field _ hm := (Moment.rooted h hm).field
  walk _ hm _ ho _ hn := (Moment.rooted h hm).chainUpTo_of_size_le ho hn
  refuses _ hm _ ho v := Eval.assignField_protoName (Moment.rooted h hm) ho v
  statement n object e m γ ha o m₁ v m₂ h₁ h₂ := by
    subst ha
    obtain ⟨hs, ho⟩ := Moment.assigns_object h h₁ h₂
    have hstep := Eval.assignField_protoName hs ho v
    rw [perform_assign_field h₁ h₂]
    refine ⟨fun hb => ?_, fun hb => ?_⟩
    · obtain ⟨fault, hk, hx⟩ := hstep.1 hb
      rw [hx]
      exact ⟨_, hk, rfl⟩
    · rw [hstep.2 hb]

/-- A program that tries to close a circle of prototypes:

    func main() {
        a = @;
        b = @;
        b.proto = a;
        a.proto = b;
    } -/
def Program.circle : Program where
  routines :=
    [.mk "main" []
      [.assign (.variable "a") .newObject,
        .assign (.variable "b") .newObject,
        .assign (.field (.variable "b") "proto") (.variable "a"),
        .assign (.field (.variable "a") "proto") (.variable "b")]]

/-- The circle is refused. -/
theorem prototype_acyclicity_circle : ∃ a : Moment, Machine.Reaches 20 .circle (.initial {}) a ∧
    (a.machine.store.object ⟨1⟩).proto = some ⟨0⟩ ∧ a.failure? = some .type ∧ a.Ancestral := by
  have hd : ((Machine.replay 20 .circle (.initial {}) [1, 1, 1, 0]).any fun a =>
      decide ((a.machine.store.object ⟨1⟩).proto = some ⟨0⟩ ∧ a.failure? = some .type)) = true := by
    decide +kernel
  obtain ⟨a, ha, hd⟩ := (Option.any_eq_true _ _).1 hd
  obtain ⟨hp, hf⟩ := of_decide_eq_true hd
  have h := Machine.reaches_of_replay ha
  exact ⟨a, h, hp, hf, prototype_acyclicity h⟩

end ProtoScript
