import ProtoScript.Proofs.Ancestry
import ProtoScript.Proofs.Assignment
import ProtoScript.Proofs.Duplicate
/-!
# Where a field is seen

A name is looked up on an object along the chain of the object, and what is found
is what the first object of the chain has that has a field of its own with this
name.  That object supplies the field (`Store.Supplies`).

An assignment to a field writes into the object that it names and into no other,
and links no object anew.  So it is seen from exactly those objects which the
object supplies afterwards, and whatever is looked up from elsewhere, or under
another name, is found as before (`Machine.Writes`).

The chain that is searched is cut off after as many objects as there are.  That
nothing is missed by this is due to the prototypes being a forest
(`Store.Forest.find?_chain`).
-/

namespace ProtoScript
namespace Store

/-- Whether an object has a field of its own with the given name. -/
def hasOwn (s : Store) (name : String) (o : Address .object) : Bool :=
  ((s.object o).fields.get? name).isSome

/-- Along the chain of the first object, the second one is the first with a field of its own with
the given name. -/
inductive Supplies (s : Store) (name : String) : Address .object → Address .object → Prop where
  /-- An object has its own fields from itself. -/
  | own {o : Address .object} (has : s.hasOwn name o = true) : Supplies s name o o
  /-- What an object lacks it has from where its prototype has it. -/
  | inherited {a p o : Address .object} (lacks : s.hasOwn name a = false) (ascends : s.Ascends a p)
      (supplies : Supplies s name p o) : Supplies s name a o

/-- What is found where a field is read: the prototype by its name, and else a member. -/
def field? (s : Store) (a : Address .object) (name : String) : Option Value :=
  if name = protoName then some (((s.object a).proto.map Value.object).getD .nil)
  else s.member? a name

variable {s s' : Store} {a o p : Address .object} {f g : String} {v w : Value}

/-- An object that is not there has no fields. -/
theorem lt_of_hasOwn (h : s.hasOwn f o = true) : o.index < s.objects.size := by
  unfold hasOwn object at h
  cases hg : s.objects.get? o with
  | some x => exact Heap.index_lt_of_get?_eq_some hg
  | none => rw [hg] at h; cases h

/-! ### Chains that are searched -/

namespace Supplies

theorem lt_size (h : s.Supplies f p o) : p.index < s.objects.size := by
  cases h with
  | own has => exact lt_of_hasOwn has
  | inherited _ ascends _ => exact lt_of_ascends ascends

/-- The supplier is met after some steps, and the search stops there. -/
theorem exists_steps (h : s.Supplies f p o) : ∃ k, s.ancestor? k p = some o ∧
    ∀ n, k < n → (s.chainUpTo n p).find? (s.hasOwn f) = some o := by
  induction h with
  | @own o has =>
      refine ⟨0, rfl, fun n hn => ?_⟩
      obtain ⟨n, rfl⟩ := Nat.exists_eq_succ_of_ne_zero (Nat.ne_of_gt hn)
      rw [chainUpTo, List.find?_cons_of_pos has]
  | @inherited a p o lacks ascends _ ih =>
      obtain ⟨k, hk, hfind⟩ := ih
      refine ⟨k + 1, by rw [ancestor?, ascends, Option.bind_some, hk], fun n hn => ?_⟩
      obtain ⟨n, rfl⟩ := Nat.exists_eq_succ_of_ne_zero (Nat.ne_of_gt (Nat.zero_lt_of_lt hn))
      have hlacks : ¬s.hasOwn f a = true := by simp [lacks]
      rw [chainUpTo, List.find?_cons_of_neg hlacks, ascends]
      exact hfind n (Nat.lt_of_succ_lt_succ hn)

/-- What a search along a chain stops at is a supplier. -/
theorem of_find? : ∀ {n : Nat} {p : Address .object},
    (s.chainUpTo n p).find? (s.hasOwn f) = some o → s.Supplies f p o
  | 0, _, h => nomatch h
  | n + 1, p, h => by
      rw [chainUpTo, List.find?_cons] at h
      cases hp : s.hasOwn f p with
      | true =>
          rw [hp] at h
          cases h
          exact .own hp
      | false =>
          rw [hp] at h
          cases hq : (s.object p).proto with
          | some q =>
              simp only [hq] at h
              exact .inherited hp hq (of_find? h)
          | none =>
              simp only [hq] at h
              cases h

end Supplies

/-- **The search along a chain finds the supplier**, for it goes as far as there are objects. -/
theorem Forest.find?_chain (hs : s.Forest) :
    (s.chain p).find? (s.hasOwn f) = some o ↔ s.Supplies f p o := by
  constructor
  · exact Supplies.of_find?
  · intro h
    obtain ⟨k, hk, hfind⟩ := h.exists_steps
    exact hfind _ (hs.lt_size hk h.lt_size)

/-- A member is what the first object has that has it. -/
theorem member?_eq (s : Store) (p : Address .object) (f : String) : s.member? p f =
    ((s.chain p).find? (s.hasOwn f)).bind fun o => (s.object o).fields.get? f := by
  rw [member?]
  induction s.chain p with
  | nil => rfl
  | cons q l ih =>
      rw [List.findSome?_cons, List.find?_cons, hasOwn]
      cases hq : (s.object q).fields.get? f with
      | some u => exact hq.symm
      | none => exact ih

/-- **A member is a field of the supplier.** -/
theorem Forest.member?_eq_some_iff (hs : s.Forest) :
    s.member? p f = some v ↔ ∃ o, s.Supplies f p o ∧ (s.object o).fields.get? f = some v := by
  rw [member?_eq, Option.bind_eq_some_iff]
  simp only [hs.find?_chain]

/-! ### Stores with the same links -/

theorem chainUpTo_congr (h : ∀ a, (s'.object a).proto = (s.object a).proto) :
    ∀ n a, s'.chainUpTo n a = s.chainUpTo n a
  | 0, _ => rfl
  | n + 1, a => by
      rw [chainUpTo, chainUpTo, h]
      cases (s.object a).proto with
      | some p => exact congrArg (a :: ·) (chainUpTo_congr h n p)
      | none => rfl

theorem Forest.of_proto_eq (hs : s.Forest) (hsize : s'.objects.size = s.objects.size)
    (h : ∀ a, (s'.object a).proto = (s.object a).proto) : s'.Forest := by
  have hascends : s'.Ascends = s.Ascends := by
    funext a b
    rw [Ascends, Ascends, h]
  constructor
  · intro a b hab
    rw [hascends] at hab
    exact hsize ▸ hs.link hab
  · rw [hascends]
    exact hs.acyclic

/-! ### A field that is written -/

/-- The objects of a store in which the object `o` has got the field `f` with the value `w`. -/
structure Gains (s s' : Store) (o : Address .object) (f : String) (w : Value) : Prop where
  size : s'.objects.size = s.objects.size
  proto : ∀ a, (s'.object a).proto = (s.object a).proto
  written : (s'.object o).fields.get? f = some w
  others : ∀ q g, ¬(q = o ∧ g = f) → (s'.object q).fields.get? g = (s.object q).fields.get? g

theorem gains_setField (ho : o.index < s.objects.size) (f : String) (w : Value) :
    s.Gains (s.setField o f w) o f w where
  size := Heap.size_set _ _ _
  proto := proto_setField s o f w
  written := (content?_setField s o f w (.field o f)).trans (if_pos ⟨rfl, ho⟩)
  others q g h := by
    refine (content?_setField s o f w (.field q g)).trans (if_neg fun hc => h ?_)
    exact Place.field.inj hc.1

namespace Gains

theorem chain_eq (h : s.Gains s' o f w) (p : Address .object) : s'.chain p = s.chain p := by
  rw [chain, chain, h.size, chainUpTo_congr h.proto]

/-- Where the object supplies the field, the value is found. -/
theorem member?_of_supplies (h : s.Gains s' o f w) (hs : s.Forest) (hp : s'.Supplies f p o) :
    s'.member? p f = some w :=
  (hs.of_proto_eq h.size h.proto).member?_eq_some_iff.2 ⟨o, hp, h.written⟩

/-- **Elsewhere nothing new is found.**  Along the chain either the object is not met at all or a
field of an earlier one is in the way. -/
theorem member?_of_not_supplies (h : s.Gains s' o f w) (hs : s.Forest)
    (hp : ¬(g = f ∧ s'.Supplies f p o)) : s'.member? p g = s.member? p g := by
  have hfind : g = f → (s'.chain p).find? (s'.hasOwn f) ≠ some o :=
    fun hg hc => hp ⟨hg, (hs.of_proto_eq h.size h.proto).find?_chain.1 hc⟩
  rw [h.chain_eq] at hfind
  rw [member?, member?, h.chain_eq]
  generalize s.chain p = l at hfind
  induction l with
  | nil => rfl
  | cons q l ih =>
      have hq : ¬(q = o ∧ g = f) := by
        rintro ⟨rfl, rfl⟩
        have hown : s'.hasOwn g q = true := by
          rw [hasOwn, h.written]
          rfl
        exact hfind rfl (List.find?_cons_of_pos hown)
      rw [List.findSome?_cons, List.findSome?_cons, h.others q g hq]
      cases hu : (s.object q).fields.get? g with
      | some u => rfl
      | none =>
          refine ih fun hg hc => hfind hg ?_
          have hlacks : ¬s'.hasOwn f q = true := by
            rw [hasOwn, ← hg, h.others q g hq, hu]
            exact Bool.false_ne_true
          rw [List.find?_cons_of_neg hlacks, hc]

end Gains
end Store

/-! ### Looking up and writing -/

/-- What a call of a method with so many arguments calls, if this is found under its name. -/
def Callable.ofMember? (name : String) (count : Nat) : Option Value → Except Fault Callable
  | some v => ofValue name count v
  | none => .error (.noMethod name)

namespace Eval

/-- What a read of a field gives, if this is found under its name. -/
def fetch (name : String) : Option Value → Eval Value
  | some v => copied v
  | none => raise (.noField name)

variable {m m' : Machine} {o p : Address .object} {f : String} {v w : Value}

theorem readField_eq (p : Address .object) (name : String) (m : Machine) :
    readField (.object p) name m = fetch name (m.store.field? p name) m := by
  rw [readField, objectOf, pure_bind, Store.field?]
  split
  · rw [observe_bind]
    cases (m.store.object p).proto <;> rfl
  · rw [observe_bind]
    cases m.store.member? p name <;> rfl

theorem method_eq (p : Address .object) (name : String) (count : Nat) (m : Machine) :
    method p name count m = lift (Callable.ofMember? name count (m.store.member? p name)) m := by
  rw [method, observe_bind]
  cases m.store.member? p name <;> rfl

/-- An assignment under another name than that of the prototype writes a copy. -/
theorem assignField_of_ne (hf : f ≠ Store.protoName) (o : Address .object) (v : Value) :
    assignField (.object o) f v
      = (copied v >>= fun w => modifyStore fun s => s.setField o f w) := by
  rw [assignField, objectOf, pure_bind]
  exact if_neg hf

end Eval

/-- What has changed where the object `o` has been given the field `f` with the value `w`. -/
structure Machine.Writes (m m' : Machine) (o : Address .object) (f : String) (w : Value) :
    Prop where
  /-- The object has the field, and no other field and no link of any object has changed. -/
  gains : m.store.Gains m'.store o f w
  /-- Nor has any cell that was there and is no object. -/
  kept : (∀ a : Address .scope, a.index < m.store.scopes.size →
      m'.store.scope a = m.store.scope a) ∧
    ∀ σ : Address .slot, σ.index < m.store.slots.size → m'.store.value σ = m.store.value σ
  /-- Nor has anything but cells. -/
  machine : m' = { m with store := m'.store }
  /-- An object that has the field from `o` reads a copy of the value. -/
  read : ∀ p, m'.store.Supplies f p o → Eval.readField (.object p) f m' = Eval.copied w m'
  /-- A call on it calls the value. -/
  call : ∀ p count, m'.store.Supplies f p o →
    Eval.method p f count m' = Eval.lift (Callable.ofValue f count w) m'
  /-- Otherwise a read finds what it found before. -/
  readOther : ∀ p g, ¬(g = f ∧ m'.store.Supplies f p o) → ∃ found,
    Eval.readField (.object p) g m = Eval.fetch g found m ∧
      Eval.readField (.object p) g m' = Eval.fetch g found m'
  /-- And so does a call. -/
  callOther : ∀ p g count, ¬(g = f ∧ m'.store.Supplies f p o) → ∃ found,
    Eval.method p g count m = Eval.lift (Callable.ofMember? g count found) m ∧
      Eval.method p g count m' = Eval.lift (Callable.ofMember? g count found) m'

namespace Machine

variable {m m₁ : Machine} {o : Address .object} {f : String} {v w : Value}

/-- **A field that is written is seen where the object supplies it, and nowhere else.** -/
theorem Writes.of_gains {m' : Machine} (hs : m.store.Forest) (hf : f ≠ Store.protoName)
    (hg : m.store.Gains m'.store o f w)
    (hkept : (∀ a : Address .scope, a.index < m.store.scopes.size →
        m'.store.scope a = m.store.scope a) ∧
      ∀ σ : Address .slot, σ.index < m.store.slots.size → m'.store.value σ = m.store.value σ)
    (hm : m' = { m with store := m'.store }) : m.Writes m' o f w where
  gains := hg
  kept := hkept
  machine := hm
  read p hp := by
    rw [Eval.readField_eq, Store.field?, if_neg hf, hg.member?_of_supplies hs hp]
    rfl
  call p count hp := by
    rw [Eval.method_eq, hg.member?_of_supplies hs hp]
    rfl
  readOther p g hp := by
    refine ⟨m.store.field? p g, Eval.readField_eq p g m, ?_⟩
    rw [Eval.readField_eq, Store.field?, Store.field?, hg.proto,
      hg.member?_of_not_supplies hs hp]
  callOther p g count hp := by
    refine ⟨m.store.member? p g, Eval.method_eq p g count m, ?_⟩
    rw [Eval.method_eq, hg.member?_of_not_supplies hs hp]

/-- The value that is written is a copy that has been made before. -/
theorem writes_setField (hc : m.store.Closed) (hs : m.store.Forest)
    (ho : o.index < m.store.objects.size) (hf : f ≠ Store.protoName)
    (hw : Eval.copied v m = .ok w m₁) :
    m.store.Duplicate (m₁.store.setField o f w) v w ∧
      m.Writes (m₁.withStore fun s => s.setField o f w) o f w := by
  obtain ⟨s₁, hcopy, rfl⟩ := Eval.copied_eq_ok hw
  obtain ⟨he, -⟩ := Store.copy_spec hc hcopy
  have hret : m.store.Retains s₁ (s₁.setField o f w) :=
    ⟨Nat.le_refl _, Nat.le_refl _, fun _ _ _ => rfl, fun _ _ _ => rfl⟩
  refine ⟨(Store.duplicate_copy hc hcopy).retained hret, .of_gains hs hf ?_ ⟨?_, ?_⟩ rfl⟩
  · -- Copying leaves the objects alone, so it matters for slots and scopes only.
    have hobject : s₁.object = m.store.object := by
      funext a
      rw [Store.object, Store.object, he.objects]
    have hg := Store.gains_setField (he.objects ▸ ho) f w
    exact ⟨hg.size.trans (congrArg Heap.size he.objects), fun a => hobject ▸ hg.proto a,
      hg.written, fun q g h => hobject ▸ hg.others q g h⟩
  · exact he.scope
  · exact fun σ hσ => he.value_eq hσ

end Machine

/-- **A field that is assigned is seen exactly through the chains that should see it.** -/
theorem Eval.assignField_writes {m m' : Machine} {o : Address .object} {f : String} {v : Value}
    (hc : m.store.Closed) (hs : m.store.Forest) (ho : o.index < m.store.objects.size)
    (hf : f ≠ Store.protoName) (h : assignField (.object o) f v m = .ok () m') :
    ∃ w m₁, copied v m = .ok w m₁ ∧ m.store.Duplicate m'.store v w ∧ m.Writes m' o f w := by
  rw [assignField_of_ne hf] at h
  obtain ⟨w, m₁, hw, hm⟩ := bind_eq_ok.1 h
  cases hm
  exact ⟨w, m₁, hw, Machine.writes_setField hc hs ho hf hw⟩

/-- A machine with three objects, each of which is the prototype of the next one; the first one has
a field. -/
def Machine.generations : Machine :=
  (Machine.initial {}).withStore fun s =>
    (((s.newObject.newObject.newObject.setField ⟨0⟩ "kind" (.text "animal")).setProto ⟨1⟩
      (some ⟨0⟩)).setProto ⟨2⟩ (some ⟨1⟩))

theorem Machine.rooted_generations : Machine.generations.store.Rooted := by
  have hkind : "kind" ≠ Store.protoName := by decide
  have hobjects := Store.rooted_main.newObject.newObject.newObject
  have hfield := hobjects.setField hkind (v := .text "animal") nofun ⟨0⟩
  have hfirst := hfield.setProto (o := ⟨1⟩) (p := some ⟨0⟩) (by decide)
  exact hfirst.setProto (o := ⟨2⟩) (p := some ⟨1⟩) (by decide)

/-- What is written into the second object is seen from the third one and not from the first. -/
theorem Eval.assignField_writes_generations : ∃ m',
    assignField (.object ⟨1⟩) "kind" (.text "dog") .generations = .ok () m' ∧
    m'.store.member? ⟨2⟩ "kind" = some (.text "dog") ∧
    m'.store.member? ⟨0⟩ "kind" = some (.text "animal") ∧
    ∃ w m₁, copied (.text "dog") .generations = .ok w m₁ ∧
      Machine.generations.store.Duplicate m'.store (.text "dog") w ∧
      Machine.generations.Writes m' ⟨1⟩ "kind" w :=
  ⟨_, rfl, rfl, rfl, assignField_writes (by decide) Machine.rooted_generations.forest (by decide)
    (by decide) rfl⟩

namespace Moment

variable {m m₀ m₁ m₂ m' : Machine} {fuel n : Nat} {p : Program} {γ : Context} {object e : Expr}
  {f : String} {o : Address .object} {v : Value} {status : Status}

/-- **So it is whenever a statement of a program assigns a field.** -/
theorem writes_of_assign
    (h : Machine.Reaches fuel p m₀ ⟨n + 1, .execute (.assign (.field object f) e), m, γ⟩)
    (hf : f ≠ Store.protoName)
    (h₁ : perform n (.evaluate object) (m.announce (.assign (.field object f) e) f)
      = .ok (.object o) m₁)
    (h₂ : perform n (.evaluate e) m₁ = .ok v m₂)
    (h₃ : perform (n + 1) (.execute (.assign (.field object f) e)) m = .ok status m') :
    ∃ w, m₂.store.Duplicate m'.store v w ∧ m₂.Writes m' o f w := by
  obtain ⟨hs, ho⟩ := assigns_object h h₁ h₂
  have hl := (leads_assign_field n object e f m).trans (.call h₁ (.call h₂ .refl))
  have hpasses : Passes ⟨n + 1, .execute (.assign (.field object f) e), m, γ⟩ m₂ :=
    .later n.succ_pos hl
  have hc := (hpasses.keeps h.isolated).closed
  rw [perform_assign_field h₁ h₂, Eval.assignField_of_ne hf] at h₃
  split at h₃
  · next hx =>
      obtain ⟨w, m₃, hw, hm⟩ := Eval.bind_eq_ok.1 hx
      cases hm
      cases h₃
      exact ⟨w, Machine.writes_setField hc hs.forest ho hf hw⟩
  · cases h₃

end Moment
end ProtoScript
