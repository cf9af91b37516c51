import Mathlib.Data.List.Chain
import Mathlib.Data.List.Perm.Subperm
import Mathlib.Logic.Relation
import ProtoScript.Environment
/-!
# What the store holds

A value is held at a place: in a slot, or in a field of an object.  A scope is
captured if some closure that is held captured it.  Every change of the store
except copying is small: it writes one value at one place at most, and rebinds
names in scopes that are known beforehand (`Store.Alters`).

Slots and objects that are not there hold nothing, and a scope that is not
there binds nothing, so making a cell that is empty changes no view at all.

Where cells point to cells and no way leads back, a walk meets every cell once
at most, so the number of cells bounds its length (`Address.length_le_of_isChain`).
-/

namespace ProtoScript

/-- **A walk that never comes back is no longer than there are cells.** -/
theorem Address.length_le_of_isChain {r : Region} {R : Address r → Address r → Prop}
    (hR : ∀ a, ¬Relation.TransGen R a a) {l : List (Address r)} (hl : l.IsChain R) {n : Nat}
    (hn : ∀ a ∈ l, a.index < n) : l.length ≤ n := by
  have hpair : l.Pairwise (Relation.TransGen R) :=
    List.isChain_iff_pairwise.1 (hl.imp fun _ _ => .single)
  have hindex : (l.map Address.index).Nodup := by
    refine List.pairwise_map.2 (hpair.imp fun {a b} hab he => ?_)
    have : a = b := by cases a; cases b; exact congrArg _ he
    exact hR b (this ▸ hab)
  have hrange : l.map Address.index ⊆ List.range n := by
    intro i hi
    obtain ⟨a, ha, rfl⟩ := List.mem_map.1 hi
    exact List.mem_range.2 (hn a ha)
  simpa using (List.subperm_of_subset hindex hrange).length_le

namespace Store

/-- Where a value is held. -/
inductive Place where
  /-- In a slot. -/
  | slot (a : Address .slot)
  /-- In a field of an object. -/
  | field (a : Address .object) (name : String)
deriving DecidableEq, Repr

/-- The value at a place. -/
def content? (s : Store) : Place → Option Value
  | .slot a => s.slots.get? a
  | .field a name => (s.object a).fields.get? name

/-- Whether some closure that is held captured a scope. -/
def Captured (s : Store) (a : Address .scope) : Prop :=
  ∃ p c, s.content? p = some (.closure c) ∧ c.captured = a

variable (s : Store)

/-! ### Places -/

/-- A slot that holds anything is there. -/
theorem content?_slot_of_value {s : Store} {a : Address .slot} {v : Value} (h : s.value a = v)
    (hv : v ≠ .nil) : s.content? (.slot a) = some v := by
  unfold value at h
  cases hg : s.slots.get? a with
  | none => rw [hg] at h; exact absurd h.symm hv
  | some v => rw [hg] at h; exact hg.trans (congrArg some h)

@[simp] theorem content?_newScope (c : Scope) (p : Place) :
    (s.newScope c).content? p = s.content? p := by
  cases p <;> rfl

@[simp] theorem content?_bind (a : Address .scope) (name : String) (b : Binding) (p : Place) :
    (s.bind a name b).content? p = s.content? p := by
  cases p <;> rfl

@[simp] theorem content?_share (a : Address .scope) (name : String) (slot : Address .slot)
    (p : Place) : (s.share a name slot).content? p = s.content? p :=
  content?_bind s a name _ p

/-- **A new slot holds its value, and everything else holds what it held.** -/
theorem content?_newSlot (v : Value) (p : Place) :
    (s.newSlot v).content? p = if p = .slot s.slots.fresh then some v else s.content? p := by
  cases p with
  | slot a => simp [content?, newSlot, Heap.get?_push]
  | field a name => rfl

theorem content?_create (a : Address .scope) (name : String) (v : Value) (p : Place) :
    (s.create a name v).content? p = if p = .slot s.slots.fresh then some v else s.content? p :=
  (content?_bind _ _ _ _ p).trans (content?_newSlot s v p)

theorem content?_writeSlot (a : Address .slot) (v : Value) (p : Place) :
    (s.writeSlot a v).content? p
      = if p = .slot a ∧ a.index < s.slots.size then some v else s.content? p := by
  cases p with
  | slot b => simp [content?, writeSlot, Heap.get?_set]
  | field b name => rfl

@[simp] theorem object_newObject (a : Address .object) : s.newObject.object a = s.object a := by
  simp only [object, newObject, Heap.get?_push]
  split
  · next h => simp [h]
  · rfl

@[simp] theorem content?_newObject (p : Place) : s.newObject.content? p = s.content? p := by
  cases p with
  | slot a => rfl
  | field a name => simp [content?]

theorem content?_setField (a : Address .object) (name : String) (v : Value) (p : Place) :
    (s.setField a name v).content? p
      = if p = .field a name ∧ a.index < s.objects.size then some v else s.content? p := by
  cases p with
  | slot b => rfl
  | field b key =>
      simp only [content?, setField, object, Heap.get?_set, Place.field.injEq]
      by_cases hb : b = a ∧ a.index < s.objects.size
      · obtain ⟨rfl, hi⟩ := hb
        simp [hi, FiniteMap.get?_insert]
      · have hn : ¬((b = a ∧ key = name) ∧ a.index < s.objects.size) :=
          fun h => hb ⟨h.1.1, h.2⟩
        rw [if_neg hb, if_neg hn]

@[simp] theorem content?_setProto (a : Address .object) (o : Option (Address .object))
    (p : Place) : (s.setProto a o).content? p = s.content? p := by
  cases p with
  | slot b => rfl
  | field b key =>
      simp only [content?, setProto, object, Heap.get?_set]
      by_cases hb : b = a ∧ a.index < s.objects.size
      · obtain ⟨rfl, hi⟩ := hb
        simp [hi]
      · rw [if_neg hb]

/-! ### Scopes -/

@[simp] theorem scope_newSlot (v : Value) (a : Address .scope) :
    (s.newSlot v).scope a = s.scope a := rfl

@[simp] theorem scope_writeSlot (b : Address .slot) (v : Value) (a : Address .scope) :
    (s.writeSlot b v).scope a = s.scope a := rfl

@[simp] theorem scope_newObject (a : Address .scope) : s.newObject.scope a = s.scope a := rfl

@[simp] theorem scope_setField (o : Address .object) (name : String) (v : Value)
    (a : Address .scope) : (s.setField o name v).scope a = s.scope a := rfl

@[simp] theorem scope_setProto (o : Address .object) (p : Option (Address .object))
    (a : Address .scope) : (s.setProto o p).scope a = s.scope a := rfl

theorem scope_newScope (c : Scope) (a : Address .scope) :
    (s.newScope c).scope a = if a = s.scopes.fresh then c else s.scope a := by
  simp only [scope, newScope, Heap.get?_push]
  split <;> rfl

theorem binding?_newScope_fresh (c : Scope) (name : String) :
    (s.newScope c).binding? s.scopes.fresh name = c.get? name := by
  rw [binding?, scope_newScope, if_pos rfl]

/-- **A new scope without bindings changes no scope.** -/
@[simp] theorem scope_newScope_empty (a : Address .scope) :
    (s.newScope ∅).scope a = s.scope a := by
  rw [scope_newScope]
  split
  · next h => simp [h, scope]
  · rfl

theorem scope_bind_of_ne {a a' : Address .scope} (h : a' ≠ a) (name : String) (b : Binding) :
    (s.bind a name b).scope a' = s.scope a' := by
  simp [scope, bind, Heap.get?_set_of_ne _ _ h]

theorem binding?_bind (a a' : Address .scope) (name name' : String) (b : Binding) :
    (s.bind a name b).binding? a' name'
      = if a' = a ∧ name' = name ∧ a.index < s.scopes.size then some b
        else s.binding? a' name' := by
  simp only [binding?, scope, bind, Heap.get?_set]
  by_cases ha : a' = a ∧ a.index < s.scopes.size
  · obtain ⟨rfl, hi⟩ := ha
    simp [hi, FiniteMap.get?_insert]
  · have hn : ¬(a' = a ∧ name' = name ∧ a.index < s.scopes.size) := fun h => ha ⟨h.1, h.2.2⟩
    rw [if_neg ha, if_neg hn]

theorem scope_create_of_ne {a a' : Address .scope} (h : a' ≠ a) (name : String) (v : Value) :
    (s.create a name v).scope a' = s.scope a' :=
  scope_bind_of_ne _ h name _

theorem binding?_create (a a' : Address .scope) (name name' : String) (v : Value) :
    (s.create a name v).binding? a' name'
      = if a' = a ∧ name' = name ∧ a.index < s.scopes.size then some ⟨s.slots.fresh, false⟩
        else s.binding? a' name' :=
  binding?_bind (s.newSlot v) a a' name name' _

theorem binding?_share (a a' : Address .scope) (name name' : String) (slot : Address .slot) :
    (s.share a name slot).binding? a' name'
      = if a' = a ∧ name' = name ∧ a.index < s.scopes.size then some ⟨slot, true⟩
        else s.binding? a' name' :=
  binding?_bind s a a' name name' _

/-- A scope that is not there binds nothing. -/
theorem lt_of_binding? {s : Store} {a : Address .scope} {name : String} {b : Binding}
    (h : s.binding? a name = some b) : a.index < s.scopes.size := by
  unfold binding? scope at h
  cases hg : s.scopes.get? a with
  | none => rw [hg] at h; cases h
  | some c => exact Heap.index_lt_of_get?_eq_some hg

/-! ### Sizes -/

@[simp] theorem size_slots_newSlot (v : Value) :
    (s.newSlot v).slots.size = s.slots.size + 1 := by
  simp [newSlot]

@[simp] theorem size_slots_create (a : Address .scope) (name : String) (v : Value) :
    (s.create a name v).slots.size = s.slots.size + 1 := by
  simp [create, bind]

@[simp] theorem size_slots_writeSlot (a : Address .slot) (v : Value) :
    (s.writeSlot a v).slots.size = s.slots.size := by
  simp [writeSlot]

@[simp] theorem size_scopes_newScope (c : Scope) :
    (s.newScope c).scopes.size = s.scopes.size + 1 := by
  simp [newScope]

@[simp] theorem size_scopes_bind (a : Address .scope) (name : String) (b : Binding) :
    (s.bind a name b).scopes.size = s.scopes.size := by
  simp [bind]

@[simp] theorem size_scopes_create (a : Address .scope) (name : String) (v : Value) :
    (s.create a name v).scopes.size = s.scopes.size :=
  size_scopes_bind _ a name _

@[simp] theorem size_scopes_share (a : Address .scope) (name : String) (slot : Address .slot) :
    (s.share a name slot).scopes.size = s.scopes.size :=
  size_scopes_bind s a name _

/-! ### Names -/

theorem lookup_eq_some {s : Store} {e : Environment} {name : String} {b : Binding}
    (h : s.lookup e name = some b) : ∃ a ∈ e.scopes, s.binding? a name = some b :=
  List.exists_of_findSome?_eq_some h

theorem lookup_eq_none {s : Store} {e : Environment} {name : String} :
    s.lookup e name = none ↔ ∀ a ∈ e.scopes, s.binding? a name = none :=
  List.findSome?_eq_none_iff

/-- The scope in which a name is found. -/
def home? (e : Environment) (name : String) : Option (Address .scope) :=
  e.scopes.find? fun a => (s.binding? a name).isSome

section

variable {s} {e : Environment} {name : String} {a : Address .scope}

theorem mem_of_home? (h : s.home? e name = some a) : a ∈ e.scopes :=
  List.mem_of_find?_eq_some h

theorem isSome_binding?_of_home? (h : s.home? e name = some a) : (s.binding? a name).isSome :=
  List.find?_some (p := fun a => (s.binding? a name).isSome) h

theorem lookup_eq_none_of_home? (h : s.home? e name = none) : s.lookup e name = none :=
  lookup_eq_none.2 fun a ha => by simpa using List.find?_eq_none.1 h a ha

/-- A name means what the scope binds it to in which it is found. -/
theorem lookup_eq_of_home? (h : s.home? e name = some a) :
    s.lookup e name = s.binding? a name := by
  unfold home? at h
  unfold lookup
  generalize e.scopes = scopes at h ⊢
  induction scopes with
  | nil => cases h
  | cons x l ih =>
      rw [List.find?_cons] at h
      rw [List.findSome?_cons]
      cases hb : s.binding? x name with
      | none =>
          rw [hb] at h
          exact ih h
      | some b =>
          rw [hb] at h
          cases h
          exact hb.symm

/-- What a name means is what the scope in which it is found binds it to. -/
theorem home?_of_lookup {b : Binding} (h : s.lookup e name = some b) :
    ∃ a, s.home? e name = some a ∧ s.binding? a name = some b := by
  cases hh : s.home? e name with
  | some a => exact ⟨a, rfl, (lookup_eq_of_home? hh).symm.trans h⟩
  | none => exact nomatch h.symm.trans (lookup_eq_none_of_home? hh)

theorem assign_of_home? (v : Value) (h : s.home? e name = some a) :
    s.assign e name v = s.update a name v := by
  rw [home?] at h
  rw [assign, h]

theorem assign_of_home?_eq_none (v : Value) (h : s.home? e name = none) :
    s.assign e name v = s.create e.innermost name v := by
  rw [home?] at h
  rw [assign, h]

theorem lookup_congr {s' : Store} {name' : String}
    (h : ∀ a ∈ e.scopes, s'.binding? a name' = s.binding? a name) :
    s'.lookup e name' = s.lookup e name := by
  unfold lookup
  generalize e.scopes = scopes at h
  induction scopes with
  | nil => rfl
  | cons x l ih =>
      rw [List.findSome?_cons, List.findSome?_cons, h x List.mem_cons_self,
        ih fun a ha => h a (List.mem_cons_of_mem _ ha)]

/-- The innermost scope hides the others. -/
theorem lookup_of_innermost {b : Binding} (h : s.binding? e.innermost name = some b) :
    s.lookup e name = some b := by
  rw [lookup, Environment.scopes, List.findSome?_cons, h]

/-- **A name is found where it was found**, if the same scopes bind it. -/
theorem home?_congr {s' : Store} {name' : String}
    (h : ∀ a ∈ e.scopes, (s'.binding? a name').isSome = (s.binding? a name).isSome) :
    s'.home? e name' = s.home? e name := by
  unfold home?
  generalize e.scopes = scopes at h
  induction scopes with
  | nil => rfl
  | cons x l ih =>
      rw [List.find?_cons, List.find?_cons, h x List.mem_cons_self,
        ih fun a ha => h a (List.mem_cons_of_mem _ ha)]

end

/-- **What an assignment does.**  A name that is found as a reference has its slot written, a name
that is found as owned gets a new slot where it is found, and a name that is found nowhere is
created in the innermost scope. -/
theorem assign_cases (e : Environment) (name : String) (v : Value) :
    (∃ b, s.lookup e name = some b ∧ b.byRef = true ∧
      s.assign e name v = s.writeSlot b.slot v) ∨
    (∃ b a, s.home? e name = some a ∧ s.binding? a name = some b ∧ b.byRef = false ∧
      s.assign e name v = s.create a name v) ∨
    s.lookup e name = none ∧ s.assign e name v = s.create e.innermost name v := by
  cases hl : s.lookup e name with
  | none =>
      cases hh : s.home? e name with
      | none => exact .inr (.inr ⟨rfl, assign_of_home?_eq_none v hh⟩)
      | some a =>
          have hsome := isSome_binding?_of_home? hh
          rw [← lookup_eq_of_home? hh, hl] at hsome
          cases hsome
  | some b =>
      obtain ⟨a, hh, hb⟩ := home?_of_lookup hl
      rw [assign_of_home? v hh]
      obtain ⟨slot, byRef⟩ := b
      cases byRef with
      | true => exact .inl ⟨_, rfl, rfl, by simp [update, hb]⟩
      | false => exact .inr (.inl ⟨_, a, hh, hb, rfl, by simp [update, hb]⟩)

/-! ### Small changes -/

/-- A change that writes `v` at one place at most, rebinds names in the scopes `l` alone, and adds
cells. -/
structure Alters (l : List (Address .scope)) (v : Value) (s s' : Store) : Prop where
  slots_le : s.slots.size ≤ s'.slots.size
  scopes_le : s.scopes.size ≤ s'.scopes.size
  content : ∃ p, ∀ q, s'.content? q = s.content? q ∨ q = p ∧ s'.content? q = some v
  scope : ∀ a, a ∉ l → s'.scope a = s.scope a
  binding : ∀ a name b, s'.binding? a name = some b →
    s.binding? a name = some b ∨ b.slot.index < s'.slots.size

variable {s}

theorem Alters.mono {l l' : List (Address .scope)} {v : Value} {s' : Store}
    (h : Alters l v s s') (hl : l ⊆ l') : Alters l' v s s' :=
  ⟨h.slots_le, h.scopes_le, h.content, fun a ha => h.scope a fun hc => ha (hl hc), h.binding⟩

/-- A change that is seen in no scope and at no place. -/
theorem Alters.of_eq {s' : Store} (v : Value) (hs : s'.slots.size = s.slots.size)
    (hc : s.scopes.size ≤ s'.scopes.size) (h : ∀ p, s'.content? p = s.content? p)
    (h' : ∀ a, s'.scope a = s.scope a) : Alters [] v s s' :=
  ⟨Nat.le_of_eq hs.symm, hc, ⟨.slot default, fun q => .inl (h q)⟩, fun a _ => h' a,
    fun a name b hb => .inl (by rwa [binding?, h'] at hb)⟩

variable (s)

theorem alters_newScope (v : Value) : Alters [] v s (s.newScope ∅) :=
  .of_eq v rfl (by simp) (by simp) (by simp)

theorem alters_newObject (v : Value) : Alters [] v s s.newObject :=
  .of_eq v rfl (Nat.le_refl _) (by simp) (by simp)

theorem alters_setProto (v : Value) (a : Address .object) (o : Option (Address .object)) :
    Alters [] v s (s.setProto a o) :=
  .of_eq v rfl (Nat.le_refl _) (by simp) (by simp)

theorem alters_setField (a : Address .object) (name : String) (v : Value) :
    Alters [] v s (s.setField a name v) where
  slots_le := Nat.le_refl _
  scopes_le := Nat.le_refl _
  content := by
    refine ⟨.field a name, fun q => ?_⟩
    rw [content?_setField]
    split
    · next h => exact .inr ⟨h.1, rfl⟩
    · exact .inl rfl
  scope _ _ := rfl
  binding _ _ _ h := .inl h

theorem alters_writeSlot (a : Address .slot) (v : Value) : Alters [] v s (s.writeSlot a v) where
  slots_le := by simp
  scopes_le := Nat.le_refl _
  content := by
    refine ⟨.slot a, fun q => ?_⟩
    rw [content?_writeSlot]
    split
    · next h => exact .inr ⟨h.1, rfl⟩
    · exact .inl rfl
  scope _ _ := rfl
  binding _ _ _ h := .inl h

theorem alters_create (a : Address .scope) (name : String) (v : Value) :
    Alters [a] v s (s.create a name v) where
  slots_le := by simp
  scopes_le := by simp
  content := by
    refine ⟨.slot s.slots.fresh, fun q => ?_⟩
    rw [content?_create]
    split
    · next h => exact .inr ⟨h, rfl⟩
    · exact .inl rfl
  scope a' h := scope_create_of_ne s (by simpa using h) name v
  binding a' name' b h := by
    rw [binding?_create] at h
    split at h
    · cases h
      exact .inr (by rw [size_slots_create]; exact Nat.lt_succ_self _)
    · exact .inl h

variable {s} in
theorem alters_share (a : Address .scope) (name : String) {slot : Address .slot} (v : Value)
    (hs : slot.index < s.slots.size) : Alters [a] v s (s.share a name slot) where
  slots_le := Nat.le_refl _
  scopes_le := by simp
  content := ⟨.slot default, fun q => .inl (by simp)⟩
  scope a' h := scope_bind_of_ne s (by simpa using h) name _
  binding a' name' b h := by
    rw [binding?_share] at h
    split at h
    · cases h
      exact .inr hs
    · exact .inl h

/-- **An assignment is a small change of the scopes of its environment.** -/
theorem alters_assign (e : Environment) (name : String) (v : Value) :
    Alters e.scopes v s (s.assign e name v) := by
  obtain ⟨b, -, -, h⟩ | ⟨b, a, ha, -, -, h⟩ | ⟨-, h⟩ := s.assign_cases e name v
  · rw [h]
    exact (alters_writeSlot s b.slot v).mono (List.nil_subset _)
  · rw [h]
    exact (alters_create s a name v).mono (by simpa using mem_of_home? ha)
  · rw [h]
    exact (alters_create s e.innermost name v).mono (by simp [Environment.scopes])

end Store
end ProtoScript
