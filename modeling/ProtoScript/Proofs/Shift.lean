import ProtoScript.Proofs.Lockstep
/-!
# Numbers moved by a constant

A machine that ran programs before goes on counting closures where it stopped, so the
closures of the next program have numbers that are greater by a constant than those
on a new machine.  `shift` moves the numbers in a value, in an object and in a store
by such a constant, and leaves everything else where it is: the cells, their
addresses and the names are the same.

No operation of the store looks at a number.  Each of them does to a store that was
shifted what it does to the store, shifted; a copy keeps the number, whatever it is.
-/

namespace ProtoScript

/-! ### Maps and heaps -/

namespace FiniteMap

variable {κ α β : Type}

/-- The map with a function applied to all values. -/
def map (f : α → β) (m : FiniteMap κ α) : FiniteMap κ β where
  entries := m.entries.map (Prod.map id f)
  nodup_keys := by
    have hkeys : (m.entries.map (Prod.map id f)).map Prod.fst = m.entries.map Prod.fst := by
      rw [List.map_map]
      exact List.map_congr_left fun _ _ => rfl
    rw [hkeys]
    exact m.nodup_keys

theorem eq_of_entries {m m' : FiniteMap κ α} (h : m.entries = m'.entries) : m = m' := by
  cases m
  cases m'
  cases h
  rfl

/-- Values are replaced alike from two states that correspond. -/
theorem transform_map {σ : Type} {f : α → σ → Option (β × σ)} {φ : σ → σ}
    (h : ∀ a s, f a (φ s) = (f a s).map (Prod.map id φ)) (m : FiniteMap κ α) (s : σ) :
    m.transform f (φ s) = (m.transform f s).map (Prod.map id φ) := by
  have hentries : ∀ (l : List (κ × α)) (s : σ),
      transformEntries f l (φ s) = (transformEntries f l s).map (Prod.map id φ) := by
    intro l
    induction l with
    | nil => exact fun _ => rfl
    | cons e l ih =>
        intro s
        rw [transformEntries, transformEntries, ih]
        cases transformEntries f l s with
        | none => rfl
        | some r =>
            show (f e.2 (φ r.2)).map _ = ((f e.2 r.2).map _).map _
            rw [h]
            cases f e.2 r.2 <;> rfl
  -- A map carries a proof about its entries, so the two maps are compared by their entries.
  have hview := map_transform f m (φ s)
  rw [hentries, ← map_transform, Option.map_map] at hview
  cases hs : m.transform f s with
  | none =>
      rw [hs, Option.map_none, Option.map_eq_none_iff] at hview
      exact hview
  | some r =>
      rw [hs, Option.map_some, Option.map_eq_some_iff] at hview
      obtain ⟨r', hr', heq⟩ := hview
      obtain ⟨hmap, hstate⟩ := Prod.mk.inj heq
      rw [hr']
      exact congrArg some (Prod.ext (eq_of_entries hmap) hstate)

variable [DecidableEq κ]

@[simp] theorem get?_map (f : α → β) (m : FiniteMap κ α) (k : κ) :
    (m.map f).get? k = (m.get? k).map f := by
  rw [get?, get?]
  show (m.entries.map (Prod.map id f)).lookup k = (m.entries.lookup k).map f
  induction m.entries with
  | nil => rfl
  | cons e l ih =>
      rw [List.map_cons, List.lookup_cons, List.lookup_cons, ih, Prod.map_fst, Prod.map_snd, id]
      cases k == e.1 <;> rfl

theorem map_insert (f : α → β) (m : FiniteMap κ α) (k : κ) (a : α) :
    (m.insert k a).map f = (m.map f).insert k (f a) := by
  refine eq_of_entries ?_
  simp only [map, insert, List.map_cons, List.filter_map]
  rfl

end FiniteMap

namespace Heap

variable {r : Region} {α β : Type}

/-- The heap with a function applied to the contents of all cells. -/
def map (f : α → β) (h : Heap r α) : Heap r β := ⟨h.cells.map f⟩

@[simp] theorem size_map (f : α → β) (h : Heap r α) : (h.map f).size = h.size :=
  Array.size_map ..

@[simp] theorem fresh_map (f : α → β) (h : Heap r α) : (h.map f).fresh = h.fresh :=
  congrArg Address.mk (h.size_map f)

@[simp] theorem get?_map (f : α → β) (h : Heap r α) (p : Address r) :
    (h.map f).get? p = (h.get? p).map f :=
  Array.getElem?_map ..

theorem map_push (f : α → β) (h : Heap r α) (a : α) :
    (h.push a).map f = (h.map f).push (f a) :=
  congrArg mk (Array.map_push ..)

theorem map_set (f : α → β) (h : Heap r α) (p : Address r) (a : α) :
    (h.set p a).map f = (h.map f).set p (f a) :=
  congrArg mk (Array.map_setIfInBounds ..)

end Heap

/-! ### Values and objects -/

/-- The closure with another number. -/
def Closure.shift (n : Nat) (c : Closure) : Closure := { c with id := n + c.id }

/-- The value with another number if it is a closure. -/
def Value.shift (n : Nat) : Value → Value
  | .closure c => .closure (c.shift n)
  | v => v

namespace Value

variable (n : Nat)

@[simp] theorem printed_shift (v : Value) : (v.shift n).printed = v.printed := by
  cases v <;> rfl

/-- Two numbers that are moved alike are equal if they were. -/
@[simp] theorem same_shift (v w : Value) : (v.shift n).same (w.shift n) = v.same w := by
  cases v <;> cases w <;> try rfl
  case closure.closure c d => simp [shift, same, Closure.shift]

theorem shift_of_literal {v : Value} (h : v.Literal) : v.shift n = v := by
  cases v with
  | closure => cases h
  | _ => rfl

end Value

/-- The object with other numbers in its fields. -/
def Object.shift (n : Nat) (o : Object) : Object :=
  { o with fields := o.fields.map (Value.shift n) }

/-! ### Stores -/

/-- The store with other numbers in its slots and objects. -/
def Store.shift (n : Nat) (s : Store) : Store where
  slots := s.slots.map (Value.shift n)
  scopes := s.scopes
  objects := s.objects.map (Object.shift n)

namespace Store

variable (n : Nat) (s : Store)

/-! ### Reading -/

@[simp] theorem value_shift (a : Address .slot) : (s.shift n).value a = (s.value a).shift n := by
  rw [value, value, shift, Heap.get?_map]
  cases s.slots.get? a <;> rfl

@[simp] theorem object_shift (a : Address .object) :
    (s.shift n).object a = (s.object a).shift n := by
  rw [object, object, shift, Heap.get?_map]
  cases s.objects.get? a <;> rfl

@[simp] theorem scope_shift (a : Address .scope) : (s.shift n).scope a = s.scope a := rfl

@[simp] theorem binding?_shift (a : Address .scope) (name : String) :
    (s.shift n).binding? a name = s.binding? a name := rfl

@[simp] theorem lookup_shift (e : Environment) (name : String) :
    (s.shift n).lookup e name = s.lookup e name := rfl

@[simp] theorem read_shift (e : Environment) (name : String) :
    (s.shift n).read e name = (s.read e name).map (Value.shift n) := by
  rw [read, read, lookup_shift]
  cases s.lookup e name with
  | none => rfl
  | some b => exact congrArg some (s.value_shift n b.slot)

@[simp] theorem chain_shift (a : Address .object) : (s.shift n).chain a = s.chain a := by
  have hupTo : ∀ k a, (s.shift n).chainUpTo k a = s.chainUpTo k a := by
    intro k
    induction k with
    | zero => exact fun _ => rfl
    | succ k ih =>
        intro a
        have hproto : ((s.shift n).object a).proto = (s.object a).proto := by
          rw [object_shift, Object.shift]
        rw [chainUpTo, chainUpTo, hproto]
        cases (s.object a).proto with
        | none => rfl
        | some p => exact congrArg _ (ih p)
  rw [chain, chain, hupTo]
  exact congrArg (s.chainUpTo · a) (Heap.size_map _ _)

@[simp] theorem member?_shift (a : Address .object) (name : String) :
    (s.shift n).member? a name = (s.member? a name).map (Value.shift n) := by
  rw [member?, member?, chain_shift]
  induction s.chain a with
  | nil => rfl
  | cons o l ih =>
      have hfield : ((s.shift n).object o).fields.get? name
          = ((s.object o).fields.get? name).map (Value.shift n) := by
        rw [object_shift]
        exact FiniteMap.get?_map _ _ _
      rw [List.findSome?_cons, List.findSome?_cons, hfield, ih]
      cases (s.object o).fields.get? name <;> rfl

/-! ### Writing -/

theorem shift_newScope (c : Scope) : (s.newScope c).shift n = (s.shift n).newScope c := rfl

theorem shift_newSlot (v : Value) : (s.newSlot v).shift n = (s.shift n).newSlot (v.shift n) := by
  rw [newSlot, newSlot, shift, shift, Heap.map_push]

theorem shift_writeSlot (a : Address .slot) (v : Value) :
    (s.writeSlot a v).shift n = (s.shift n).writeSlot a (v.shift n) := by
  rw [writeSlot, writeSlot, shift, shift, Heap.map_set]

theorem shift_share (a : Address .scope) (name : String) (slot : Address .slot) :
    (s.share a name slot).shift n = (s.shift n).share a name slot := rfl

theorem shift_create (a : Address .scope) (name : String) (v : Value) :
    (s.create a name v).shift n = (s.shift n).create a name (v.shift n) := by
  have hfresh : (s.shift n).slots.fresh = s.slots.fresh := Heap.fresh_map _ _
  rw [create, create, hfresh, ← shift_newSlot]
  rfl

theorem shift_update (a : Address .scope) (name : String) (v : Value) :
    (s.update a name v).shift n = (s.shift n).update a name (v.shift n) := by
  rw [update, update, binding?_shift]
  split
  · exact s.shift_writeSlot n _ v
  · exact s.shift_create n a name v
  · rfl

theorem shift_assign (e : Environment) (name : String) (v : Value) :
    (s.assign e name v).shift n = (s.shift n).assign e name (v.shift n) := by
  rw [assign, assign]
  simp only [binding?_shift]
  split
  · exact s.shift_update n _ name v
  · exact s.shift_create n _ name v

theorem shift_newObject : s.newObject.shift n = (s.shift n).newObject := by
  rw [newObject, newObject, shift, shift, Heap.map_push]
  rfl

theorem shift_setField (a : Address .object) (name : String) (v : Value) :
    (s.setField a name v).shift n = (s.shift n).setField a name (v.shift n) := by
  rw [setField, setField, object_shift, shift, shift, Heap.map_set]
  simp only [Object.shift, FiniteMap.map_insert]

theorem shift_setProto (a : Address .object) (p : Option (Address .object)) :
    (s.setProto a p).shift n = (s.shift n).setProto a p := by
  rw [setProto, setProto, object_shift, shift, shift, Heap.map_set]
  rfl

/-! ### Copies -/

/-- A way to copy that does not look at numbers. -/
def CopiesShifted (n : Nat) (copy : Store → Scope → Option (Scope × Store)) : Prop :=
  ∀ s c, copy (s.shift n) c = (copy s c).map (Prod.map id (shift n))

section

variable {n} {copy : Store → Scope → Option (Scope × Store)}

theorem CopiesShifted.copyWith (h : CopiesShifted n copy) (v : Value) :
    Store.copyWith copy (s.shift n) (v.shift n)
      = (Store.copyWith copy s v).map (Prod.map (Value.shift n) (shift n)) := by
  cases v with
  | closure c =>
      rw [Value.shift, Store.copyWith, Store.copyWith]
      by_cases hr : c.byRef = true
      · rw [if_pos hr, if_pos (show (c.shift n).byRef = true from hr)]
        rfl
      · rw [if_neg hr, if_neg (show ¬(c.shift n).byRef = true from hr), scope_shift, h]
        show Option.bind ((copy s (s.scope c.captured)).map _) _ = _
        cases copy s (s.scope c.captured) <;> rfl
  | _ => rfl

theorem CopiesShifted.copyBinding (h : CopiesShifted n copy) (b : Binding) :
    Store.copyBinding copy b (s.shift n)
      = (Store.copyBinding copy b s).map (Prod.map id (shift n)) := by
  rw [Store.copyBinding, Store.copyBinding]
  split
  · rfl
  · rw [value_shift, h.copyWith]
    show Option.bind ((Store.copyWith copy s (s.value b.slot)).map _) _ = _
    cases Store.copyWith copy s (s.value b.slot) with
    | none => rfl
    | some r =>
        obtain ⟨v, t⟩ := r
        have hfresh : (t.shift n).slots.fresh = t.slots.fresh := Heap.fresh_map _ _
        show some (_, (t.shift n).newSlot (v.shift n)) = some (_, (t.newSlot v).shift n)
        rw [hfresh, shift_newSlot]
        rfl

end

theorem copyScope_shift (k : Nat) : CopiesShifted n (copyScope k) := by
  induction k with
  | zero => exact fun _ _ => rfl
  | succ k ih => exact fun s c => FiniteMap.transform_map (fun b s => ih.copyBinding s b) c s

theorem capture_shift (c : Scope) :
    (s.shift n).capture c = (s.capture c).map (Prod.map id (shift n)) := by
  have hbound : (s.shift n).copyBound = s.copyBound := rfl
  rw [capture, capture, hbound, copyScope_shift]
  cases s.copyScope s.copyBound c <;> rfl

theorem flatten_shift (l : List Scope) :
    (s.shift n).flatten l = (s.flatten l).map (Prod.map id (shift n)) := by
  induction l with
  | nil => rfl
  | cons scope l ih =>
      rw [flatten, flatten, ih]
      cases s.flatten l with
      | none => rfl
      | some r =>
          obtain ⟨flat, t⟩ := r
          show ((t.shift n).copyScope t.copyBound scope).bind _
            = Option.map _ ((t.copyScope t.copyBound scope).bind _)
          rw [copyScope_shift]
          cases t.copyScope t.copyBound scope <;> rfl

theorem snapshot_shift (e : Environment) :
    (s.shift n).snapshot e = (s.snapshot e).map (Prod.map id (shift n)) := by
  have hscopes : e.scopes.map (s.shift n).scope = e.scopes.map s.scope := rfl
  rw [snapshot, snapshot, hscopes, flatten_shift]
  cases s.flatten (e.scopes.map s.scope) <;> rfl

theorem detach_shift (c : Closure) :
    (s.shift n).detach (c.shift n) = (s.detach c).map (Prod.map (Closure.shift n) (shift n)) := by
  rw [detach, detach]
  show ((s.shift n).capture (s.scope c.captured)).map _ = _
  rw [capture_shift]
  cases s.capture (s.scope c.captured) <;> rfl

theorem copy_shift (v : Value) :
    (s.shift n).copy (v.shift n) = (s.copy v).map (Prod.map (Value.shift n) (shift n)) := by
  cases v with
  | closure c =>
      rw [Value.shift, copy, copy]
      by_cases hr : c.byRef = true
      · rw [if_pos hr, if_pos (show (c.shift n).byRef = true from hr)]
        rfl
      · rw [if_neg hr, if_neg (show ¬(c.shift n).byRef = true from hr), detach_shift]
        cases s.detach c <;> rfl
  | _ => rfl

theorem release_shift (v : Value) :
    (s.shift n).release (v.shift n) = (s.release v).map (Prod.map (Value.shift n) (shift n)) := by
  cases v with
  | closure c =>
      rw [Value.shift, release, release, detach_shift]
      cases s.detach c <;> rfl
  | _ => rfl

end Store
end ProtoScript
