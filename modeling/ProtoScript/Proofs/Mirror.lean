import Mathlib.Data.Option.Basic
import ProtoScript.Machine
import ProtoScript.Proofs.Cells
import ProtoScript.Proofs.Renaming
/-!
# Stores that mirror each other

Two programs that differ in the names of variables have two runs.  The names in a
scope are those of the routine in whose text the scope was filled: a routine of the
program, the same one for the scopes of its lambdas and for all that they capture.
It is the origin of the scope, and a naming says for each origin what the second run
calls a variable of the first.

One store mirrors another if the cells are the same, at the same addresses, but for
the names in each scope and in the bodies of routines and lambdas.  Whatever is done
to both stores, with names that correspond, keeps this; a new scope gets the origin
of the activation that made it, and a copy the origin of what is copied.
-/

namespace ProtoScript

/-- The routine of the program in whose text a name stands, by its name and arity. -/
abbrev Origin := String × Nat

/-- What the second run calls a variable of the first, by the origin of the name. -/
abbrev Naming := Origin → String → String

/-- The origins of the scopes. -/
abbrev Origins := Heap .scope Origin

/-- A routine of the program is the origin of its own names. -/
def Routine.origin (r : Routine) : Origin := (r.name, r.arity)

/-- The routine of the program as the second program has it. -/
def Naming.routine (ν : Naming) (r : Routine) : Routine := r.rename (ν r.origin)

/-- Names stay apart, and the names with a meaning of their own keep it. -/
structure Naming.Faithful (ν : Naming) : Prop where
  injective : ∀ o, Function.Injective (ν o)
  this : ∀ o, ν o "this" = "this"
  builtin : ∀ o (b : Builtin), ν o b.name = b.name

theorem Naming.Faithful.routine_inj {ν : Naming} (hν : ν.Faithful) {r s : Routine}
    (h : ν.routine r = ν.routine s) : r = s := by
  have ho : r.origin = s.origin := by
    have hname := congrArg Routine.name h
    have harity := congrArg Routine.arity h
    simp only [Naming.routine, Routine.name_rename, Routine.arity_rename] at hname harity
    rw [Routine.origin, Routine.origin, hname, harity]
  rw [Naming.routine, Naming.routine, ho] at h
  exact Routine.rename_injective (hν.injective _) h

/-- Further scopes have been made. -/
def Origins.Grows (κ κ' : Origins) : Prop := ∀ a o, κ.get? a = some o → κ'.get? a = some o

namespace Origins.Grows

variable {κ κ₁ κ₂ : Origins}

theorem refl (κ : Origins) : κ.Grows κ := fun _ _ h => h

theorem trans (h : κ.Grows κ₁) (h' : κ₁.Grows κ₂) : κ.Grows κ₂ :=
  fun a o ha => h' a o (h a o ha)

theorem push (κ : Origins) (o : Origin) : κ.Grows (κ.push o) := fun _ _ h => by
  rwa [Heap.get?_push_of_ne _ _ (Heap.ne_fresh_of_lt (Heap.index_lt_of_get?_eq_some h))]

end Origins.Grows

/-! ### Heaps, maps and values -/

namespace Heap

variable {r : Region} {α : Type} {R R' : Address r → α → α → Prop} {d x x' : α} {h h' : Heap r α}

/-- Two heaps with cells that correspond, where a cell that is not there holds `d`. -/
structure Corresponds (R : Address r → α → α → Prop) (d : α) (h h' : Heap r α) : Prop where
  size : h'.size = h.size
  cell : ∀ a, R a ((h.get? a).getD d) ((h'.get? a).getD d)

namespace Corresponds

theorem fresh (H : Corresponds R d h h') : h'.fresh = h.fresh :=
  congrArg Address.mk H.size

theorem mono (H : Corresponds R d h h') (hR : ∀ a x x', R a x x' → R' a x x') :
    Corresponds R' d h h' :=
  ⟨H.size, fun a => hR _ _ _ (H.cell a)⟩

theorem push (H : Corresponds R d h h') (hx : R h.fresh x x') :
    Corresponds R d (h.push x) (h'.push x') where
  size := by rw [size_push, size_push, H.size]
  cell a := by
    rw [get?_push, get?_push, H.fresh]
    split
    · next ha => rw [ha]; exact hx
    · exact H.cell a

theorem set (H : Corresponds R d h h') {a : Address r} (hx : R a x x') :
    Corresponds R d (h.set a x) (h'.set a x') where
  size := by rw [size_set, size_set, H.size]
  cell b := by
    rw [get?_set, get?_set, H.size]
    split
    · next hb => rw [hb.1]; exact hx
    · exact H.cell b

end Corresponds
end Heap

namespace FiniteMap

variable {α : Type} {f : String → String} {m m' : FiniteMap String α}

/-- The second map has the entries of the first under other keys. -/
def Renames (f : String → String) (m m' : FiniteMap String α) : Prop :=
  m'.entries = m.entries.map (Prod.map f id)

namespace Renames

theorem empty (f : String → String) : Renames f (∅ : FiniteMap String α) ∅ := rfl

theorem get? (h : Renames f m m') (hf : Function.Injective f) (k : String) :
    m'.get? (f k) = m.get? k := by
  rw [FiniteMap.get?, FiniteMap.get?, h]
  induction m.entries with
  | nil => rfl
  | cons e l ih =>
      have hk : (f k == f e.1) = (k == e.1) := by
        rw [Bool.eq_iff_iff, beq_iff_eq, beq_iff_eq, hf.eq_iff]
      rw [List.map_cons, List.lookup_cons, List.lookup_cons, ih, Prod.map_fst, Prod.map_snd, hk]
      rfl

theorem insert (h : Renames f m m') (hf : Function.Injective f) (k : String) (a : α) :
    Renames f (m.insert k a) (m'.insert (f k) a) := by
  have hfilter : (m'.entries.filter fun e => decide (e.1 ≠ f k))
      = (m.entries.filter fun e => decide (e.1 ≠ k)).map (Prod.map f id) := by
    rw [h, List.filter_map]
    refine congrArg _ (List.filter_congr fun e _ => ?_)
    simp [hf.eq_iff]
  exact congrArg _ hfilter

theorem foldr_insert (h : Renames f m m') (hf : Function.Injective f) (l : List (String × α)) :
    Renames f (l.foldr (fun e m => m.insert e.1 e.2) m)
      ((l.map (Prod.map f id)).foldr (fun e m => m.insert e.1 e.2) m') := by
  induction l with
  | nil => exact h
  | cons e l ih => exact ih.insert hf e.1 e.2

theorem extend (h : Renames f m m') (hf : Function.Injective f) {c c' : FiniteMap String α}
    (hc : Renames f c c') : Renames f (m.extend c) (m'.extend c') := by
  rw [FiniteMap.extend, FiniteMap.extend, hc]
  exact h.foldr_insert hf c.entries

end Renames
end FiniteMap

variable {ν : Naming} {κ κ' : Origins}

/-- A value of the first run and what stands for it in the second. -/
inductive Value.Mirrors (ν : Naming) (κ : Origins) : Value → Value → Prop where
  /-- An integer. -/
  | int (n : Int64) : Mirrors ν κ (.int n) (.int n)
  /-- A truth value. -/
  | truth (b : Bool) : Mirrors ν κ (.truth b) (.truth b)
  /-- A text. -/
  | text (s : String) : Mirrors ν κ (.text s) (.text s)
  /-- The absent value. -/
  | nil : Mirrors ν κ .nil .nil
  /-- A routine of the program, with the names of the second program. -/
  | function (edition : Nat) (r : Routine) :
      Mirrors ν κ (.function edition r) (.function edition (ν.routine r))
  /-- A closure, with the names that belong to what it captured. -/
  | closure {c : Closure} {o : Origin} (h : κ.get? c.captured = some o) :
      Mirrors ν κ (.closure c) (.closure { c with routine := c.routine.rename (ν o) })
  /-- An object. -/
  | object (a : Address .object) : Mirrors ν κ (.object a) (.object a)

namespace Value.Mirrors

variable {v v' w w' : Value}

theorem mono (h : v.Mirrors ν κ v') (hκ : κ.Grows κ') : v.Mirrors ν κ' v' := by
  cases h with
  | closure hc => exact .closure (hκ _ _ hc)
  | _ => constructor

theorem printed (h : v.Mirrors ν κ v') : v'.printed = v.printed := by
  cases h with
  | function edition r => simp [Value.printed, Naming.routine]
  | _ => rfl

theorem same (hν : ν.Faithful) (hv : v.Mirrors ν κ v') (hw : w.Mirrors ν κ w') :
    v'.same w' = v.same w := by
  cases hv <;> cases hw <;> try rfl
  case function.function e r e' s =>
    have hrs : ν.routine r = ν.routine s ↔ r = s := ⟨hν.routine_inj, congrArg _⟩
    simp only [Value.same, hrs]

theorem of_literal (h : v.Literal) : v.Mirrors ν κ v := by
  cases v with
  | function | closure | object => cases h
  | _ => constructor

end Value.Mirrors

theorem rel_imp {α : Type} {R R' : α → α → Prop} {x x' : Option α} (h : Option.Rel R x x')
    (hR : ∀ {a a'}, R a a' → R' a a') : Option.Rel R' x x' := by
  cases h with
  | some ha => exact .some (hR ha)
  | none => exact .none

/-- An object of the first run and what stands for it in the second. -/
structure Object.Mirrors (ν : Naming) (κ : Origins) (o o' : Object) : Prop where
  field : ∀ name, Option.Rel (Value.Mirrors ν κ) (o.fields.get? name) (o'.fields.get? name)
  proto : o'.proto = o.proto

theorem Object.Mirrors.mono {o o' : Object} (h : o.Mirrors ν κ o') (hκ : κ.Grows κ') :
    o.Mirrors ν κ' o' where
  field name := rel_imp (h.field name) fun hv => hv.mono hκ
  proto := h.proto

/-! ### Stores -/

/-- The store of the first run and that of the second. -/
structure Store.Mirrors (ν : Naming) (κ : Origins) (s s' : Store) : Prop where
  slots : s.slots.Corresponds (fun _ => Value.Mirrors ν κ) .nil s'.slots
  scopes : s.scopes.Corresponds
    (fun a c c' => ∀ o, κ.get? a = some o → FiniteMap.Renames (ν o) c c') ∅ s'.scopes
  objects : s.objects.Corresponds (fun _ => Object.Mirrors ν κ) .empty s'.objects
  origins : κ.size = s.scopes.size

/-- All scopes of an environment have one origin. -/
def Origins.Covers (κ : Origins) (o : Origin) (e : Environment) : Prop :=
  ∀ a ∈ e.scopes, κ.get? a = some o

theorem Origins.Covers.mono {o : Origin} {e : Environment} (h : κ.Covers o e) (hκ : κ.Grows κ') :
    κ'.Covers o e := fun a ha => hκ a o (h a ha)

namespace Store.Mirrors

variable {s s' : Store} {o : Origin} {a : Address .scope} {v v' : Value}

/-! ### Reading -/

theorem value (h : s.Mirrors ν κ s') (a : Address .slot) :
    (s.value a).Mirrors ν κ (s'.value a) := h.slots.cell a

theorem scope (h : s.Mirrors ν κ s') (ha : κ.get? a = some o) :
    FiniteMap.Renames (ν o) (s.scope a) (s'.scope a) := h.scopes.cell a o ha

theorem object (h : s.Mirrors ν κ s') (a : Address .object) :
    (s.object a).Mirrors ν κ (s'.object a) := h.objects.cell a

theorem fresh (h : s.Mirrors ν κ s') : κ.fresh = s.scopes.fresh :=
  congrArg Address.mk h.origins

theorem binding? (h : s.Mirrors ν κ s') (hν : ν.Faithful) (ha : κ.get? a = some o)
    (name : String) : s'.binding? a (ν o name) = s.binding? a name :=
  (h.scope ha).get? (hν.injective o) name

theorem lookup (h : s.Mirrors ν κ s') (hν : ν.Faithful) {e : Environment} (he : κ.Covers o e)
    (name : String) : s'.lookup e (ν o name) = s.lookup e name :=
  lookup_congr fun a ha => h.binding? hν (he a ha) name

theorem read (h : s.Mirrors ν κ s') (hν : ν.Faithful) {e : Environment} (he : κ.Covers o e)
    (name : String) :
    Option.Rel (Value.Mirrors ν κ) (s.read e name) (s'.read e (ν o name)) := by
  rw [Store.read, Store.read, h.lookup hν he]
  cases s.lookup e name with
  | none => exact .none
  | some b => exact .some (h.value b.slot)

theorem chain (h : s.Mirrors ν κ s') (a : Address .object) : s'.chain a = s.chain a := by
  have hupTo : ∀ n a, s'.chainUpTo n a = s.chainUpTo n a := by
    intro n
    induction n with
    | zero => exact fun _ => rfl
    | succ n ih =>
        intro a
        rw [chainUpTo, chainUpTo, (h.object a).proto]
        cases (s.object a).proto with
        | none => rfl
        | some p => exact congrArg _ (ih p)
  rw [Store.chain, Store.chain, h.objects.size, hupTo]

theorem member? (h : s.Mirrors ν κ s') (a : Address .object) (name : String) :
    Option.Rel (Value.Mirrors ν κ) (s.member? a name) (s'.member? a name) := by
  rw [Store.member?, Store.member?, h.chain]
  induction s.chain a with
  | nil => exact .none
  | cons o l ih =>
      rw [List.findSome?_cons, List.findSome?_cons]
      have hfield := (h.object o).field name
      revert hfield
      cases (s.object o).fields.get? name <;> cases (s'.object o).fields.get? name
      · exact fun _ => ih
      · exact nofun
      · exact nofun
      · exact id

/-! ### Writing -/

theorem newSlot (h : s.Mirrors ν κ s') (hv : v.Mirrors ν κ v') :
    (s.newSlot v).Mirrors ν κ (s'.newSlot v') :=
  { h with slots := h.slots.push hv }

theorem writeSlot (h : s.Mirrors ν κ s') (a : Address .slot) (hv : v.Mirrors ν κ v') :
    (s.writeSlot a v).Mirrors ν κ (s'.writeSlot a v') :=
  { h with slots := h.slots.set hv }

/-- A new scope has an origin. -/
theorem newScope (h : s.Mirrors ν κ s') (o : Origin) {c c' : Scope}
    (hc : FiniteMap.Renames (ν o) c c') :
    (s.newScope c).Mirrors ν (κ.push o) (s'.newScope c') where
  slots := h.slots.mono fun _ _ _ hv => hv.mono (Origins.Grows.push κ o)
  scopes := by
    refine ⟨by simp [Store.newScope, h.scopes.size], fun a o' ha => ?_⟩
    rw [Heap.get?_push, h.fresh] at ha
    rw [Store.newScope, Store.newScope, Heap.get?_push, Heap.get?_push, h.scopes.fresh]
    split at ha
    · next hfresh =>
        cases ha
        rwa [if_pos hfresh, if_pos hfresh]
    · next hfresh =>
        rw [if_neg hfresh, if_neg hfresh]
        exact h.scope ha
  objects := h.objects.mono fun _ _ _ ho => ho.mono (Origins.Grows.push κ o)
  origins := by rw [size_scopes_newScope, Heap.size_push, h.origins]

theorem bind (h : s.Mirrors ν κ s') (hν : ν.Faithful) (ha : κ.get? a = some o) (name : String)
    (b : Binding) : (s.bind a name b).Mirrors ν κ (s'.bind a (ν o name) b) := by
  refine { h with scopes := h.scopes.set fun o' ho' => ?_, origins := ?_ }
  · cases ha.symm.trans ho'
    exact (h.scope ha).insert (hν.injective o) name b
  · rw [h.origins, size_scopes_bind]

theorem create (h : s.Mirrors ν κ s') (hν : ν.Faithful) (ha : κ.get? a = some o) (name : String)
    (hv : v.Mirrors ν κ v') : (s.create a name v).Mirrors ν κ (s'.create a (ν o name) v') := by
  rw [Store.create, Store.create, h.slots.fresh]
  exact (h.newSlot hv).bind hν ha name _

theorem share (h : s.Mirrors ν κ s') (hν : ν.Faithful) (ha : κ.get? a = some o) (name : String)
    (slot : Address .slot) : (s.share a name slot).Mirrors ν κ (s'.share a (ν o name) slot) :=
  h.bind hν ha name _

theorem update (h : s.Mirrors ν κ s') (hν : ν.Faithful) (ha : κ.get? a = some o) (name : String)
    (hv : v.Mirrors ν κ v') : (s.update a name v).Mirrors ν κ (s'.update a (ν o name) v') := by
  rw [Store.update, Store.update, h.binding? hν ha]
  split
  · exact h.writeSlot _ hv
  · exact h.create hν ha name hv
  · exact h

theorem assign (h : s.Mirrors ν κ s') (hν : ν.Faithful) {e : Environment} (he : κ.Covers o e)
    (name : String) (hv : v.Mirrors ν κ v') :
    (s.assign e name v).Mirrors ν κ (s'.assign e (ν o name) v') := by
  have hhome : s'.home? e (ν o name) = s.home? e name :=
    home?_congr fun a ha => by rw [h.binding? hν (he a ha)]
  cases hs : s.home? e name with
  | some a =>
      rw [assign_of_home? v hs, assign_of_home? v' (hhome.trans hs)]
      exact h.update hν (he a (mem_of_home? hs)) name hv
  | none =>
      rw [assign_of_home?_eq_none v hs, assign_of_home?_eq_none v' (hhome.trans hs)]
      exact h.create hν (he _ List.mem_cons_self) name hv

theorem newObject (h : s.Mirrors ν κ s') : s.newObject.Mirrors ν κ s'.newObject :=
  { h with objects := h.objects.push ⟨fun _ => .none, rfl⟩ }

theorem setField (h : s.Mirrors ν κ s') (a : Address .object) (name : String)
    (hv : v.Mirrors ν κ v') : (s.setField a name v).Mirrors ν κ (s'.setField a name v') := by
  refine { h with objects := h.objects.set ⟨fun other => ?_, (h.object a).proto⟩ }
  rw [FiniteMap.get?_insert, FiniteMap.get?_insert]
  split
  · exact .some hv
  · exact (h.object a).field other

theorem setProto (h : s.Mirrors ν κ s') (a : Address .object) (p : Option (Address .object)) :
    (s.setProto a p).Mirrors ν κ (s'.setProto a p) :=
  { h with objects := h.objects.set ⟨(h.object a).field, rfl⟩ }

end Store.Mirrors

/-! ### Copies -/

namespace Store

variable {α β : Type} {s s' : Store} {o : Origin}

/-- Two attempts to copy: both fail, or both give results that correspond. -/
def CopiesMirror (ν : Naming) (κ : Origins) (R : Origins → α → α → Prop) :
    Option (α × Store) → Option (α × Store) → Prop :=
  Option.Rel fun r r' => ∃ κ', κ.Grows κ' ∧ R κ' r.1 r'.1 ∧ r.2.Mirrors ν κ' r'.2

section

variable {R : Origins → α → α → Prop} {S : Origins → β → β → Prop}

theorem CopiesMirror.some (hs : s.Mirrors ν κ s') {a a' : α} (ha : R κ a a') :
    CopiesMirror ν κ R (some (a, s)) (some (a', s')) :=
  Option.Rel.some ⟨κ, .refl κ, ha, hs⟩

theorem CopiesMirror.bind {r r' : Option (α × Store)} {f f' : α × Store → Option (β × Store)}
    (h : CopiesMirror ν κ R r r')
    (hf : ∀ κ' a a' s s', κ.Grows κ' → R κ' a a' → s.Mirrors ν κ' s' →
      CopiesMirror ν κ' S (f (a, s)) (f' (a', s'))) :
    CopiesMirror ν κ S (r.bind f) (r'.bind f') := by
  cases h with
  | none => exact .none
  | some hr =>
      obtain ⟨κ₁, h₁, ha, hs⟩ := hr
      refine rel_imp (hf κ₁ _ _ _ _ h₁ ha hs) ?_
      rintro _ _ ⟨κ₂, h₂, hb⟩
      exact ⟨κ₂, h₁.trans h₂, hb⟩

theorem CopiesMirror.map {r r' : Option (α × Store)} {f f' : α × Store → β × Store}
    (h : CopiesMirror ν κ R r r')
    (hf : ∀ κ' a a' s s', κ.Grows κ' → R κ' a a' → s.Mirrors ν κ' s' →
      ∃ κ'', κ'.Grows κ'' ∧ S κ'' (f (a, s)).1 (f' (a', s')).1 ∧
        (f (a, s)).2.Mirrors ν κ'' (f' (a', s')).2) :
    CopiesMirror ν κ S (r.map f) (r'.map f') := by
  rw [Option.map_eq_bind, Option.map_eq_bind]
  exact h.bind fun κ' a a' s s' hκ ha hs => Option.Rel.some (hf κ' a a' s s' hκ ha hs)

end

/-- Bindings under other names are copied alike. -/
theorem transformEntries_mirrors {f : String → String}
    {g : Binding → Store → Option (Binding × Store)}
    (hg : ∀ {κ s s'} b, s.Mirrors ν κ s' →
      CopiesMirror ν κ (fun _ b b' => b' = b) (g b s) (g b s')) :
    ∀ (l : List (String × Binding)) {κ : Origins} {s s' : Store}, s.Mirrors ν κ s' →
      CopiesMirror ν κ (fun _ r r' => r' = r.map (Prod.map f id))
        (FiniteMap.transformEntries g l s)
        (FiniteMap.transformEntries g (l.map (Prod.map f id)) s')
  | [], _, _, _, hs => .some hs rfl
  | (name, b) :: l, κ, s, s', hs => by
      refine (transformEntries_mirrors hg l hs).bind fun κ₁ r r' s₁ s₁' _ hr hs₁ => ?_
      refine (hg b hs₁).map fun κ₂ b b' s₂ s₂' _ hb hs₂ => ⟨κ₂, .refl κ₂, ?_, hs₂⟩
      rw [hr, hb]
      rfl

/-- A way to copy bindings that does not look at their names. -/
def CopiesAlike (ν : Naming) (copy : Store → Scope → Option (Scope × Store)) : Prop :=
  ∀ {κ s s' f c c'}, s.Mirrors ν κ s' → FiniteMap.Renames f c c' →
    CopiesMirror ν κ (fun _ => FiniteMap.Renames f) (copy s c) (copy s' c')

section

variable {copy : Store → Scope → Option (Scope × Store)} {v v' : Value}

theorem copyWith_mirrors (hcopy : CopiesAlike ν copy) (hs : s.Mirrors ν κ s')
    (hv : v.Mirrors ν κ v') :
    CopiesMirror ν κ (Value.Mirrors ν) (copyWith copy s v) (copyWith copy s' v') := by
  cases hv with
  | @closure c o hc =>
      rw [copyWith, copyWith]
      by_cases hr : c.byRef = true
      · rw [if_pos hr, if_pos hr]
        exact .some hs (.closure hc)
      · rw [if_neg hr, if_neg hr]
        refine (hcopy hs (hs.scope hc)).bind fun κ₁ d d' s₁ s₁' _ hd hs₁ => ?_
        refine Option.Rel.some ⟨κ₁.push o, .push κ₁ o, ?_, hs₁.newScope o hd⟩
        rw [hs₁.scopes.fresh]
        exact .closure (by rw [← hs₁.fresh, Heap.get?_push_fresh])
  | _ => exact .some hs (by constructor)

theorem copyBinding_mirrors (hcopy : CopiesAlike ν copy) (b : Binding) (hs : s.Mirrors ν κ s') :
    CopiesMirror ν κ (fun _ b b' => b' = b) (copyBinding copy b s) (copyBinding copy b s') := by
  rw [copyBinding, copyBinding]
  split
  · exact .some hs rfl
  · refine (copyWith_mirrors hcopy hs (hs.value b.slot)).bind fun κ₁ w w' s₁ s₁' _ hw hs₁ => ?_
    exact Option.Rel.some ⟨κ₁, .refl κ₁, by rw [hs₁.slots.fresh], hs₁.newSlot hw⟩

end

theorem copyScope_mirrors (n : Nat) : CopiesAlike ν (copyScope n) := by
  induction n with
  | zero => exact fun _ _ => .none
  | succ n ih =>
      intro κ s s' f c c' hs hc
      have h := transformEntries_mirrors (f := f) (fun b hs => copyBinding_mirrors ih b hs)
        c.entries hs
      rw [← hc, ← FiniteMap.map_transform, ← FiniteMap.map_transform] at h
      rw [copyScope, copyScope]
      revert h
      cases c.transform (copyBinding (copyScope n)) s <;>
        cases c'.transform (copyBinding (copyScope n)) s' <;> intro h
      · exact .none
      · cases h
      · cases h
      · cases h with
        | some h => exact Option.Rel.some h

namespace Mirrors

variable {v v' : Value} {e : Environment}

/-- A scope that is filled with copies has the origin of the names that are copied. -/
theorem capture (hs : s.Mirrors ν κ s') {c c' : Scope} (hc : FiniteMap.Renames (ν o) c c') :
    CopiesMirror ν κ (fun κ' a a' => a' = a ∧ κ'.get? a = some o) (s.capture c)
      (s'.capture c') := by
  have hbound : s'.copyBound = s.copyBound := congrArg (· + 1) hs.scopes.size
  rw [Store.capture, Store.capture, hbound]
  refine (copyScope_mirrors s.copyBound hs hc).map fun κ₁ d d' s₁ s₁' _ hd hs₁ => ?_
  have hfresh : (κ₁.push o).get? s₁.scopes.fresh = some o := by
    rw [← hs₁.fresh, Heap.get?_push_fresh]
  exact ⟨κ₁.push o, .push κ₁ o, ⟨hs₁.scopes.fresh, hfresh⟩, hs₁.newScope o hd⟩

theorem detach (hs : s.Mirrors ν κ s') {c : Closure} (hc : κ.get? c.captured = some o) :
    CopiesMirror ν κ (fun κ' d d' => κ'.get? d.captured = some o ∧
        d' = { d with routine := d.routine.rename (ν o) })
      (s.detach c) (s'.detach { c with routine := c.routine.rename (ν o) }) := by
  rw [Store.detach, Store.detach]
  refine (hs.capture (hs.scope hc)).map fun κ₁ a a' s₁ s₁' _ ha hs₁ => ?_
  obtain ⟨rfl, ha⟩ := ha
  exact ⟨κ₁, .refl κ₁, ⟨ha, rfl⟩, hs₁⟩

theorem copy (hs : s.Mirrors ν κ s') (hv : v.Mirrors ν κ v') :
    CopiesMirror ν κ (Value.Mirrors ν) (s.copy v) (s'.copy v') := by
  cases hv with
  | @closure c o hc =>
      rw [Store.copy, Store.copy]
      by_cases hr : c.byRef = true
      · rw [if_pos hr, if_pos hr]
        exact .some hs (.closure hc)
      · rw [if_neg hr, if_neg hr]
        refine (hs.detach hc).map fun κ₁ d d' s₁ s₁' _ hd hs₁ => ?_
        obtain ⟨hd, rfl⟩ := hd
        exact ⟨κ₁, .refl κ₁, .closure hd, hs₁⟩
  | _ => exact .some hs (by constructor)

theorem release (hs : s.Mirrors ν κ s') (hv : v.Mirrors ν κ v') :
    CopiesMirror ν κ (Value.Mirrors ν) (s.release v) (s'.release v') := by
  cases hv with
  | @closure c o hc =>
      refine (hs.detach hc).map fun κ₁ d d' s₁ s₁' _ hd hs₁ => ?_
      obtain ⟨hd, rfl⟩ := hd
      exact ⟨κ₁, .refl κ₁, .closure hd, hs₁⟩
  | _ => exact .some hs (by constructor)

/-- The copies of some scopes, laid over each other, are renamed as the scopes are. -/
theorem flatten {f : String → String} (hf : Function.Injective f) {l l' : List Scope}
    (hl : List.Forall₂ (FiniteMap.Renames f) l l') (hs : s.Mirrors ν κ s') :
    CopiesMirror ν κ (fun _ => FiniteMap.Renames f) (s.flatten l) (s'.flatten l') := by
  induction hl with
  | nil => exact .some hs (.empty f)
  | cons hc _ ih =>
      refine ih.bind fun κ₁ flat flat' s₁ s₁' _ hflat hs₁ => ?_
      have hbound : s₁'.copyBound = s₁.copyBound := congrArg (· + 1) hs₁.scopes.size
      dsimp only
      rw [hbound]
      refine (copyScope_mirrors s₁.copyBound hs₁ hc).bind fun κ₂ d d' s₂ s₂' _ hd hs₂ => ?_
      exact .some hs₂ (hflat.extend hf hd)

theorem snapshot (hs : s.Mirrors ν κ s') (hν : ν.Faithful) (he : κ.Covers o e) :
    CopiesMirror ν κ (fun κ' a a' => a' = a ∧ κ'.get? a = some o) (s.snapshot e)
      (s'.snapshot e) := by
  have hscopes : List.Forall₂ (FiniteMap.Renames (ν o)) (e.scopes.map s.scope)
      (e.scopes.map s'.scope) :=
    List.forall₂_map_left_iff.2 (List.forall₂_map_right_iff.2
      (List.forall₂_same.2 fun a ha => hs.scope (he a ha)))
  refine (hs.flatten (hν.injective o) hscopes).map fun κ₁ d d' s₁ s₁' _ hd hs₁ => ?_
  have hfresh : (κ₁.push o).get? s₁.scopes.fresh = some o := by
    rw [← hs₁.fresh, Heap.get?_push_fresh]
  exact ⟨κ₁.push o, .push κ₁ o, ⟨hs₁.scopes.fresh, hfresh⟩, hs₁.newScope o hd⟩

end Mirrors
end Store

end ProtoScript
