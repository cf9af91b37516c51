import ProtoScript.Proofs.Assignment
import ProtoScript.Proofs.CopyTermination
import ProtoScript.Proofs.Duplicate
/-!
# Snapshots and environments go separate ways

A snapshot shows what its environment shows (`Store.Photographs`).  What is done to
an environment afterwards (`Environment.Change`) reaches the cells of its scopes
only: the scopes themselves, new slots, and the slots to which a scope refers.  So
scopes and slots are left alone if no scope of the environment is among the ones or
refers to one of the others, and if no change installs such a scope or binds such a
slot (`Reserve.run_intact`).  Of a snapshot these are its scope and the slots that it
owns, of the environment all its scopes and all slots but those to which the
snapshot refers.

There is a snapshot exactly if every way ends that leads from a scope of the
environment to what it captured by value, and on to what this captured, also where
the scope is hidden by others (`Store.isSome_snapshot_iff`).
-/

namespace ProtoScript

open Relation

namespace Store

variable {s₀ s s' : Store} {e : Environment} {a t x : Address .scope} {n : Nat}

/-! ### When there is a snapshot -/

/-- Every way ends that leads from a scope to what it captured by value, and on. -/
def Ends (s : Store) (a : Address .scope) : Prop := Acc (fun t a => s.Holds a t) a

/-- Where every way ends, no way leads back. -/
theorem Ends.not_transGen (h : s.Ends a) : ¬TransGen s.Holds a a := by
  have hacc := Acc.transGen h
  rw [← transGen_swap]
  clear h
  induction hacc with
  | intro a _ ih => exact fun hc => ih a hc hc

/-- Where every way ends, no way is longer than there are scopes. -/
theorem Ends.length_le (hs : s.Closed) {scope : Scope} (ht : s.Embeds scope t) (h : s.Ends t)
    {l : List (Address .scope)} (hl : (t :: l).IsChain s.Holds) :
    (t :: l).length ≤ s.scopes.size := by
  have hends : ∀ {l : List (Address .scope)} {t : Address .scope} {scope : Scope},
      s.Embeds scope t → s.Ends t → (t :: l).IsChain s.Holds →
        (t :: l).IsChain (fun a b => s.Holds a b ∧ s.Ends a) ∧
          ∀ a ∈ t :: l, a.index < s.scopes.size := by
    intro l
    induction l with
    | nil => exact fun ht _ _ =>
        ⟨List.isChain_singleton _, List.forall_mem_singleton.2 (lt_of_embeds hs ht)⟩
    | cons y l ih =>
        intro t scope ht h hl
        obtain ⟨hy, hl⟩ := List.isChain_cons_cons.1 hl
        obtain ⟨hchain, hlt⟩ := ih hy (h.inv hy) hl
        exact ⟨List.isChain_cons_cons.2 ⟨⟨hy, h⟩, hchain⟩,
          List.forall_mem_cons.2 ⟨lt_of_embeds hs ht, hlt⟩⟩
  obtain ⟨hchain, hlt⟩ := hends ht h hl
  refine Address.length_le_of_isChain (fun a hc => ?_) hchain hlt
  obtain ⟨b, hab, -⟩ := TransGen.head'_iff.1 hc
  exact hab.2.not_transGen (TransGen.mono (fun _ _ h => h.1) _ _ hc)

/-- Each entry that has been copied was copied after others. -/
theorem isSome_copyBinding_of_transformEntries {copy : Store → Scope → Option (Scope × Store)}
    (hcopy : CopiesScopes copy) (hs : s₀.Closed) :
    ∀ {l r : List (String × Binding)} {s s' : Store}, s₀.Enlarges s →
      (∀ name b, (name, b) ∈ l → b.slot.index < s₀.slots.size) →
        FiniteMap.transformEntries (copyBinding copy) l s = some (r, s') →
          ∀ name b, (name, b) ∈ l → ∃ s₁, s₀.Enlarges s₁ ∧ (copyBinding copy b s₁).isSome
  | [], _, _, _, _, _, _ => fun _ _ hb => absurd hb List.not_mem_nil
  | (key, b) :: l, r, s, s', he, hl, h => by
      obtain ⟨⟨r₁, s₁⟩, h₁, h⟩ := Option.bind_eq_some_iff.1 h
      obtain ⟨⟨b', s₂⟩, h₂, -⟩ := Option.map_eq_some_iff.1 h
      have hl' : ∀ name b, (name, b) ∈ l → b.slot.index < s₀.slots.size :=
        fun name b hb => hl name b (List.mem_cons_of_mem _ hb)
      have he₁ := he.trans (transformEntries_spec hcopy (he.closed hs)
        (fun name b hb => Nat.lt_of_lt_of_le (hl' name b hb) he.slots_le) h₁).1
      intro name c hc
      obtain hc | hc := List.mem_cons.1 hc
      · cases hc
        exact ⟨s₁, he₁, by rw [h₂]; rfl⟩
      · exact isSome_copyBinding_of_transformEntries hcopy hs he hl' h₁ name c hc

/-- **A scope that has been copied holds no chain of scopes that is longer than the bound.** -/
theorem length_lt_of_copyScope (hs : s₀.Closed) : ∀ (n : Nat) (s : Store) (scope : Scope),
    s₀.Enlarges s → s₀.Fits scope → (copyScope n s scope).isSome → 0 < n ∧
      ∀ t l, s₀.Embeds scope t → (t :: l).IsChain s₀.Holds → (t :: l).length < n
  | 0, _, _, _, _, h => by cases h
  | n + 1, s, scope, he, hf, h => by
      refine ⟨Nat.succ_pos n, fun t l ht hl => ?_⟩
      obtain ⟨⟨copied, s'⟩, hc⟩ := Option.isSome_iff_exists.1 h
      -- A chain starts with a closure in some binding; what it captured was copied within `n`.
      obtain ⟨name, b, c, hb, hr, hv, hcr, rfl⟩ := ht
      have hentries : ∀ name b, (name, b) ∈ scope.entries → b.slot.index < s₀.slots.size :=
        fun name b hb => hf name b ((scope.mem_entries_iff name b).1 hb)
      obtain ⟨s₁, he₁, hsome⟩ := isSome_copyBinding_of_transformEntries (copyScope_spec n) hs he
        hentries (FiniteMap.transform_eq_some hc) name b ((scope.mem_entries_iff name b).2 hb)
      have hlt := hs.captured_lt_of_value hv
      have hcopied : (copyScope n s₁ (s₀.scope c.captured)).isSome := by
        rw [copyBinding, if_neg (by simp [hr]), he₁.value_eq (hf name b hb), hv, copyWith,
          if_neg (by simp [hcr]), he₁.scope _ hlt] at hsome
        cases hi : copyScope n s₁ (s₀.scope c.captured) with
        | some r => rfl
        | none =>
            rw [hi] at hsome
            cases hsome
      obtain ⟨hpos, hchain⟩ := length_lt_of_copyScope hs n s₁ _ he₁ (hs.fits c.captured) hcopied
      cases l with
      | nil => exact Nat.succ_lt_succ hpos
      | cons y l =>
          obtain ⟨hy, hl⟩ := List.isChain_cons_cons.1 hl
          exact Nat.succ_lt_succ (hchain y l hy hl)

/-- Each scope that has been copied was copied after others. -/
theorem isSome_copyScope_of_flatten (hs : s₀.Closed) : ∀ {l : List Scope} {flat : Scope}
    {s' : Store}, (∀ scope ∈ l, s₀.Fits scope) → s₀.flatten l = some (flat, s') →
      ∀ scope ∈ l, ∃ s₁, s₀.Enlarges s₁ ∧ (copyScope s₁.copyBound s₁ scope).isSome
  | [], _, _, _, _ => fun _ hm => absurd hm List.not_mem_nil
  | scope :: l, flat, s', hl, h => by
      obtain ⟨⟨flat₁, s₁⟩, h₁, h⟩ := Option.bind_eq_some_iff.1 h
      obtain ⟨⟨copied, s₂⟩, h₂, -⟩ := Option.bind_eq_some_iff.1 h
      have hl' := (List.forall_mem_cons.1 hl).2
      obtain ⟨he₁, -⟩ := flatten_spec hs hl' h₁
      exact List.forall_mem_cons.2 ⟨⟨s₁, he₁, by rw [h₂]; rfl⟩,
        isSome_copyScope_of_flatten hs hl' h₁⟩

/-- Where a scope can be copied, every way ends that starts in it. -/
theorem ends_of_isSome_copyScope (hs : s₀.Closed) {s : Store} {scope : Scope} (he : s₀.Enlarges s)
    (hf : s₀.Fits scope) {n : Nat} (h : (copyScope n s scope).isSome) (ht : s₀.Embeds scope t) :
    s₀.Ends t := by
  obtain ⟨-, hchain⟩ := length_lt_of_copyScope hs _ s scope he hf h
  -- A bound on the length of all chains bounds how long they can go on, by induction on it.
  have hends : ∀ (n : Nat) (t : Address .scope),
      (∀ l, (t :: l).IsChain s₀.Holds → (t :: l).length < n) → s₀.Ends t := by
    intro n
    induction n with
    | zero => exact fun t h => absurd (h [] (List.isChain_singleton _)) (Nat.not_lt_zero _)
    | succ n ih => exact fun t h => Acc.intro _ fun y hy => ih y fun l hl =>
        Nat.lt_of_succ_lt_succ (h (y :: l) (List.isChain_cons_cons.2 ⟨hy, hl⟩))
  exact hends _ t fun l hl => hchain t l ht hl

/-- **There is a snapshot exactly if copying ends**, for each of the scopes. -/
theorem isSome_snapshot_iff (hs : s.Closed) (e : Environment) :
    (s.snapshot e).isSome ↔ ∀ x ∈ e.scopes, s.Ends x := by
  constructor
  · intro h x hx
    rw [snapshot, Option.isSome_map] at h
    obtain ⟨⟨flat, s'⟩, hflat⟩ := Option.isSome_iff_exists.1 h
    obtain ⟨s₁, he₁, hsome⟩ := isSome_copyScope_of_flatten hs
      (List.forall_mem_map.2 fun a _ => hs.fits a) hflat _ (List.mem_map_of_mem hx)
    exact Acc.intro _ fun t ht => ends_of_isSome_copyScope hs he₁ (hs.fits x) hsome ht
  · intro h
    exact isSome_snapshot hs fun x hx t l ht hl => Ends.length_le hs ht ((h x hx).inv ht) hl

end Store

/-! ### Changes of an environment -/

namespace Environment

/-- What can be done to an environment. -/
inductive Change where
  /-- Binds a name in the innermost scope. -/
  | create (name : String) (v : Value)
  /-- Assigns to a variable. -/
  | assign (name : String) (v : Value)
  /-- Enters a new scope. -/
  | push
  /-- Leaves the innermost scope. -/
  | pop
  /-- Binds a name in the innermost scope to a slot that exists, as a reference. -/
  | refer (name : String) (slot : Address .slot)
  /-- Enters a scope that exists. -/
  | install (scope : Address .scope)

namespace Change

/-- The store and the environment after a change. -/
def apply : Change → Store × Environment → Store × Environment
  | create name v, (s, e) => (s.create e.innermost name v, e)
  | assign name v, (s, e) => (s.assign e name v, e)
  | push, (s, e) => (s.newScope ∅, e.enter s.scopes.fresh)
  | pop, (s, e) => (s, e.leave)
  | refer name slot, (s, e) => (s.share e.innermost name slot, e)
  | install scope, (s, e) => (s, e.enter scope)

/-- The store and the environment after several changes. -/
def run (l : List Change) (p : Store × Environment) : Store × Environment :=
  l.foldl (fun p c => c.apply p) p

/-- A change that installs none of the scopes and binds none of the slots. -/
def Avoids (scopes : Address .scope → Prop) (slots : Address .slot → Prop) : Change → Prop
  | refer _ slot => ¬slots slot
  | install scope => ¬scopes scope
  | _ => True

end Change
end Environment

open Environment (Change)

/-- Cells that are to be left alone. -/
structure Reserve where
  /-- The scopes. -/
  scopes : Address .scope → Prop
  /-- The slots. -/
  slots : Address .slot → Prop

namespace Reserve

variable {r : Reserve} {s s' s'' : Store} {e : Environment} {x : Address .scope}

/-- A scope that is not reserved and refers to no reserved slot. -/
structure Open (r : Reserve) (s : Store) (x : Address .scope) : Prop where
  scope : ¬r.scopes x
  slot : ∀ m b, s.binding? x m = some b → b.byRef = true → ¬r.slots b.slot

/-- The reserved cells are in the store. -/
structure There (r : Reserve) (s : Store) : Prop where
  scope : ∀ x, r.scopes x → x.index < s.scopes.size
  slot : ∀ σ, r.slots σ → σ.index < s.slots.size

/-- A change that leaves the reserved cells alone and gives no scope a reference to one of the
slots. -/
structure Intact (r : Reserve) (s s' : Store) : Prop where
  slots_le : s.slots.size ≤ s'.slots.size
  scopes_le : s.scopes.size ≤ s'.scopes.size
  scope : ∀ x, r.scopes x → s'.scope x = s.scope x
  value : ∀ σ, r.slots σ → s'.value σ = s.value σ
  opened : ∀ x, r.Open s x → r.Open s' x

namespace Intact

theorem refl (r : Reserve) (s : Store) : r.Intact s s :=
  ⟨Nat.le_refl _, Nat.le_refl _, fun _ _ => rfl, fun _ _ => rfl, fun _ h => h⟩

theorem trans (h : r.Intact s s') (h' : r.Intact s' s'') : r.Intact s s'' where
  slots_le := Nat.le_trans h.slots_le h'.slots_le
  scopes_le := Nat.le_trans h.scopes_le h'.scopes_le
  scope x hx := (h'.scope x hx).trans (h.scope x hx)
  value σ hσ := (h'.value σ hσ).trans (h.value σ hσ)
  opened x hx := h'.opened x (h.opened x hx)

theorem there (h : r.Intact s s') (hr : r.There s) : r.There s' :=
  ⟨fun x hx => Nat.lt_of_lt_of_le (hr.scope x hx) h.scopes_le,
    fun σ hσ => Nat.lt_of_lt_of_le (hr.slot σ hσ) h.slots_le⟩

theorem newScope (r : Reserve) (s : Store) : r.Intact s (s.newScope ∅) where
  slots_le := Nat.le_refl _
  scopes_le := by
    rw [Store.size_scopes_newScope]
    exact Nat.le_succ _
  scope x _ := Store.scope_newScope_empty s x
  value _ _ := rfl
  opened x hx := ⟨hx.scope, fun m b hb => hx.slot m b (by
    rwa [Store.binding?, Store.scope_newScope_empty] at hb)⟩

theorem create (hr : r.There s) (hx : ¬r.scopes x) (name : String) (v : Value) :
    r.Intact s (s.create x name v) where
  slots_le := by
    rw [Store.size_slots_create]
    exact Nat.le_succ _
  scopes_le := by rw [Store.size_scopes_create]
  scope y hy := by
    have hne : y ≠ x := fun h => hx (h ▸ hy)
    exact Store.scope_create_of_ne s hne name v
  value σ hσ := Store.value_newSlot_of_lt (hr.slot σ hσ) v
  opened y hy := by
    refine ⟨hy.scope, fun m b hb hbr => ?_⟩
    rw [Store.binding?_create] at hb
    split at hb
    · cases hb
      cases hbr
    · exact hy.slot m b hb hbr

theorem share {σ : Address .slot} (hx : ¬r.scopes x) (hσ : ¬r.slots σ) (name : String) :
    r.Intact s (s.share x name σ) where
  slots_le := Nat.le_refl _
  scopes_le := by rw [Store.size_scopes_share]
  scope y hy := by
    have hne : y ≠ x := fun h => hx (h ▸ hy)
    exact Store.scope_bind_of_ne s hne name _
  value _ _ := rfl
  opened y hy := by
    refine ⟨hy.scope, fun m b hb hbr => ?_⟩
    rw [Store.binding?_share] at hb
    split at hb
    · cases hb
      exact hσ
    · exact hy.slot m b hb hbr

theorem writeSlot {σ : Address .slot} (hσ : ¬r.slots σ) (v : Value) :
    r.Intact s (s.writeSlot σ v) where
  slots_le := by rw [Store.size_slots_writeSlot]
  scopes_le := Nat.le_refl _
  scope _ _ := rfl
  value τ hτ := by
    have hne : τ ≠ σ := fun h => hσ (h ▸ hτ)
    rw [Store.value, Store.writeSlot, Heap.get?_set_of_ne _ _ hne]
    rfl
  opened _ hy := ⟨hy.scope, hy.slot⟩

/-- An assignment in an environment whose scopes are open. -/
theorem assign (hr : r.There s) (he : ∀ x ∈ e.scopes, r.Open s x) (name : String) (v : Value) :
    r.Intact s (s.assign e name v) := by
  obtain ⟨b, hl, hb, h⟩ | ⟨b, x, hx, -, -, h⟩ | ⟨-, h⟩ := s.assign_cases e name v
  · obtain ⟨x, hx, hxb⟩ := Store.lookup_eq_some hl
    rw [h]
    exact .writeSlot ((he x hx).slot name b hxb hb) v
  · rw [h]
    exact .create hr (he x (Store.mem_of_home? hx)).scope name v
  · rw [h]
    exact .create hr (he _ List.mem_cons_self).scope name v

end Intact

/-- A change that installs open scopes only, and binds no reserved slot. -/
def Permits (r : Reserve) (s : Store) (c : Change) : Prop :=
  c.Avoids (fun x => ¬r.Open s x) r.slots

/-- **A change reaches no cell that is reserved.** -/
theorem apply_intact (hr : r.There s) (he : ∀ x ∈ e.scopes, r.Open s x) {c : Change}
    (hc : r.Permits s c) : r.Intact s (c.apply (s, e)).1 ∧
      ∀ x ∈ (c.apply (s, e)).2.scopes, r.Open (c.apply (s, e)).1 x := by
  have hinner : ¬r.scopes e.innermost := (he _ List.mem_cons_self).scope
  cases c with
  | create name v =>
      have h : r.Intact s (s.create e.innermost name v) := .create hr hinner name v
      exact ⟨h, fun x hx => h.opened x (he x hx)⟩
  | assign name v =>
      have h : r.Intact s (s.assign e name v) := .assign hr he name v
      exact ⟨h, fun x hx => h.opened x (he x hx)⟩
  | push =>
      have h : r.Intact s (s.newScope ∅) := .newScope r s
      refine ⟨h, List.forall_mem_cons.2 ⟨⟨fun hx => ?_, fun m b hb => ?_⟩,
        fun x hx => h.opened x (he x hx)⟩⟩
      · exact absurd (hr.scope _ hx) (Nat.lt_irrefl _)
      · change (s.newScope ∅).binding? s.scopes.fresh m = some b at hb
        rw [s.binding?_newScope_fresh] at hb
        cases hb
  | pop =>
      refine ⟨.refl r s, fun x hx => he x ?_⟩
      obtain ⟨innermost, outer⟩ := e
      cases outer with
      | nil => exact hx
      | cons y l => exact List.mem_cons_of_mem _ hx
  | refer name σ =>
      have h : r.Intact s (s.share e.innermost name σ) := .share hinner hc name
      exact ⟨h, fun x hx => h.opened x (he x hx)⟩
  | install y =>
      exact ⟨.refl r s, List.forall_mem_cons.2 ⟨Classical.not_not.1 hc, he⟩⟩

/-- A change that avoids some scopes and slots is permitted where all other scopes are open. -/
theorem permits_of_avoids {scopes : Address .scope → Prop} {c : Change}
    (hc : c.Avoids scopes r.slots) (h : ∀ x, c = .install x → ¬scopes x → r.Open s x) :
    r.Permits s c := by
  cases c with
  | install y => exact Classical.not_not.2 (h y rfl hc)
  | refer name σ => exact hc
  | _ => trivial

/-- What is permitted stays so. -/
theorem Permits.intact {c : Change} (hc : r.Permits s c) (h : r.Intact s s') : r.Permits s' c := by
  cases c with
  | install y => exact fun hn => hc fun ho => hn (h.opened y ho)
  | refer name σ => exact hc
  | _ => trivial

/-- **However an environment is changed, no cell is reached that is reserved.** -/
theorem run_intact : ∀ {l : List Change} {s : Store} {e : Environment}, r.There s →
    (∀ x ∈ e.scopes, r.Open s x) → (∀ c ∈ l, r.Permits s c) → r.Intact s (Change.run l (s, e)).1
  | [], s, _, _, _, _ => .refl r s
  | c :: l, s, e, hr, he, hl => by
      obtain ⟨h, he'⟩ := apply_intact hr he (hl c List.mem_cons_self)
      exact h.trans (run_intact (h.there hr) he' fun d hd =>
        (hl d (List.mem_cons_of_mem _ hd)).intact h)

end Reserve
namespace Store

variable {s s' : Store} {e : Environment} {a : Address .scope}

/-! ### What a snapshot is -/

/-- The scope `a` is a snapshot of the environment, where `s'` is the store after it was made. -/
structure Photographs (s : Store) (e : Environment) (a : Address .scope) (s' : Store) : Prop where
  /-- The scope is new, and nothing has captured it. -/
  fresh : s.Fresh s' a
  /-- It binds the names that can be read. -/
  names : ∀ n, (s'.binding? a n).isSome = (s.read e n).isSome
  /-- What can be seen as a reference is a reference to the same slot. -/
  reference : ∀ n b, s.lookup e n = some b → b.byRef = true → s'.binding? a n = some b
  /-- What can be seen as owned is owned, with a new slot that nothing else is bound to and a copy
  of the value. -/
  owned : ∀ n b, s.lookup e n = some b → b.byRef = false → ∃ σ, s'.binding? a n = some ⟨σ, false⟩ ∧
    s.slots.size ≤ σ.index ∧ s.Duplicate s' (s.value b.slot) (s'.value σ) ∧
      ∀ y m c, s'.binding? y m = some c → c.slot = σ → y = a ∧ m = n
  /-- No two closures that capture by value share a scope that is new. -/
  captured : ∀ p q c d, p ≠ q → s'.content? p = some (.closure c) →
    s'.content? q = some (.closure d) → c.byRef = false → d.byRef = false →
      s.scopes.size ≤ c.captured.index → c.captured ≠ d.captured
  /-- No scope that was there has changed. -/
  scope : ∀ x : Address .scope, x.index < s.scopes.size → s'.scope x = s.scope x
  /-- No slot that was there has changed. -/
  value : ∀ σ : Address .slot, σ.index < s.slots.size → s'.value σ = s.value σ
  /-- No object has changed. -/
  objects : s'.objects = s.objects
  /-- The environment shows what it showed. -/
  seen : ∀ n, s'.lookup e n = s.lookup e n ∧ s'.read e n = s.read e n

/-- What can be seen from scopes and slots that a change leaves alone. -/
theorem read_eq_of_lookup (hl : s'.lookup e = s.lookup e) {n : String}
    (hv : ∀ b, s.lookup e n = some b → s'.value b.slot = s.value b.slot) :
    s'.read e n = s.read e n := by
  rw [read, read, hl]
  exact Option.map_congr hv

theorem photographs_snapshot (hs : s.Closed) (he : ∀ x ∈ e.scopes, x.index < s.scopes.size)
    (h : s.snapshot e = some (a, s')) : s.Photographs e a s' := by
  obtain ⟨hen, hfresh⟩ := snapshot_spec hs h
  obtain ⟨hsp, hnames, hcopies⟩ := duplicate_snapshot hs h
  have hfound : ∀ n b, s.lookup e n = some b → ∃ b', s'.binding? a n = some b' := fun n b hb =>
    Option.isSome_iff_exists.1 ((hnames n).trans (by rw [hb]; rfl))
  have hlookup : s'.lookup e = s.lookup e := funext fun n => lookup_congr fun x hx => by
    rw [binding?, binding?, hen.scope x (he x hx)]
  refine ⟨hfresh, fun n => ?_, fun n b hb hr => ?_, fun n b hb hr => ?_, hen.distinct, hen.scope,
    fun σ hσ => hen.value_eq hσ, hen.objects, fun n => ⟨congrFun hlookup n, ?_⟩⟩
  · rw [hnames, read, Option.isSome_map]
  · obtain ⟨b', hb'⟩ := hfound n b hb
    rw [hb', (hcopies n b b' hb hb').1.reference hr]
  · obtain ⟨⟨σ, byRef⟩, hb'⟩ := hfound n b hb
    obtain ⟨hcopied, hdup⟩ := hcopies n b _ hb hb'
    obtain ⟨rfl, hle⟩ := hcopied.owned hr
    refine ⟨σ, hb', hle, hdup hr, fun y m c hc hσ => ?_⟩
    exact hsp.unique y m c a n _ hc hb' (hσ ▸ hle) hσ
  · refine read_eq_of_lookup hlookup fun b hb => hen.value_eq ?_
    obtain ⟨x, -, hx⟩ := lookup_eq_some hb
    exact hs.binding x n b hx

/-! ### Isolation -/

/-- The slots that a scope owns. -/
def Owns (s : Store) (a : Address .scope) (σ : Address .slot) : Prop :=
  ∃ n, s.binding? a n = some ⟨σ, false⟩

/-- The scopes that have been made since. -/
def NewScope (s s' : Store) (x : Address .scope) : Prop :=
  s.scopes.size ≤ x.index ∧ x.index < s'.scopes.size

/-- The slots that have been made since. -/
def NewSlot (s s' : Store) (σ : Address .slot) : Prop :=
  s.slots.size ≤ σ.index ∧ σ.index < s'.slots.size

/-- The slots that are bound in the scopes of an environment, but for those that can be seen as
references. -/
def Unshared (s : Store) (e : Environment) (σ : Address .slot) : Prop :=
  (∃ x ∈ e.scopes, ∃ n b, s.binding? x n = some b ∧ b.slot = σ) ∧
    ∀ n b, s.lookup e n = some b → b.byRef = true → b.slot ≠ σ

/-- A snapshot and its environment live apart, but for the slots to which the snapshot refers. -/
structure Isolated (s : Store) (e : Environment) (a : Address .scope) (s' : Store) : Prop where
  /-- Whatever is done to the environment, without the scope of the snapshot and the slots that it
  owns, the snapshot keeps its bindings and the values of those that it owns. -/
  snapshot : ∀ l : List Change, (∀ c ∈ l, c.Avoids (· = a) (s'.Owns a)) →
    ∀ n, (Change.run l (s', e)).1.binding? a n = s'.binding? a n ∧
      ∀ σ, s'.binding? a n = some ⟨σ, false⟩ → (Change.run l (s', e)).1.value σ = s'.value σ
  /-- Nor do the copies change inside, if their scopes and slots are not used either. -/
  copies : ∀ l : List Change, (∀ c ∈ l, c.Avoids (s.NewScope s') (s.NewSlot s')) →
    ∀ v w, s.Duplicate s' v w → s.Duplicate (Change.run l (s', e)).1 v w
  /-- Whatever is done to a new environment in which the snapshot is installed, without the scopes
  of the environment, its slots and the scopes that refer to these, the environment keeps all
  bindings of all its scopes and the values of those to whose slots the snapshot does not refer. -/
  environment : ∀ l : List Change, (∀ c ∈ l, c.Avoids (· ∈ e.scopes) (s.Unshared e)) →
    (∀ x, .install x ∈ l → ∀ m b, s'.binding? x m = some b → b.byRef = true →
      ¬s.Unshared e b.slot) →
    ∀ x ∈ e.scopes, ∀ n b, s.binding? x n = some b →
      (Change.run l (s'.newScope ∅, ⟨a, [s'.scopes.fresh]⟩)).1.binding? x n = some b ∧
        ((∀ m c, s.lookup e m = some c → c.byRef = true → c.slot ≠ b.slot) →
          (Change.run l (s'.newScope ∅, ⟨a, [s'.scopes.fresh]⟩)).1.value b.slot = s.value b.slot)

/-- After a snapshot no reference is one to a slot that was made for it. -/
theorem Spreads.lt_of_byRef (hs : s.Closed) (h : s.Spreads s') {x : Address .scope} {m : String}
    {b : Binding} (hb : s'.binding? x m = some b) (hr : b.byRef = true) :
    b.slot.index < s.slots.size := by
  obtain ⟨y, k, hy⟩ := h.reference x m b hb hr
  exact hs.binding y k b hy

/-- Changes of the environment do not reach the snapshot. -/
theorem intact_snapshot (hs : s.Closed) (he : ∀ x ∈ e.scopes, x.index < s.scopes.size)
    (h : s.snapshot e = some (a, s')) {l : List Change}
    (hl : ∀ c ∈ l, c.Avoids (· = a) (s'.Owns a)) :
    Reserve.Intact ⟨(· = a), s'.Owns a⟩ s' (Change.run l (s', e)).1 := by
  obtain ⟨hen, hfresh⟩ := snapshot_spec hs h
  obtain ⟨hsp, -, -⟩ := duplicate_snapshot hs h
  have hopen : ∀ x, x ≠ a → Reserve.Open ⟨(· = a), s'.Owns a⟩ s' x := by
    refine fun x hx => ⟨hx, fun m b hb hr hown => ?_⟩
    obtain ⟨n, hn⟩ := hown
    have hlt := hsp.lt_of_byRef hs hb hr
    obtain hold | hle := hen.owned a n _ hn rfl
    · exact absurd (lt_of_binding? hold) (Nat.not_lt_of_le hfresh.le)
    · exact absurd hlt (Nat.not_lt_of_le hle)
  refine Reserve.run_intact ⟨?_, ?_⟩ (fun x hx => hopen x ?_) fun c hc =>
    Reserve.permits_of_avoids (hl c hc) fun x _ => hopen x
  · rintro _ rfl
    exact hfresh.lt
  · rintro σ ⟨n, hn⟩
    exact (hen.closed hs).binding a n _ hn
  · rintro rfl
    exact absurd (he x hx) (Nat.not_lt_of_le hfresh.le)

/-- Changes of the environment do not reach what was made for the snapshot. -/
theorem retains_run (hs : s.Closed) (he : ∀ x ∈ e.scopes, x.index < s.scopes.size)
    (h : s.snapshot e = some (a, s')) {l : List Change}
    (hl : ∀ c ∈ l, c.Avoids (s.NewScope s') (s.NewSlot s')) :
    s.Retains s' (Change.run l (s', e)).1 := by
  obtain ⟨hsp, -, -⟩ := duplicate_snapshot hs h
  have hopen : ∀ x, ¬s.NewScope s' x → Reserve.Open ⟨s.NewScope s', s.NewSlot s'⟩ s' x :=
    fun x hx => ⟨hx, fun m b hb hr hnew =>
      absurd (hsp.lt_of_byRef hs hb hr) (Nat.not_lt_of_le hnew.1)⟩
  have hthere : Reserve.There ⟨s.NewScope s', s.NewSlot s'⟩ s' :=
    ⟨fun _ hx => hx.2, fun _ hσ => hσ.2⟩
  have hi := Reserve.run_intact hthere
    (fun x hx => hopen x fun hnew => absurd (he x hx) (Nat.not_lt_of_le hnew.1))
    fun c hc => Reserve.permits_of_avoids (hl c hc) fun x _ => hopen x
  exact ⟨hi.slots_le, hi.scopes_le, fun x hle hlt => hi.scope x ⟨hle, hlt⟩,
    fun σ hle hlt => hi.value σ ⟨hle, hlt⟩⟩

/-- Changes of a new environment with the snapshot do not reach the environment. -/
theorem intact_environment (hs : s.Closed) (he : ∀ x ∈ e.scopes, x.index < s.scopes.size)
    (h : s.snapshot e = some (a, s')) {l : List Change}
    (hl : ∀ c ∈ l, c.Avoids (· ∈ e.scopes) (s.Unshared e))
    (hrefer : ∀ x, .install x ∈ l → ∀ m b, s'.binding? x m = some b → b.byRef = true →
      ¬s.Unshared e b.slot) :
    Reserve.Intact ⟨(· ∈ e.scopes), s.Unshared e⟩ (s'.newScope ∅)
      (Change.run l (s'.newScope ∅, ⟨a, [s'.scopes.fresh]⟩)).1 := by
  obtain ⟨hen, hfresh⟩ := snapshot_spec hs h
  have hp := photographs_snapshot hs he h
  have hbinding (x : Address .scope) (m : String) :
      (s'.newScope ∅).binding? x m = s'.binding? x m := by
    rw [binding?, binding?, scope_newScope_empty]
  have hnew : ∀ x : Address .scope, s.scopes.size ≤ x.index → x ∉ e.scopes := fun x hle hx =>
    absurd (he x hx) (Nat.not_lt_of_le hle)
  refine Reserve.run_intact ⟨fun x hx => ?_, ?_⟩ (List.forall_mem_cons.2 ⟨⟨hnew a hfresh.le, ?_⟩,
    List.forall_mem_singleton.2 ⟨hnew _ hen.scopes_le, fun m b hb => ?_⟩⟩) fun c hc =>
      Reserve.permits_of_avoids (hl c hc) fun x hcx hx => ⟨hx, fun m b hb hr => ?_⟩
  · rw [size_scopes_newScope]
    exact Nat.lt_succ_of_lt (Nat.lt_of_lt_of_le (he x hx) hen.scopes_le)
  · rintro _ ⟨⟨x, -, n, b, hb, rfl⟩, -⟩
    exact Nat.lt_of_lt_of_le (hs.binding x n b hb) hen.slots_le
  · -- A reference of the snapshot is one that can be seen.
    rintro m b hb hr ⟨-, hunseen⟩
    rw [hbinding] at hb
    obtain ⟨v, hv⟩ := Option.isSome_iff_exists.1 ((hp.names m).symm.trans (by rw [hb]; rfl))
    obtain ⟨c, hc, -⟩ := Option.map_eq_some_iff.1 hv
    cases hcr : c.byRef with
    | true =>
        cases hb.symm.trans (hp.reference m c hc hcr)
        exact hunseen m b hc hr rfl
    | false =>
        obtain ⟨σ, hσ, -⟩ := hp.owned m c hc hcr
        cases hb.symm.trans hσ
        cases hr
  · rw [hbinding] at hb
    exact absurd (lt_of_binding? hb) (Nat.lt_irrefl _)
  · rw [hbinding] at hb
    exact hrefer x (hcx ▸ hc) m b hb hr

theorem isolated_snapshot (hs : s.Closed) (he : ∀ x ∈ e.scopes, x.index < s.scopes.size)
    (h : s.snapshot e = some (a, s')) : s.Isolated e a s' := by
  obtain ⟨hen, -⟩ := snapshot_spec hs h
  refine ⟨fun l hl n => ?_, fun l hl v w hd => hd.retained (retains_run hs he h hl),
    fun l hl hrefer x hx n b hb => ?_⟩
  · have hi := intact_snapshot hs he h hl
    refine ⟨?_, fun σ hσ => hi.value σ ⟨n, hσ⟩⟩
    rw [binding?, binding?, hi.scope a rfl]
  · have hi := intact_environment hs he h hl hrefer
    refine ⟨?_, fun hfree => ?_⟩
    · rw [binding?, hi.scope x hx, scope_newScope_empty, hen.scope x (he x hx)]
      exact hb
    · exact (hi.value b.slot ⟨⟨x, hx, n, b, hb, rfl⟩, hfree⟩).trans
        (hen.value_eq (hs.binding x n b hb))

/-- **A snapshot agrees with lookup and is isolated.** -/
theorem snapshot_isolated (hs : s.Closed) (he : ∀ x ∈ e.scopes, x.index < s.scopes.size)
    (hends : ∀ x ∈ e.scopes, s.Ends x) :
    ∃ a s', s.snapshot e = some (a, s') ∧ s.Photographs e a s' ∧ s.Isolated e a s' := by
  obtain ⟨⟨a, s'⟩, h⟩ := Option.isSome_iff_exists.1 ((isSome_snapshot_iff hs e).2 hends)
  exact ⟨a, s', h, photographs_snapshot hs he h, isolated_snapshot hs he h⟩

/-- A store with a variable `v` that hides another one, a reference `r` to a slot of a scope that is
not in the environment, a closure `f` that captured a scope by value and a closure `g` that captured
by reference the scope in which it is bound. -/
def layered : Store :=
  let s := (((∅ : Store).newScope ∅).create ⟨0⟩ "shared" (.int 0)).newScope ∅
  let s := ((s.create ⟨1⟩ "v" (.int 1)).share ⟨1⟩ "r" ⟨0⟩).newScope ∅
  let s := (s.newScope ∅).create ⟨3⟩ "n" (.int 3)
  ((s.create ⟨2⟩ "v" (.int 2)).create ⟨2⟩ "f"
    (.closure ⟨0, .mk "lambda" [] [], ⟨3⟩, false⟩)).create ⟨2⟩ "g"
      (.closure ⟨1, .mk "lambda" [] [], ⟨2⟩, true⟩)

/-- The snapshot keeps the value of the variable and sees what is written through the reference. -/
theorem snapshot_isolated_layered :
    (layered.snapshot ⟨⟨2⟩, [⟨1⟩, ⟨1⟩]⟩).map (fun p =>
      let s := (Change.run [.assign "v" (.int 100), .assign "r" (.int 5)]
        (p.2, ⟨⟨2⟩, [⟨1⟩, ⟨1⟩]⟩)).1
      (s.read (.single p.1) "v", s.read (.single p.1) "r")) = some (some (.int 2), some (.int 5)) ∧
    ∃ a s', layered.snapshot ⟨⟨2⟩, [⟨1⟩, ⟨1⟩]⟩ = some (a, s') ∧
      layered.Photographs ⟨⟨2⟩, [⟨1⟩, ⟨1⟩]⟩ a s' ∧ layered.Isolated ⟨⟨2⟩, [⟨1⟩, ⟨1⟩]⟩ a s' :=
  have hs : layered.Closed := by decide
  ⟨rfl, snapshot_isolated hs (by decide) ((isSome_snapshot_iff hs _).1 rfl)⟩

end Store
end ProtoScript
