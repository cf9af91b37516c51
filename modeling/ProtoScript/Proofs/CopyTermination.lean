import Mathlib.Order.WellFounded
import ProtoScript.Proofs.Ownership
import ProtoScript.Proofs.Replay
import ProtoScript.Proofs.Upkeep
/-!
# Copies come to an end

To copy a scope is to copy what it holds, and so on.  The store may have circles:
an object can hold a closure that captured the object, and a closure that
captures by reference can be bound in the scope that it captured.  But copying
goes only from a scope to what its owned bindings captured by value
(`Store.Holds`), and on this way there is no circle.  For whatever is captured by
value has been made after the scope that comes to hold it, and a scope that is
older than a task is never held by one that the task has made
(`Store.Descends.old_of_holds`).  So the links that a task makes lead from older
scopes to newer ones, and from the newer ones no way leads back.

Where there is no circle the number of scopes bounds the length of a chain, so
the bound on copying never shows: there is a copy, and every larger bound gives
the same one (`Store.copyScope_of_copyBound_le`).
-/

namespace ProtoScript

open Relation

/-! ### More rounds change nothing -/

namespace FiniteMap

variable {κ α β σ : Type}

theorem transformEntries_cons {f : α → σ → Option (β × σ)} {k : κ} {a : α} {b : β}
    {l : List (κ × α)} {r : List (κ × β)} {s s₁ s₂ : σ}
    (hl : transformEntries f l s = some (r, s₁)) (hb : f a s₁ = some (b, s₂)) :
    transformEntries f ((k, a) :: l) s = some ((k, b) :: r, s₂) := by
  simp only [transformEntries, hl, Option.bind_some, hb, Option.map_some]

/-- A function that succeeds more often gives the same where the other one succeeds. -/
theorem transformEntries_mono {f g : α → σ → Option (β × σ)}
    (h : ∀ a s r, f a s = some r → g a s = some r) :
    ∀ {l : List (κ × α)} {s : σ} {r : List (κ × β) × σ},
      transformEntries f l s = some r → transformEntries g l s = some r
  | [], _, _, hr => hr
  | (k, a) :: l, s, r, hr => by
      obtain ⟨⟨l', s₁⟩, hl, hr⟩ := Option.bind_eq_some_iff.1 hr
      obtain ⟨⟨b, s₂⟩, hb, rfl⟩ := Option.map_eq_some_iff.1 hr
      exact transformEntries_cons (transformEntries_mono h hl) (h a s₁ _ hb)

theorem exists_transform {f : α → σ → Option (β × σ)} {m : FiniteMap κ α} {s t : σ}
    {l : List (κ × β)} (h : transformEntries f m.entries s = some (l, t)) :
    ∃ m', m.transform f s = some (m', t) ∧ m'.entries = l := by
  unfold transform
  split
  · next l' t' h' =>
      cases h'.symm.trans h
      exact ⟨_, rfl, rfl⟩
  · next h' => cases h'.symm.trans h

theorem transform_mono {f g : α → σ → Option (β × σ)}
    (h : ∀ a s r, f a s = some r → g a s = some r) {m : FiniteMap κ α} {s : σ}
    {r : FiniteMap κ β × σ} (hr : m.transform f s = some r) : m.transform g s = some r := by
  obtain ⟨⟨l, hl⟩, t⟩ := r
  obtain ⟨⟨l', hl'⟩, hg, rfl⟩ := exists_transform (transformEntries_mono h (transform_eq_some hr))
  exact hg

end FiniteMap

namespace Store

variable {s₀ s s' : Store} {a t x : Address .scope} {v w : Value} {n k : Nat}

theorem copyBinding_mono {f g : Store → Scope → Option (Scope × Store)}
    (h : ∀ s scope r, f s scope = some r → g s scope = some r) {b : Binding}
    {r : Binding × Store} (hr : copyBinding f b s = some r) : copyBinding g b s = some r := by
  unfold copyBinding at hr ⊢
  split
  · next hb => rwa [if_pos hb] at hr
  · next hb =>
      rw [if_neg hb] at hr
      obtain ⟨⟨w, s₁⟩, hw, hr⟩ := Option.bind_eq_some_iff.1 hr
      have hw' : copyWith g s (s.value b.slot) = some (w, s₁) := by
        cases hv : s.value b.slot with
        | closure c =>
            rw [hv] at hw
            simp only [copyWith] at hw ⊢
            split
            · next hc => rwa [if_pos hc] at hw
            · next hc =>
                rw [if_neg hc] at hw
                obtain ⟨⟨captured, s₂⟩, hc, hw⟩ := Option.bind_eq_some_iff.1 hw
                rw [h _ _ _ hc]
                exact hw
        | _ =>
            rw [hv] at hw
            exact hw
      rw [hw']
      exact hr

/-- **A copy that has been made is made under every larger bound.** -/
theorem copyScope_mono (hnk : n ≤ k) {scope : Scope} {r : Scope × Store}
    (h : copyScope n s scope = some r) : copyScope k s scope = some r := by
  have hsucc : ∀ (n : Nat) (s : Store) (scope : Scope) (r : Scope × Store),
      copyScope n s scope = some r → copyScope (n + 1) s scope = some r := by
    intro n
    induction n with
    | zero => nofun
    | succ n ih => exact fun s scope r h =>
        FiniteMap.transform_mono (fun b s r hb => copyBinding_mono ih hb) h
  induction hnk with
  | refl => exact h
  | step _ ih => exact hsucc _ _ _ _ ih

/-! ### Without a circle there is a copy -/

theorem isSome_copyBinding {copy : Store → Scope → Option (Scope × Store)} {b : Binding}
    (h : b.byRef = false → ∀ c, s.value b.slot = .closure c → c.byRef = false →
      (copy s (s.scope c.captured)).isSome) : (copyBinding copy b s).isSome := by
  unfold copyBinding
  split
  · rfl
  · next hb =>
      have hw : ∃ r, copyWith copy s (s.value b.slot) = some r := by
        cases hv : s.value b.slot with
        | closure c =>
            simp only [copyWith]
            split
            · exact ⟨_, rfl⟩
            · next hc =>
                obtain ⟨r, hr⟩ := Option.isSome_iff_exists.1
                  (h (by simpa using hb) c hv (by simpa using hc))
                rw [hr]
                exact ⟨_, rfl⟩
        | _ => exact ⟨_, rfl⟩
      obtain ⟨r, hr⟩ := hw
      rw [hr]
      rfl

/-- Entries are copied one after the other, if each can be copied after the others. -/
theorem isSome_transformEntries {copy : Store → Scope → Option (Scope × Store)}
    (hcopy : CopiesScopes copy) (hs : s₀.Closed) :
    ∀ {l : List (String × Binding)} {s : Store}, s₀.Enlarges s →
      (∀ name b, (name, b) ∈ l → b.slot.index < s₀.slots.size ∧
        ∀ s₁, s₀.Enlarges s₁ → (copyBinding copy b s₁).isSome) →
        (FiniteMap.transformEntries (copyBinding copy) l s).isSome
  | [], _, _, _ => rfl
  | (name, b) :: l, s, he, hl => by
      obtain ⟨⟨r, s₁⟩, hr⟩ := Option.isSome_iff_exists.1 (isSome_transformEntries hcopy hs he
        fun name b hb => hl name b (List.mem_cons_of_mem _ hb))
      have hfit : ∀ name b, (name, b) ∈ l → b.slot.index < s.slots.size := fun name b hb =>
        Nat.lt_of_lt_of_le (hl name b (List.mem_cons_of_mem _ hb)).1 he.slots_le
      have he₁ := he.trans (transformEntries_spec hcopy (he.closed hs) hfit hr).1
      obtain ⟨⟨b', s₂⟩, hb⟩ := Option.isSome_iff_exists.1
        ((hl name b List.mem_cons_self).2 s₁ he₁)
      rw [FiniteMap.transformEntries_cons hr hb]
      rfl

/-- **A scope can be copied if every chain of scopes in it is shorter than the bound.**  The chains
are those of the store in which copying starts: what is made on the way is not on them. -/
theorem isSome_copyScope (hs : s₀.Closed) : ∀ (n : Nat) (s : Store) (scope : Scope),
    s₀.Enlarges s → s₀.Fits scope → 0 < n →
      (∀ t l, s₀.Embeds scope t → (t :: l).IsChain s₀.Holds → (t :: l).length < n) →
        (copyScope n s scope).isSome
  | 0, _, _, _, _, hn, _ => absurd hn (Nat.lt_irrefl 0)
  | n + 1, s, scope, he, hf, _, hchain => by
      have hentries : (FiniteMap.transformEntries (copyBinding (copyScope n))
          scope.entries s).isSome := by
        refine isSome_transformEntries (copyScope_spec n) hs he fun name b hb => ?_
        have hb' := (scope.mem_entries_iff name b).1 hb
        refine ⟨hf name b hb', fun s₁ he₁ => isSome_copyBinding fun hr c hv hc => ?_⟩
        rw [he₁.value_eq (hf name b hb')] at hv
        have ht : s₀.Embeds scope c.captured := ⟨name, b, c, hb', hr, hv, hc, rfl⟩
        have hlt := hs.captured_lt (content?_slot_of_value hv nofun)
        rw [he₁.scope _ hlt]
        refine isSome_copyScope hs n s₁ _ he₁ (hs.fits _) ?_ fun t l hemb hl => ?_
        · exact Nat.lt_of_succ_lt_succ (hchain _ [] ht (List.isChain_singleton _))
        · exact Nat.lt_of_succ_lt_succ
            (hchain _ (t :: l) ht (List.isChain_cons_cons.2 ⟨hemb, hl⟩))
      obtain ⟨⟨r, s₁⟩, hr⟩ := Option.isSome_iff_exists.1 hentries
      obtain ⟨copied, hc, -⟩ := FiniteMap.exists_transform hr
      rw [copyScope, hc]
      rfl

/-- No scope holds itself, neither directly nor through others. -/
def Acyclic (s : Store) : Prop := ∀ a, ¬TransGen s.Holds a a

theorem lt_of_embeds (hs : s.Closed) {scope : Scope} (h : s.Embeds scope t) :
    t.index < s.scopes.size := by
  obtain ⟨name, b, c, -, -, hv, -, rfl⟩ := h
  exact hs.captured_lt (content?_slot_of_value hv nofun)

theorem lt_of_holds (h : s.Holds a t) : a.index < s.scopes.size := by
  obtain ⟨name, b, c, hb, -⟩ := h
  exact lt_of_binding? hb

/-- Every chain of scopes that starts in a scope is at most as long as there are scopes. -/
def Shallow (s : Store) (scope : Scope) : Prop :=
  ∀ t l, s.Embeds scope t → (t :: l).IsChain s.Holds → (t :: l).length ≤ s.scopes.size

theorem Acyclic.shallow (hs : s.Closed) (ha : s.Acyclic) (scope : Scope) : s.Shallow scope := by
  intro t l ht hl
  refine Address.length_le_of_isChain ha hl ?_
  clear ha
  induction l generalizing scope t with
  | nil => exact List.forall_mem_singleton.2 (lt_of_embeds hs ht)
  | cons y l ih =>
      obtain ⟨hy, hl⟩ := List.isChain_cons_cons.1 hl
      exact List.forall_mem_cons.2 ⟨lt_of_embeds hs ht, ih (s.scope t) y hy hl⟩

/-- The bound on the scopes that are copied inside each other is large enough, also while copies are
being made. -/
theorem Shallow.isSome_copyScope {scope : Scope} (h : s₀.Shallow scope) (hs : s₀.Closed)
    (hf : s₀.Fits scope) (he : s₀.Enlarges s) : (copyScope s.copyBound s scope).isSome :=
  Store.isSome_copyScope hs _ _ _ he hf (Nat.succ_pos _) fun t l ht hl =>
    Nat.lt_succ_of_le (Nat.le_trans (h t l ht hl) he.scopes_le)

/-- **Without a circle every scope can be copied**, and every larger bound gives the same copy. -/
theorem copyScope_of_copyBound_le (hs : s.Closed) (ha : s.Acyclic) {scope : Scope}
    (hf : s.Fits scope) (hn : s.copyBound ≤ n) :
    ∃ r, copyScope n s scope = some r ∧ copyScope s.copyBound s scope = some r := by
  obtain ⟨r, hr⟩ := Option.isSome_iff_exists.1
    ((ha.shallow hs scope).isSome_copyScope hs hf (.refl hs))
  exact ⟨r, copyScope_mono hn hr, hr⟩

/-- The scopes of an environment can be copied one after the other. -/
theorem isSome_flatten (hs : s.Closed) : ∀ {l : List Scope},
    (∀ scope ∈ l, s.Fits scope) → (∀ scope ∈ l, s.Shallow scope) → (s.flatten l).isSome
  | [], _, _ => rfl
  | scope :: l, hfits, hshallow => by
      obtain ⟨hscope, hl⟩ := List.forall_mem_cons.1 hfits
      obtain ⟨hshallow, hl'⟩ := List.forall_mem_cons.1 hshallow
      obtain ⟨⟨flat, s₁⟩, h₁⟩ := Option.isSome_iff_exists.1 (isSome_flatten hs hl hl')
      obtain ⟨he₁, -⟩ := flatten_spec hs hl h₁
      obtain ⟨⟨copied, s₂⟩, h₂⟩ := Option.isSome_iff_exists.1
        (hshallow.isSome_copyScope hs hscope he₁)
      rw [flatten, h₁]
      show (s₁.copyScope s₁.copyBound scope >>= _).isSome
      rw [h₂]
      rfl

theorem isSome_snapshot (hs : s.Closed) {e : Environment}
    (h : ∀ a ∈ e.scopes, s.Shallow (s.scope a)) : (s.snapshot e).isSome := by
  rw [snapshot, Option.isSome_map]
  exact isSome_flatten hs (List.forall_mem_map.2 fun a _ => hs.fits a) (List.forall_mem_map.2 h)

theorem isSome_capture (hs : s.Closed) (ha : s.Acyclic) {scope : Scope} (hf : s.Fits scope) :
    (s.capture scope).isSome := by
  obtain ⟨r, -, hr⟩ := copyScope_of_copyBound_le hs ha hf (Nat.le_refl _)
  rw [capture, hr]
  rfl

theorem isSome_detach (hs : s.Closed) (ha : s.Acyclic) (c : Closure) : (s.detach c).isSome := by
  rw [detach, Option.isSome_map]
  exact isSome_capture hs ha (hs.fits c.captured)

/-- The bindings that can be seen point into the store. -/
theorem Closed.fits_visible (hs : s.Closed) (e : Environment) : s.Fits (s.visible e) := by
  intro name b hb
  rw [get?_visible] at hb
  obtain ⟨a, -, ha⟩ := lookup_eq_some hb
  exact hs.binding a name b ha

/-- **Without a circle there is a copy of everything.** -/
theorem copyable (hs : s.Closed) (ha : s.Acyclic) : s.Copyable where
  copy v := by
    cases v with
    | closure c =>
        rw [copy]
        split
        · rfl
        · rw [Option.isSome_map]
          exact isSome_detach hs ha c
    | _ => rfl
  release v := by
    cases v with
    | closure c =>
        rw [release, Option.isSome_map]
        exact isSome_detach hs ha c
    | _ => rfl
  snapshot e := isSome_snapshot hs fun a _ => ha.shallow hs (s.scope a)

/-- **Without a circle no way is infinite.** -/
theorem Acyclic.wellFounded (ha : s.Acyclic) : WellFounded fun t a => s.Holds a t := by
  refine wellFounded_iff_isEmpty_descending_chain.2 ⟨fun ⟨f, hf⟩ => ?_⟩
  -- The first steps of the way are a walk, as long as one likes.
  have hwalk : ∀ k i, ∃ l, (f i :: l).IsChain s.Holds ∧ l.length = k ∧
      ∀ a ∈ f i :: l, a.index < s.scopes.size := by
    intro k
    induction k with
    | zero => exact fun i =>
        ⟨[], List.isChain_singleton _, rfl, List.forall_mem_singleton.2 (lt_of_holds (hf i))⟩
    | succ k ih =>
        intro i
        obtain ⟨l, hl, hk, hlt⟩ := ih (i + 1)
        exact ⟨f (i + 1) :: l, List.isChain_cons_cons.2 ⟨hf i, hl⟩, congrArg (· + 1) hk,
          List.forall_mem_cons.2 ⟨lt_of_holds (hf i), hlt⟩⟩
  obtain ⟨l, hl, hk, hlt⟩ := hwalk s.scopes.size 0
  have hle := Address.length_le_of_isChain ha hl hlt
  rw [List.length_cons, hk] at hle
  exact Nat.not_succ_le_self _ hle

/-! ### What a task changes -/

/-- What a task does to owners: each scope has one, none comes to own what is older, and no scope
comes to hold itself. -/
structure Descends (s₀ s : Store) : Prop where
  slots_le : s₀.slots.size ≤ s.slots.size
  settles : s₀.Settles s
  acyclic : s.Acyclic
  owned : ∀ a name b, s.binding? a name = some b → b.byRef = false →
    b.slot.index < s₀.slots.size → s₀.binding? a name = some b

namespace Descends

theorem refl (h : s₀.Descends s) : s.Descends s :=
  ⟨Nat.le_refl _, .refl h.settles.owned, h.acyclic, fun _ _ _ hb _ _ => hb⟩

theorem trans (h : s₀.Descends s) (h' : s.Descends s') : s₀.Descends s' where
  slots_le := Nat.le_trans h.slots_le h'.slots_le
  settles := h.settles.trans h'.settles
  acyclic := h'.acyclic
  owned a name b hb hr hlt :=
    h.owned a name b (h'.owned a name b hb hr (Nat.lt_of_lt_of_le hlt h.slots_le)) hr hlt

/-- **A scope that a task has made holds no older one.** -/
theorem old_of_holds (h : s₀.Descends s) (hat : s.Holds a t) (ht : t.index < s₀.scopes.size) :
    a.index < s₀.scopes.size := by
  obtain ⟨name, b, c, hb, hr, hv, hc, rfl⟩ := hat
  -- The closure was in its slot before, and the slot had its owner.
  have hp := h.settles.settled _ c (content?_slot_of_value hv nofun) hc ht
  exact lt_of_binding? (h.owned a name b hb hr (Heap.index_lt_of_get?_eq_some hp))

/-- A change of owned bindings in older scopes alone, to what has been made since. -/
theorem change (h : s₀.Descends s) (hs : s₀.Settles s') (hle : s.slots.size ≤ s'.slots.size)
    (howned : ∀ a name b, s'.binding? a name = some b → b.byRef = false →
      s.binding? a name = some b ∨ s₀.slots.size ≤ b.slot.index)
    (hholds : ∀ a t, s'.Holds a t →
      s.Holds a t ∨ a.index < s₀.scopes.size ∧ s₀.scopes.size ≤ t.index) :
    s₀.Descends s' where
  slots_le := Nat.le_trans h.slots_le hle
  settles := hs
  acyclic := by
    -- A way with a new link on it leads from an older scope to a newer one.
    have hway : ∀ {a t}, TransGen s'.Holds a t →
        TransGen s.Holds a t ∨ a.index < s₀.scopes.size ∧ s₀.scopes.size ≤ t.index := by
      intro a t hat
      induction hat with
      | single hat => exact (hholds _ _ hat).imp_left .single
      | @tail y z hay hyz ih =>
          obtain hyz | ⟨hy, hz⟩ := hholds _ _ hyz
          · obtain hay | ⟨ha, hy⟩ := ih
            · exact .inl (hay.tail hyz)
            · have hz := fun hz => Nat.not_lt_of_le hy (h.old_of_holds hyz hz)
              exact .inr ⟨ha, Nat.le_of_not_lt hz⟩
          · obtain hay | ⟨ha, -⟩ := ih
            · have ha := hay.closed' (P := fun x => x.index < s₀.scopes.size) h.old_of_holds hy
              exact .inr ⟨ha, hz⟩
            · exact .inr ⟨ha, hz⟩
    intro a ha
    obtain ha | ⟨hlt, hle⟩ := hway ha
    · exact h.acyclic a ha
    · exact absurd hlt (Nat.not_lt_of_le hle)
  owned a name b hb hr hlt := by
    obtain hb | hle := howned a name b hb hr
    · exact h.owned a name b hb hr hlt
    · exact absurd hlt (Nat.not_lt_of_le hle)

/-- **Copies hold copies alone**, the later ones the earlier ones. -/
theorem enlarges (h : s₀.Descends s) (hs : s.Closed) (he : s.Enlarges s') : s₀.Descends s' where
  slots_le := Nat.le_trans h.slots_le he.slots_le
  settles := h.settles.enlarges he
  acyclic := by
    -- A way leads from old to old, or from a copy to an earlier one.
    have hway : ∀ {a t}, TransGen s'.Holds a t →
        TransGen s.Holds a t ∨ s.scopes.size ≤ t.index ∧ t.index < a.index := by
      intro a t hat
      induction hat with
      | single hat => exact (he.holds _ _ hat).imp .single fun h => ⟨h.1, h.2.1⟩
      | @tail y z _ hyz ih =>
          obtain hyz | ⟨hz, hzy, -⟩ := he.holds _ _ hyz
          · obtain hay | ⟨hy, -⟩ := ih
            · exact .inl (hay.tail hyz)
            · exact absurd (lt_of_holds hyz) (Nat.not_lt_of_le hy)
          · obtain hay | ⟨-, hya⟩ := ih
            · have hy : y.index < s.scopes.size := by
                obtain ⟨x, -, hxy⟩ := TransGen.tail'_iff.1 hay
                exact lt_of_embeds hs hxy
              omega
            · exact .inr ⟨hz, Nat.lt_trans hzy hya⟩
    intro a ha
    obtain ha | ⟨-, hlt⟩ := hway ha
    · exact h.acyclic a ha
    · exact Nat.lt_irrefl _ hlt
  owned a name b hb hr hlt := by
    obtain hb | hle := he.owned a name b hb hr
    · exact h.owned a name b hb hr hlt
    · exact absurd (Nat.lt_of_lt_of_le hlt h.slots_le) (Nat.not_lt_of_le hle)

/-- A change that is seen in no scope and in no slot. -/
theorem of_eq (h : s₀.Descends s) (hs : s₀.Settles s') (hslots : s'.slots = s.slots)
    (hscope : ∀ a, s'.scope a = s.scope a) : s₀.Descends s' := by
  refine h.change hs (Nat.le_of_eq (by rw [hslots])) (fun a name b hb _ => .inl ?_)
    fun a t hat => .inl ?_
  · rwa [binding?, hscope] at hb
  · obtain ⟨name, b, c, hb, hr, hv, hc⟩ := hat
    rw [hscope] at hb
    rw [value, hslots] at hv
    exact ⟨name, b, c, hb, hr, hv, hc⟩

/-- A name of an older scope may be bound to a new slot with an owner. -/
theorem create (h : s₀.Descends s) (hs : s.Closed) (hx : x.index < s₀.scopes.size)
    (hv : s₀.Owner s v) (name : String) : s₀.Descends (s.create x name v) := by
  refine h.change (h.settles.alters (alters_create s x name v) hv) (by simp)
    (fun a name' b hb _ => ?_) fun a t hat => ?_
  · rw [binding?_create] at hb
    split at hb
    · cases hb
      exact .inr h.slots_le
    · exact .inl hb
  · obtain ⟨name', b, c, hb, hr, hc, hcr, rfl⟩ := hat
    change (s.newSlot v).value b.slot = .closure c at hc
    change (s.create x name v).binding? a name' = some b at hb
    rw [binding?_create] at hb
    split at hb
    · next ha =>
        cases hb
        rw [value_newSlot_fresh] at hc
        exact .inr ⟨ha.1 ▸ hx, (hv c hc hcr).le⟩
    · rw [value_newSlot_of_lt (hs.binding a name' b hb)] at hc
      exact .inl ⟨name', b, c, hb, hr, hc, hcr, rfl⟩

/-- A reference owns nothing. -/
theorem share (h : s₀.Descends s) (x : Address .scope) (name : String) (slot : Address .slot) :
    s₀.Descends (s.share x name slot) := by
  have hb : ∀ {a name' b}, (s.share x name slot).binding? a name' = some b → b.byRef = false →
      s.binding? a name' = some b := by
    intro a name' b hb hr
    rw [binding?_share] at hb
    split at hb
    · cases hb
      cases hr
    · exact hb
  have hs : s₀.Settles (s.share x name slot) :=
    ⟨by simpa using h.settles.scopes_le, fun p q c d hpq hp hq => by
      rw [content?_share] at hp hq
      exact h.settles.owned p q c d hpq hp hq, fun p c hp => by
      rw [content?_share] at hp
      exact h.settles.settled p c hp⟩
  refine h.change hs (Nat.le_refl _) (fun a name' b hb' hr => .inl (hb hb' hr)) fun a t hat => ?_
  obtain ⟨name', b, c, hb', hr, hc⟩ := hat
  exact .inl ⟨name', b, c, hb hb' hr, hr, hc⟩

/-- A slot that is older than the task may be given an owner, for its own owner is older as well. -/
theorem writeSlot (h : s₀.Descends s) {σ : Address .slot} (hσ : σ.index < s₀.slots.size)
    (hv : s₀.Owner s v) : s₀.Descends (s.writeSlot σ v) := by
  refine h.change (h.settles.alters (alters_writeSlot s σ v) hv) (by simp)
    (fun a name b hb _ => .inl hb) fun a t hat => ?_
  obtain ⟨name, b, c, hb, hr, hc, hcr, rfl⟩ := hat
  by_cases hb' : b.slot = σ
  · have hσ' := Nat.lt_of_lt_of_le hσ h.slots_le
    rw [value, Store.writeSlot, hb', Heap.get?_set_self _ _ hσ'] at hc
    exact .inr ⟨lt_of_binding? (h.owned a name b hb hr (hb' ▸ hσ)), (hv c hc hcr).le⟩
  · rw [value, Store.writeSlot, Heap.get?_set_of_ne _ _ hb'] at hc
    exact .inl ⟨name, b, c, hb, hr, hc, hcr, rfl⟩

/-- **An owner may be assigned** in an environment that is older than the owner. -/
theorem assign (h : s₀.Descends s) (hs₀ : s₀.Closed) (hs : s.Closed) {e : Environment}
    {X : Address .scope → String → Prop} {W : Address .slot → Value → Prop}
    (he : ∀ x ∈ e.scopes, x.index < s₀.scopes.size)
    (hev : s₀.Evolves (fun _ _ => False) X W s) (hv : s₀.Owner s v) (name : String) :
    s₀.Descends (s.assign e name v) := by
  obtain ⟨b, hb, hr, h'⟩ | ⟨b, x, hx, -, -, h'⟩ | ⟨-, h'⟩ := s.assign_cases e name v
  · rw [h']
    obtain ⟨x, hx, hb⟩ := lookup_eq_some hb
    refine h.writeSlot ?_ hv
    -- The reference has been there since before.
    cases hb₀ : s₀.binding? x name with
    | none =>
        obtain hf | hn := hev.gained x name (he x hx) hb₀
        · exact hf.elim
        · exact nomatch hn.symm.trans hb
    | some b₀ =>
        obtain ⟨b', hb', hf | rfl | ⟨-, -, hr', -⟩⟩ := hev.kept x name b₀ hb₀
        · exact hf.elim
        · cases hb'.symm.trans hb
          exact hs₀.binding x name _ hb₀
        · cases hb'.symm.trans hb
          exact nomatch hr.symm.trans hr'
  · rw [h']
    exact h.create hs (he x (mem_of_home? hx)) hv name
  · rw [h']
    exact h.create hs (he _ List.mem_cons_self) hv name

end Descends

/-! ### Runs -/

/-- The upkeep of owners: no scope comes to hold itself. -/
def descent : Upkeep where
  during s₀ s := s₀.Descends s
  object _ _ := True
  closure s₀ s c := c.byRef = false → s₀.Fresh s c.captured

theorem descent_lawful : descent.Lawful := by
  have howner : ∀ {s₀ s : Store} {v : Value}, descent.value s₀ s v → s₀.Owner s v := by
    rintro s₀ s _ hv c rfl
    exact hv
  have hcopy : ∀ {s s' : Store} {w : Value}, s.Closed → s.Descends s → s.Enlarges s' →
      (∀ c, w = .closure c → c.byRef = false → s.Fresh s' c.captured) →
        (∃ c, w = .closure c) → descent.during s s' ∧ descent.value s s' w := by
    rintro s s' _ hc hs he hw ⟨c, rfl⟩
    exact ⟨hs.enlarges hc he, hw c rfl⟩
  exact {
    refl := fun h => h.refl
    trans := fun h h' => h.trans h'
    object_mono := fun _ _ => trivial
    closure_since := fun h hc hr => (hc hr).trans h.settles.scopes_le
    held := fun _ _ => trivial
    proto := fun _ _ => trivial
    copy := fun hc h hw => by
      refine hcopy hc h (copy_spec hc hw).1 (fun d hd hr => ?_) (closure_of_copy hw)
      exact owner_of_copy hc hw (Nat.le_refl _) d hd hr
    release := fun hc h hw => by
      obtain ⟨he, hf⟩ := release_spec hc hw
      exact hcopy hc h he (fun d hd _ => hf d hd) (closure_of_release hw)
    capture := fun hc h hx => by
      obtain ⟨he, hf⟩ := snapshot_spec hc hx
      exact ⟨h.enlarges hc he, fun _ _ _ _ => hf⟩
    newScope := fun {s} h =>
      h.of_eq (h.settles.alters (alters_newScope s .nil) (.of_not_closure nofun)) rfl (by simp)
    newObject := fun {s} h =>
      ⟨h.of_eq (h.settles.alters (alters_newObject s .nil) (.of_not_closure nofun)) rfl (by simp),
        trivial⟩
    create := fun hc h hx hv name => h.create hc hx (howner hv) name
    share := fun h x name slot => h.share x name slot
    assign := fun hc₀ hc h he hev hv name => h.assign hc₀ hc he hev (howner hv) name
    setField := fun {s₀ s name v} _ h _ hv o =>
      h.of_eq (h.settles.alters (alters_setField s o name v) (howner hv)) rfl (by simp)
    setProto := fun {s o p} h _ =>
      h.of_eq (h.settles.alters (alters_setProto s .nil o p) (.of_not_closure nofun)) rfl
        (by simp) }

end Store

/-- **Every moment of a run finds a store without circles of owners.** -/
theorem Machine.Reaches.descends {fuel : Nat} {p : Program} {m : Machine} {a : Moment}
    (h : Machine.Reaches fuel p m a) : Store.descent.contract.before a := by
  refine Store.descent_lawful.before_of_reaches ⟨Nat.le_refl _, .refl ?_, fun a ha => ?_, ?_⟩ h
  · intro p q c d _ hp
    cases p <;> cases hp
  · obtain ⟨x, -, hx⟩ := Relation.TransGen.tail'_iff.1 ha
    obtain ⟨name, b, c, hb, -⟩ := hx
    rw [Store.scope_newScope_empty] at hb
    cases hb
  · exact fun _ _ _ hb _ _ => hb

/-- What copying does while the task of a moment is performed. -/
structure Moment.Copies (a : Moment) : Prop where
  /-- From a scope to what its owned bindings captured by value no way is infinite, and none comes
  back. -/
  founded : ∀ m, a.Passes m ∨ a.Ends m → WellFounded fun t x => m.store.Holds x t
  /-- The bindings of a scope have a copy.  It is the same for every bound on the scopes that are
  copied inside each other, if this is as large as the bound that is used. -/
  scope : ∀ m, a.Passes m ∨ a.Ends m → ∀ x n, m.store.copyBound ≤ n →
    ∃ r, m.store.copyScope n (m.store.scope x) = some r ∧
      m.store.copyScope m.store.copyBound (m.store.scope x) = some r
  /-- So have the bindings that can be seen in an environment. -/
  visible : ∀ m, a.Passes m ∨ a.Ends m → ∀ e n, m.store.copyBound ≤ n →
    ∃ r, m.store.copyScope n (m.store.visible e) = some r ∧
      m.store.copyScope m.store.copyBound (m.store.visible e) = some r
  /-- There is a copy of every closure, with a scope of its own. -/
  detach : ∀ m, a.Passes m ∨ a.Ends m → ∀ c, (m.store.detach c).isSome
  /-- There is a copy of every value, to be stored or to leave its activation, and of what can be
  seen in an environment. -/
  copyable : ∀ m, a.Passes m ∨ a.Ends m → m.store.Copyable
  /-- No step of the task stops unfinished. -/
  step : 0 < a.fuel → ∀ {β : Type} (x : Eval β) next m,
    a.task.script.Leads (perform (a.fuel - 1)) a.machine (.act x next) m →
      ∀ m', x m ≠ .error .unfinished m'

namespace Moment

variable {a : Moment} {m m₀ : Machine} {fuel : Nat} {p : Program}

theorem closed_acyclic (h : Machine.Reaches fuel p m₀ a) (hm : a.Passes m ∨ a.Ends m) :
    m.store.Closed ∧ m.store.Acyclic := by
  obtain hm | hm := hm
  · exact ⟨(hm.keeps h.isolated).closed,
      (Store.descent_lawful.kept.during_of_passes h.isolated h.descends hm).acyclic⟩
  · exact ⟨(hm.keeps h.isolated).closed,
      (Store.descent_lawful.during_of_ends h.isolated h.descends hm).acyclic⟩

end Moment

/-- **Copying always terminates during a run.** -/
theorem copy_termination {fuel : Nat} {p : Program} {m₀ : Machine} {a : Moment}
    (h : Machine.Reaches fuel p m₀ a) : a.Copies where
  founded m hm := (Moment.closed_acyclic h hm).2.wellFounded
  scope m hm x n hn := by
    obtain ⟨hc, ha⟩ := Moment.closed_acyclic h hm
    exact Store.copyScope_of_copyBound_le hc ha (hc.fits x) hn
  visible m hm e n hn := by
    obtain ⟨hc, ha⟩ := Moment.closed_acyclic h hm
    exact Store.copyScope_of_copyBound_le hc ha (hc.fits_visible e) hn
  detach m hm c := by
    obtain ⟨hc, ha⟩ := Moment.closed_acyclic h hm
    exact Store.isSome_detach hc ha c
  copyable m hm := by
    obtain ⟨hc, ha⟩ := Moment.closed_acyclic h hm
    exact Store.copyable hc ha
  step hn _ x next m hl m' := by
    have := (hl.level (Script.steady a.task)).2.1
    obtain ⟨hc, ha⟩ := Moment.closed_acyclic h (.inl (.later hn hl))
    exact Eval.Tame.ne_unfinished (Store.copyable hc ha)

/-- What the owned binding of a name captured by value. -/
def Store.holding? (s : Store) (a : Address .scope) (name : String) : Option (Address .scope) :=
  match s.binding? a name with
  | some ⟨slot, false⟩ =>
      match s.value slot with
      | .closure ⟨_, _, captured, false⟩ => some captured
      | _ => none
  | _ => none

theorem Store.holds_of_holding? {s : Store} {a t : Address .scope} {name : String}
    (h : s.holding? a name = some t) : s.Holds a t := by
  unfold holding? at h
  split at h
  · next slot hb =>
      split at h
      · next id r captured hv =>
          cases h
          exact ⟨name, _, _, hb, rfl, hv, rfl, rfl⟩
      · cases h
  · cases h

/-- A program in which a closure is captured by a closure that is captured in turn:

    func main() {
        n = 0;
        f = lambda() { return n; };
        g = lambda() { return f(); };
        h = lambda() { return g(); };
        print(h());
    } -/
def Program.nested : Program where
  routines :=
    [.mk "main" []
      [.assign (.variable "n") (.int 0),
        .assign (.variable "f") (.lambda (.mk "lambda" [] [.return (some (.variable "n"))])),
        .assign (.variable "g") (.lambda (.mk "lambda" []
          [.return (some (.call (.mk (.name "f") [])))])),
        .assign (.variable "h") (.lambda (.mk "lambda" []
          [.return (some (.call (.mk (.name "g") [])))])),
        .call (.mk (.name "print") [.call (.mk (.name "h") [])])]]

/-- The scope of `main` holds one that holds one that holds one. -/
theorem copy_termination_nested : ∃ (a : Moment) (x y z t : Address .scope),
    Machine.Reaches 20 .nested (.initial {}) a ∧ a.machine.store.Holds x y ∧
      a.machine.store.Holds y z ∧ a.machine.store.Holds z t ∧ a.Copies := by
  have hd : ((Machine.replay 20 .nested (.initial {}) [1, 1, 1, 1, 0]).any fun a =>
      (a.machine.store.holding? ⟨0⟩ "h").any fun y => (a.machine.store.holding? y "g").any fun z =>
        (a.machine.store.holding? z "f").isSome) = true := by
    decide +kernel
  obtain ⟨a, ha, hd⟩ := (Option.any_eq_true _ _).1 hd
  obtain ⟨y, hy, hd⟩ := (Option.any_eq_true _ _).1 hd
  obtain ⟨z, hz, hd⟩ := (Option.any_eq_true _ _).1 hd
  obtain ⟨t, ht⟩ := Option.isSome_iff_exists.1 hd
  have h := Machine.reaches_of_replay ha
  exact ⟨a, ⟨0⟩, y, z, t, h, Store.holds_of_holding? hy, Store.holds_of_holding? hz,
    Store.holds_of_holding? ht, copy_termination h⟩

end ProtoScript
