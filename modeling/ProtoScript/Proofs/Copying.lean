import ProtoScript.Proofs.Cells
/-!
# What copying does to the store

A copy adds cells and leaves the others alone (`Store.Enlarges`).  What the new
slots hold is known as well: a closure that captures by reference is one that
was held before, and a closure that captures by value captured a new scope, of
which it is the only owner.  So no copy brings two owners of one scope into the
store, and none of what was made for it is held but by the copy itself
(`Store.copy_spec`, `Store.release_spec`, `Store.snapshot_spec`).

A scope holds another one if it owns a closure that captured the other one by value
(`Store.Holds`).  This is the way that copying takes, from scope to scope.  What is
inside a scope is copied before the scope is made, so of the scopes that are made,
each holds earlier ones alone.

All this needs a store in which no address points outside (`Store.Closed`), for
otherwise a new cell could be what an old address was waiting for.
-/

namespace ProtoScript
namespace Store

/-- No binding and no closure that is held points outside the store. -/
structure Closed (s : Store) : Prop where
  binding : ∀ a name b, s.binding? a name = some b → b.slot.index < s.slots.size
  captured : ∀ a, s.Captured a → a.index < s.scopes.size

/-- The bindings of a scope point into the store. -/
def Fits (s : Store) (scope : Scope) : Prop :=
  ∀ name b, scope.get? name = some b → b.slot.index < s.slots.size

/-- Among the bindings of a scope, an owned one holds a closure that captured `t` by value. -/
def Embeds (s : Store) (scope : Scope) (t : Address .scope) : Prop :=
  ∃ name b c, scope.get? name = some b ∧ b.byRef = false ∧ s.value b.slot = .closure c ∧
    c.byRef = false ∧ c.captured = t

/-- From a scope to what its owned bindings captured by value. -/
def Holds (s : Store) (a t : Address .scope) : Prop := s.Embeds (s.scope a) t

/-- A scope has been made since, and nothing has captured it. -/
structure Fresh (s s' : Store) (a : Address .scope) : Prop where
  le : s.scopes.size ≤ a.index
  lt : a.index < s'.scopes.size
  free : ¬s'.Captured a

/-- A change that adds cells: what was there stays, and the closures in the new cells are shared
ones or the only owners of new scopes. -/
structure Enlarges (s s' : Store) : Prop where
  slots_le : s.slots.size ≤ s'.slots.size
  scopes_le : s.scopes.size ≤ s'.scopes.size
  objects : s'.objects = s.objects
  scope : ∀ a : Address .scope, a.index < s.scopes.size → s'.scope a = s.scope a
  content : ∀ p v, s.content? p = some v → s'.content? p = some v
  binding : ∀ a name b, s'.binding? a name = some b →
    s.binding? a name = some b ∨ b.slot.index < s'.slots.size
  closure : ∀ p c, s'.content? p = some (.closure c) → s.content? p = some (.closure c) ∨
    c.byRef = true ∧ (∃ q, s.content? q = some (.closure c)) ∨
    c.byRef = false ∧ s.scopes.size ≤ c.captured.index ∧ c.captured.index < s'.scopes.size
  distinct : ∀ p q c d, p ≠ q → s'.content? p = some (.closure c) →
    s'.content? q = some (.closure d) → c.byRef = false → d.byRef = false →
      s.scopes.size ≤ c.captured.index → c.captured ≠ d.captured
  object : ∀ p o, s'.content? p = some (.object o) → ∃ q, s.content? q = some (.object o)
  owned : ∀ a name b, s'.binding? a name = some b → b.byRef = false →
    s.binding? a name = some b ∨ s.slots.size ≤ b.slot.index
  holds : ∀ a t, s'.Holds a t →
    s.Holds a t ∨ s.scopes.size ≤ t.index ∧ t.index < a.index ∧ a.index < s'.scopes.size

/-- What the copy of a binding is: a reference, or the owner of a new slot, in which what is
captured by value is new. -/
structure Renewed (s s' : Store) (b : Binding) : Prop where
  fits : b.slot.index < s'.slots.size
  slot : b.byRef = false → s.slots.size ≤ b.slot.index
  value : b.byRef = false → ∀ c, s'.value b.slot = .closure c → c.byRef = false →
    s.scopes.size ≤ c.captured.index ∧ c.captured.index < s'.scopes.size

/-- What a copy of a value is: a closure that was held before, the only owner of a new scope, or an
object that was held before. -/
structure Copied (s s' : Store) (v : Value) : Prop where
  closure : ∀ c, v = .closure c → c.byRef = true ∧ (∃ p, s.content? p = some (.closure c)) ∨
    c.byRef = false ∧ s.Fresh s' c.captured
  object : ∀ o, v = .object o → ∃ p, s.content? p = some (.object o)

variable {s s' s'' : Store}

theorem captured_of_content? {p : Place} {c : Closure} (h : s.content? p = some (.closure c)) :
    s.Captured c.captured :=
  ⟨p, c, h, rfl⟩

theorem Closed.captured_lt (hs : s.Closed) {p : Place} {c : Closure}
    (h : s.content? p = some (.closure c)) : c.captured.index < s.scopes.size :=
  hs.captured _ (captured_of_content? h)

theorem Closed.fits (hs : s.Closed) (a : Address .scope) : s.Fits (s.scope a) :=
  fun name b h => hs.binding a name b h

/-- A new slot leaves the values alone. -/
theorem value_newSlot_of_lt {b : Address .slot} (hb : b.index < s.slots.size) (v : Value) :
    (s.newSlot v).value b = s.value b :=
  congrArg (fun o : Option Value => o.getD .nil) (Heap.get?_push_of_ne _ _ (Heap.ne_fresh_of_lt hb))

theorem value_newSlot_fresh (s : Store) (v : Value) : (s.newSlot v).value s.slots.fresh = v :=
  congrArg (fun o : Option Value => o.getD .nil) (Heap.get?_push_fresh _ _)

namespace Enlarges

theorem refl (hs : s.Closed) : s.Enlarges s where
  slots_le := Nat.le_refl _
  scopes_le := Nat.le_refl _
  objects := rfl
  scope _ _ := rfl
  content _ _ h := h
  binding _ _ _ h := .inl h
  closure _ _ h := .inl h
  distinct p _ c _ _ h _ _ _ hc := by
    have := hs.captured_lt h
    omega
  object p _ h := ⟨p, h⟩
  owned _ _ _ h _ := .inl h
  holds _ _ h := .inl h

theorem trans (h : s.Enlarges s') (h' : s'.Enlarges s'') : s.Enlarges s'' where
  slots_le := Nat.le_trans h.slots_le h'.slots_le
  scopes_le := Nat.le_trans h.scopes_le h'.scopes_le
  objects := h'.objects.trans h.objects
  scope a ha := (h'.scope a (Nat.lt_of_lt_of_le ha h.scopes_le)).trans (h.scope a ha)
  content p v hp := h'.content p v (h.content p v hp)
  binding a name b hb := by
    obtain hb | hb := h'.binding a name b hb
    · exact (h.binding a name b hb).imp_right fun hi => Nat.lt_of_lt_of_le hi h'.slots_le
    · exact .inr hb
  closure p c hp := by
    -- A closure that the first change shared or made is shared or made by both together.
    have hold : ∀ q, s'.content? q = some (.closure c) → s.content? q = some (.closure c) ∨
        c.byRef = true ∧ (∃ q, s.content? q = some (.closure c)) ∨
        c.byRef = false ∧ s.scopes.size ≤ c.captured.index ∧
          c.captured.index < s''.scopes.size := by
      intro q hq
      obtain hc | hc | ⟨hr, hle, hlt⟩ := h.closure q c hq
      · exact .inl hc
      · exact .inr (.inl hc)
      · exact .inr (.inr ⟨hr, hle, Nat.lt_of_lt_of_le hlt h'.scopes_le⟩)
    obtain hc | ⟨hr, q, hq⟩ | ⟨hr, hle, hlt⟩ := h'.closure p c hp
    · exact hold p hc
    · obtain hc | hc | ⟨hr', -⟩ := hold q hq
      · exact .inr (.inl ⟨hr, q, hc⟩)
      · exact .inr (.inl hc)
      · rw [hr] at hr'
        cases hr'
    · exact .inr (.inr ⟨hr, Nat.le_trans h.scopes_le hle, hlt⟩)
  distinct p q c d hpq hp hq hc hd hle he := by
    by_cases hlt : c.captured.index < s'.scopes.size
    · have old : ∀ r e, s''.content? r = some (.closure e) → e.byRef = false →
          e.captured.index < s'.scopes.size → s'.content? r = some (.closure e) := by
        intro r e hr he hlt
        obtain h₁ | ⟨h₁, -⟩ | ⟨-, h₁, -⟩ := h'.closure r e hr
        · exact h₁
        · rw [he] at h₁
          cases h₁
        · omega
      exact h.distinct p q c d hpq (old p c hp hc hlt) (old q d hq hd (he ▸ hlt)) hc hd hle he
    · exact h'.distinct p q c d hpq hp hq hc hd (Nat.le_of_not_lt hlt) he
  object p o hp := by
    obtain ⟨q, hq⟩ := h'.object p o hp
    exact h.object q o hq
  owned a name b hb hr := by
    obtain hb | hle := h'.owned a name b hb hr
    · exact h.owned a name b hb hr
    · exact .inr (Nat.le_trans h.slots_le hle)
  holds a t hat := by
    obtain hat | ⟨hle, hta, ha⟩ := h'.holds a t hat
    · refine (h.holds a t hat).imp_right fun ⟨hle, hta, ha⟩ => ⟨hle, hta, ?_⟩
      exact Nat.lt_of_lt_of_le ha h'.scopes_le
    · exact .inr ⟨Nat.le_trans h.scopes_le hle, hta, ha⟩

/-- **Copying keeps a store closed.** -/
theorem closed (h : s.Enlarges s') (hs : s.Closed) : s'.Closed where
  binding a name b hb := by
    obtain hb | hb := h.binding a name b hb
    · exact Nat.lt_of_lt_of_le (hs.binding a name b hb) h.slots_le
    · exact hb
  captured := by
    rintro _ ⟨p, c, hp, rfl⟩
    obtain hc | ⟨-, q, hc⟩ | ⟨-, -, hlt⟩ := h.closure p c hp
    · exact Nat.lt_of_lt_of_le (hs.captured_lt hc) h.scopes_le
    · exact Nat.lt_of_lt_of_le (hs.captured_lt hc) h.scopes_le
    · exact hlt

/-- A scope with copied bindings may be added. -/
theorem newScope (h : s.Enlarges s') {scope : Scope}
    (hf : ∀ name b, scope.get? name = some b → s.Renewed s' b) :
    s.Enlarges (s'.newScope scope) where
  slots_le := h.slots_le
  scopes_le := by
    have := h.scopes_le
    simp only [size_scopes_newScope]
    omega
  objects := h.objects
  scope a ha := by
    rw [scope_newScope, if_neg (Heap.ne_fresh_of_lt (Nat.lt_of_lt_of_le ha h.scopes_le))]
    exact h.scope a ha
  content p v hp := by
    rw [content?_newScope]
    exact h.content p v hp
  binding a name b hb := by
    rw [binding?, scope_newScope] at hb
    split at hb
    · exact .inr (hf name b hb).fits
    · exact h.binding a name b hb
  closure p c hp := by
    rw [content?_newScope] at hp
    refine (h.closure p c hp).imp_right fun hc => hc.imp_right fun hc => ⟨hc.1, hc.2.1, ?_⟩
    have := hc.2.2
    simp only [size_scopes_newScope]
    omega
  distinct p q c d hpq hp hq := by
    rw [content?_newScope] at hp hq
    exact h.distinct p q c d hpq hp hq
  object p o hp := by
    rw [content?_newScope] at hp
    exact h.object p o hp
  owned a name b hb hr := by
    rw [binding?, scope_newScope] at hb
    split at hb
    · exact .inr ((hf name b hb).slot hr)
    · exact h.owned a name b hb hr
  holds a t hat := by
    have hsize := size_scopes_newScope s' scope
    obtain ⟨name, b, c, hb, hr, hv, hc, rfl⟩ := hat
    rw [scope_newScope] at hb
    split at hb
    · next ha =>
        obtain ⟨hle, hlt⟩ := (hf name b hb).value hr c hv hc
        have hi : a.index = s'.scopes.size := by rw [ha]; rfl
        exact .inr ⟨hle, by omega, by omega⟩
    · obtain hat | ⟨hle, hlt, ha⟩ := h.holds a c.captured ⟨name, b, c, hb, hr, hv, hc, rfl⟩
      · exact .inl hat
      · exact .inr ⟨hle, hlt, by omega⟩

/-- A slot with a copy may be added. -/
theorem newSlot (h : s.Enlarges s') (hs : s'.Closed) {v : Value} (hv : s.Copied s' v) :
    s.Enlarges (s'.newSlot v) where
  slots_le := by
    have := h.slots_le
    simp only [size_slots_newSlot]
    omega
  scopes_le := h.scopes_le
  objects := h.objects
  scope := h.scope
  content p w hp := by
    have hp' := h.content p w hp
    rw [content?_newSlot, if_neg ?_]
    · exact hp'
    · rintro rfl
      simp [content?] at hp'
  binding a name b hb := by
    refine (h.binding a name b hb).imp_right fun hi => ?_
    simp only [size_slots_newSlot]
    omega
  closure p c hp := by
    rw [content?_newSlot] at hp
    split at hp
    · obtain hc | ⟨hr, hf⟩ := hv.closure c (Option.some.inj hp)
      · exact .inr (.inl hc)
      · exact .inr (.inr ⟨hr, hf.le, hf.lt⟩)
    · exact h.closure p c hp
  distinct p q c d hpq hp hq hc hd hle he := by
    -- The scope of the copy is captured by no closure that was there before.
    have hnew : ∀ r e, v = .closure e → e.byRef = false →
        ∀ e', s'.content? r = some (.closure e') → e.captured ≠ e'.captured := by
      intro r e hve her e' hr hee
      obtain ⟨hr', -⟩ | ⟨-, hf⟩ := hv.closure e hve
      · rw [her] at hr'
        cases hr'
      · exact hf.free (hee ▸ captured_of_content? hr)
    rw [content?_newSlot] at hp hq
    split at hp
    · next hp' =>
        rw [if_neg fun hq' => hpq (hp'.trans hq'.symm)] at hq
        exact hnew q c (Option.some.inj hp) hc d hq he
    · split at hq
      · exact hnew p d (Option.some.inj hq) hd c hp he.symm
      · exact h.distinct p q c d hpq hp hq hc hd hle he
  object p o hp := by
    rw [content?_newSlot] at hp
    split at hp
    · exact hv.object o (Option.some.inj hp)
    · exact h.object p o hp
  owned a name b hb hr := h.owned a name b hb hr
  holds a t hat := by
    obtain ⟨name, b, c, hb, hr, hc, ht⟩ := hat
    rw [value_newSlot_of_lt (hs.binding a name b hb)] at hc
    exact h.holds a t ⟨name, b, c, hb, hr, hc, ht⟩

end Enlarges

/-- What a slot holds is kept. -/
theorem Enlarges.value_eq (h : s.Enlarges s') {a : Address .slot} (ha : a.index < s.slots.size) :
    s'.value a = s.value a := by
  have hkept : s'.slots.get? a = s.slots.get? a := by
    cases hv : s.slots.get? a with
    | some v => exact h.content (.slot a) v hv
    | none => exact absurd ((Heap.get?_eq_none_iff _ _).1 hv) (Nat.not_le_of_lt ha)
  exact congrArg (fun o : Option Value => o.getD .nil) hkept

/-- Bindings point into the store after copies were made, too. -/
theorem Fits.enlarges {scope : Scope} (hf : s.Fits scope) (h : s.Enlarges s') : s'.Fits scope :=
  fun name b hb => Nat.lt_of_lt_of_le (hf name b hb) h.slots_le

namespace Renewed

variable {b : Binding}

/-- A copy that was made stays one while others are made. -/
theorem mono (hb : s.Renewed s' b) (h : s'.Enlarges s'') : s.Renewed s'' b where
  fits := Nat.lt_of_lt_of_le hb.fits h.slots_le
  slot := hb.slot
  value hr c hv hc := by
    rw [h.value_eq hb.fits] at hv
    obtain ⟨hle, hlt⟩ := hb.value hr c hv hc
    exact ⟨hle, Nat.lt_of_lt_of_le hlt h.scopes_le⟩

/-- A copy that is made later is a copy. -/
theorem since (h : s.Enlarges s') (hb : s'.Renewed s'' b) : s.Renewed s'' b where
  fits := hb.fits
  slot hr := Nat.le_trans h.slots_le (hb.slot hr)
  value hr c hv hc := (hb.value hr c hv hc).imp_left (Nat.le_trans h.scopes_le)

end Renewed

/-- The scope that is made next is captured by nothing. -/
theorem Enlarges.fresh (h : s.Enlarges s') (hs : s.Closed) (scope : Scope) :
    s.Fresh (s'.newScope scope) s'.scopes.fresh where
  le := h.scopes_le
  lt := by
    rw [size_scopes_newScope]
    exact Nat.lt_succ_self _
  free := by
    rintro ⟨p, c, hp, hc⟩
    rw [content?_newScope] at hp
    exact Heap.ne_fresh_of_lt ((h.closed hs).captured_lt hp) hc

/-! ### Copies of scopes -/

/-- What a function that copies the bindings of a scope should do. -/
def CopiesScopes (copy : Store → Scope → Option (Scope × Store)) : Prop :=
  ∀ (s s' : Store) (scope copied : Scope), s.Closed → s.Fits scope →
    copy s scope = some (copied, s') →
      s.Enlarges s' ∧ ∀ name b, copied.get? name = some b → s.Renewed s' b

variable {copy : Store → Scope → Option (Scope × Store)}

theorem copyWith_spec (hcopy : CopiesScopes copy) (hs : s.Closed) {a : Address .slot} {w : Value}
    (h : copyWith copy s (s.value a) = some (w, s')) : s.Enlarges s' ∧ s.Copied s' w := by
  cases hv : s.value a with
  | closure c =>
      rw [hv] at h
      simp only [copyWith] at h
      split at h
      · next hr =>
          cases h
          refine ⟨.refl hs, ?_, nofun⟩
          rintro _ ⟨⟩
          exact .inl ⟨hr, .slot a, content?_slot_of_value hv nofun⟩
      · next hr =>
          obtain ⟨⟨captured, s₁⟩, hc, h⟩ := Option.bind_eq_some_iff.1 h
          cases h
          obtain ⟨he, hf⟩ := hcopy _ _ _ _ hs (hs.fits c.captured) hc
          refine ⟨he.newScope hf, ?_, nofun⟩
          rintro _ ⟨⟩
          exact .inr ⟨by simpa using hr, he.fresh hs captured⟩
  | object o =>
      rw [hv] at h
      cases h
      refine ⟨.refl hs, nofun, ?_⟩
      rintro _ ⟨⟩
      exact ⟨.slot a, content?_slot_of_value hv nofun⟩
  | _ =>
      rw [hv] at h
      cases h
      exact ⟨.refl hs, nofun, nofun⟩

theorem copyBinding_spec (hcopy : CopiesScopes copy) (hs : s.Closed) {b b' : Binding}
    (hb : b.slot.index < s.slots.size) (h : copyBinding copy b s = some (b', s')) :
    s.Enlarges s' ∧ s.Renewed s' b' := by
  unfold copyBinding at h
  split at h
  · next hr =>
      cases h
      have hn : b.byRef ≠ false := by simp [hr]
      exact ⟨.refl hs, hb, fun h => absurd h hn, fun h => absurd h hn⟩
  · obtain ⟨⟨w, s₁⟩, hw, h⟩ := Option.bind_eq_some_iff.1 h
    cases h
    obtain ⟨he, hc⟩ := copyWith_spec hcopy hs hw
    refine ⟨he.newSlot (he.closed hs) hc, ?_, fun _ => he.slots_le, fun _ c hv hr => ?_⟩
    · rw [size_slots_newSlot]
      exact Nat.lt_succ_self _
    · have hw' : w = .closure c := by
        rwa [value_newSlot_fresh] at hv
      obtain ⟨hr', -⟩ | ⟨-, hf⟩ := hc.closure c hw'
      · rw [hr] at hr'
        cases hr'
      · exact ⟨hf.le, hf.lt⟩

/-- The entries of a scope are copied one after the other. -/
theorem transformEntries_spec (hcopy : CopiesScopes copy) (hs : s.Closed) :
    ∀ {l r : List (String × Binding)} {s' : Store},
      (∀ name b, (name, b) ∈ l → b.slot.index < s.slots.size) →
        FiniteMap.transformEntries (copyBinding copy) l s = some (r, s') →
          s.Enlarges s' ∧ ∀ name b, (name, b) ∈ r → s.Renewed s' b
  | [], _, _, _, h => by
      cases h
      exact ⟨.refl hs, nofun⟩
  | (name, b) :: l, r, s', hl, h => by
      obtain ⟨⟨r₁, s₁⟩, h₁, h⟩ := Option.bind_eq_some_iff.1 h
      obtain ⟨⟨b', s₂⟩, h₂, h⟩ := Option.map_eq_some_iff.1 h
      cases h
      obtain ⟨he₁, hr⟩ := transformEntries_spec hcopy hs
        (fun name b hb => hl name b (List.mem_cons_of_mem _ hb)) h₁
      have hb : b.slot.index < s₁.slots.size :=
        Nat.lt_of_lt_of_le (hl name b List.mem_cons_self) he₁.slots_le
      obtain ⟨he₂, hb'⟩ := copyBinding_spec hcopy (he₁.closed hs) hb h₂
      refine ⟨he₁.trans he₂, fun name' b'' hm => ?_⟩
      obtain h' | hm := List.mem_cons.1 hm
      · cases h'
        exact .since he₁ hb'
      · exact (hr name' b'' hm).mono he₂

/-- **The copy of a scope adds cells only**, whatever closures the scope holds. -/
theorem copyScope_spec : ∀ n : Nat, CopiesScopes (copyScope n)
  | 0 => fun _ _ _ _ _ _ h => by cases h
  | n + 1 => fun s _ scope copied hs hf h => by
      have hl : ∀ name b, (name, b) ∈ scope.entries → b.slot.index < s.slots.size :=
        fun name b hb => hf name b ((scope.mem_entries_iff name b).1 hb)
      obtain ⟨he, hr⟩ := transformEntries_spec (copyScope_spec n) hs hl
        (FiniteMap.transform_eq_some h)
      exact ⟨he, fun name b hb => hr name b ((copied.mem_entries_iff name b).2 hb)⟩

/-! ### Copies of values -/

/-- A captured scope is new, and nothing else has captured it. -/
theorem capture_spec (hs : s.Closed) {scope : Scope} (hf : s.Fits scope) {a : Address .scope}
    (h : s.capture scope = some (a, s')) : s.Enlarges s' ∧ s.Fresh s' a := by
  obtain ⟨⟨copied, s₁⟩, hc, h⟩ := Option.map_eq_some_iff.1 h
  cases h
  obtain ⟨he, hf'⟩ := copyScope_spec _ _ _ _ _ hs hf hc
  exact ⟨he.newScope hf', he.fresh hs copied⟩

theorem detach_spec (hs : s.Closed) {c c' : Closure} (h : s.detach c = some (c', s')) :
    s.Enlarges s' ∧ s.Fresh s' c'.captured ∧ c'.byRef = c.byRef := by
  obtain ⟨⟨a, s₁⟩, ha, h⟩ := Option.map_eq_some_iff.1 h
  cases h
  obtain ⟨he, hf⟩ := capture_spec hs (hs.fits c.captured) ha
  exact ⟨he, hf, rfl⟩

/-- **A value is stored as it is if it captures by reference, and otherwise as the only owner of a
new scope.** -/
theorem copy_spec (hs : s.Closed) {v w : Value} (h : s.copy v = some (w, s')) :
    s.Enlarges s' ∧ ∀ c, w = .closure c →
      c.byRef = true ∧ v = .closure c ∨ c.byRef = false ∧ s.Fresh s' c.captured := by
  cases v with
  | closure c =>
      simp only [copy] at h
      split at h
      · next hr =>
          cases h
          refine ⟨.refl hs, ?_⟩
          rintro _ ⟨⟩
          exact .inl ⟨hr, rfl⟩
      · next hr =>
          obtain ⟨⟨c', s₁⟩, hc, h⟩ := Option.map_eq_some_iff.1 h
          cases h
          obtain ⟨he, hf, hr'⟩ := detach_spec hs hc
          refine ⟨he, ?_⟩
          rintro _ ⟨⟩
          exact .inr ⟨hr'.trans (by simpa using hr), hf⟩
  | _ =>
      cases h
      exact ⟨.refl hs, nofun⟩

/-- **A value leaves its activation as the only owner of a new scope.** -/
theorem release_spec (hs : s.Closed) {v w : Value} (h : s.release v = some (w, s')) :
    s.Enlarges s' ∧ ∀ c, w = .closure c → s.Fresh s' c.captured := by
  cases v with
  | closure c =>
      obtain ⟨⟨c', s₁⟩, hc, h⟩ := Option.map_eq_some_iff.1 h
      cases h
      obtain ⟨he, hf, -⟩ := detach_spec hs hc
      refine ⟨he, ?_⟩
      rintro _ ⟨⟩
      exact hf
  | _ =>
      cases h
      exact ⟨.refl hs, nofun⟩

/-- The copy of a closure is a closure. -/
theorem closure_of_copy {c : Closure} {w : Value} (h : s.copy (.closure c) = some (w, s')) :
    ∃ d, w = .closure d := by
  simp only [copy] at h
  split at h
  · cases h
    exact ⟨c, rfl⟩
  · obtain ⟨⟨d, s₁⟩, -, h⟩ := Option.map_eq_some_iff.1 h
    cases h
    exact ⟨d, rfl⟩

theorem closure_of_release {c : Closure} {w : Value} (h : s.release (.closure c) = some (w, s')) :
    ∃ d, w = .closure d := by
  obtain ⟨⟨d, s₁⟩, -, h⟩ := Option.map_eq_some_iff.1 h
  cases h
  exact ⟨d, rfl⟩

/-- **An environment shows the bindings of its scopes**, the inner ones before the outer ones. -/
theorem get?_overlay (s : Store) (name : String) :
    ∀ l : List (Address .scope),
      (s.overlay l).get? name = l.findSome? fun a => s.binding? a name
  | [] => rfl
  | a :: l => by
      rw [overlay, FiniteMap.get?_extend, get?_overlay s name l, List.findSome?_cons]
      change (s.binding? a name).or _ = _
      cases s.binding? a name <;> rfl

theorem get?_visible (s : Store) (e : Environment) (name : String) :
    (s.visible e).get? name = s.lookup e name :=
  get?_overlay s name e.scopes

/-- The bindings that some scopes show, where an earlier scope hides the later ones. -/
def shown (l : List Scope) (n : String) : Option Binding := l.findSome? fun scope => scope.get? n

theorem shown_cons (scope : Scope) (l : List Scope) (n : String) :
    shown (scope :: l) n = (scope.get? n).or (shown l n) := by
  rw [shown, List.findSome?_cons]
  cases scope.get? n <;> rfl

/-- The bindings of an environment are those that its scopes show. -/
theorem shown_scopes (s : Store) (e : Environment) (n : String) :
    shown (e.scopes.map s.scope) n = s.lookup e n := by
  rw [shown, List.findSome?_map]
  rfl

/-- What is flattened first is hidden by the copy of the scope in front. -/
theorem flatten_cons_eq_some {scope flat : Scope} {l : List Scope}
    (h : s.flatten (scope :: l) = some (flat, s')) :
    ∃ flat₁ s₁ copied, s.flatten l = some (flat₁, s₁) ∧
      s₁.copyScope s₁.copyBound scope = some (copied, s') ∧ flat = flat₁.extend copied := by
  obtain ⟨⟨flat₁, s₁⟩, h₁, h⟩ := Option.bind_eq_some_iff.1 h
  obtain ⟨⟨copied, s₂⟩, h₂, h⟩ := Option.bind_eq_some_iff.1 h
  cases h
  exact ⟨flat₁, s₁, copied, h₁, h₂, rfl⟩

/-- The scopes of an environment are copied one after the other. -/
theorem flatten_spec (hs : s.Closed) : ∀ {l : List Scope} {flat : Scope} {s' : Store},
    (∀ scope ∈ l, s.Fits scope) → s.flatten l = some (flat, s') →
      s.Enlarges s' ∧ ∀ name b, flat.get? name = some b → s.Renewed s' b
  | [], _, _, _, h => by
      cases h
      exact ⟨.refl hs, nofun⟩
  | scope :: l, flat, s', hl, h => by
      obtain ⟨hscope, hl⟩ := List.forall_mem_cons.1 hl
      obtain ⟨flat₁, s₁, copied, h₁, h₂, rfl⟩ := flatten_cons_eq_some h
      obtain ⟨he₁, hflat⟩ := flatten_spec hs hl h₁
      obtain ⟨he₂, hcopied⟩ := copyScope_spec _ _ _ _ _ (he₁.closed hs) (hscope.enlarges he₁) h₂
      refine ⟨he₁.trans he₂, fun name b hb => ?_⟩
      rw [FiniteMap.get?_extend, Option.or_eq_some_iff] at hb
      obtain hb | ⟨-, hb⟩ := hb
      · exact .since he₁ (hcopied name b hb)
      · exact (hflat name b hb).mono he₂

/-- **A snapshot is a new scope that nothing else has captured.** -/
theorem snapshot_spec (hs : s.Closed) {e : Environment} {a : Address .scope}
    (h : s.snapshot e = some (a, s')) : s.Enlarges s' ∧ s.Fresh s' a := by
  obtain ⟨⟨flat, s₁⟩, hflat, h⟩ := Option.map_eq_some_iff.1 h
  cases h
  obtain ⟨he, hf⟩ := flatten_spec hs (List.forall_mem_map.2 fun a _ => hs.fits a) hflat
  exact ⟨he.newScope hf, he.fresh hs flat⟩

end Store
end ProtoScript
