import ProtoScript.Proofs.Copying
/-!
# What a copy holds

A copy of a value is the value itself, unless the value is a closure that captures
by value.  Then it is the closure with a new scope, which binds the same names: a
reference is the same binding, and in place of an owned binding there is one of a
new slot with a copy of what the old slot holds (`Store.Duplicate`).

No two bindings share a slot that copying has made (`Store.Spreads`).  For a copy
gets a slot that nothing is bound to, and while others are made it is bound by
nothing else, since the references among the copies are references that were there
before.
-/

namespace ProtoScript
namespace Store

/-- Every binding of those that are given by name is one of the store. -/
def Shows (s : Store) (bindings : String → Option Binding) : Prop :=
  ∀ n b, bindings n = some b → ∃ x m, s.binding? x m = some b

/-- Nothing is bound to a slot. -/
def Unbound (s : Store) (σ : Address .slot) : Prop :=
  ∀ x m b, s.binding? x m = some b → b.slot ≠ σ

/-- A change that makes no reference but copies of others, and after which every new slot has one
binding at most. -/
structure Spreads (s s' : Store) : Prop where
  reference : ∀ x m b, s'.binding? x m = some b → b.byRef = true → ∃ y k, s.binding? y k = some b
  unique : ∀ x m b y k c, s'.binding? x m = some b → s'.binding? y k = some c →
    s.slots.size ≤ b.slot.index → b.slot = c.slot → x = y ∧ m = k

/-- How a binding is copied: a reference stays what it is, and an owned slot is replaced by a new
one. -/
structure CopiedAs (s s' : Store) (b b' : Binding) : Prop where
  fits : b'.slot.index < s'.slots.size
  reference : b.byRef = true → b' = b
  owned : b.byRef = false → b'.byRef = false ∧ s.slots.size ≤ b'.slot.index

/-- The second value, with the store `s'`, is a copy of the first one, with the store `s`. -/
inductive Duplicate (s s' : Store) : Value → Value → Prop where
  /-- What is no closure, or captures by reference, is the same value. -/
  | shared {v : Value} (h : ∀ c, v = .closure c → c.byRef = true) : Duplicate s s' v v
  /-- A closure that captures by value has a new scope with copies of what it captured. -/
  | closure {c : Closure} {a : Address .scope} (byRef : c.byRef = false)
      (le : s.scopes.size ≤ a.index) (lt : a.index < s'.scopes.size)
      (names : ∀ n, (s'.binding? a n).isSome = (s.binding? c.captured n).isSome)
      (binding : ∀ n b b', s.binding? c.captured n = some b → s'.binding? a n = some b' →
        s.CopiedAs s' b b')
      (value : ∀ n b b', s.binding? c.captured n = some b → s'.binding? a n = some b' →
        b.byRef = false → Duplicate s s' (s.value b.slot) (s'.value b'.slot)) :
      Duplicate s s' (.closure c) (.closure { c with captured := a })

variable {s s' s'' : Store} {v w : Value} {b b' : Binding}

/-- What a closure in a slot captured is there. -/
theorem Closed.captured_lt_of_value (hs : s.Closed) {a : Address .slot} {c : Closure}
    (h : s.value a = .closure c) : c.captured.index < s.scopes.size :=
  hs.captured_lt (content?_slot_of_value h (by simp))

/-! ### Later changes -/

/-- A change after `s'` that leaves alone what has been made since `s`. -/
structure Retains (s s' s'' : Store) : Prop where
  slots_le : s'.slots.size ≤ s''.slots.size
  scopes_le : s'.scopes.size ≤ s''.scopes.size
  scope : ∀ a : Address .scope, s.scopes.size ≤ a.index → a.index < s'.scopes.size →
    s''.scope a = s'.scope a
  value : ∀ σ : Address .slot, s.slots.size ≤ σ.index → σ.index < s'.slots.size →
    s''.value σ = s'.value σ

theorem Enlarges.retains (h : s'.Enlarges s'') : s.Retains s' s'' :=
  ⟨h.slots_le, h.scopes_le, fun a _ ha => h.scope a ha, fun _ _ hσ => h.value_eq hσ⟩

theorem retains_newSlot (s s' : Store) (v : Value) : s.Retains s' (s'.newSlot v) := by
  refine ⟨?_, Nat.le_refl _, fun _ _ _ => rfl, fun _ _ hσ => value_newSlot_of_lt hσ v⟩
  rw [size_slots_newSlot]
  exact Nat.le_succ _

theorem retains_newScope (s s' : Store) (scope : Scope) : s.Retains s' (s'.newScope scope) := by
  refine ⟨Nat.le_refl _, ?_, fun a _ ha => ?_, fun _ _ _ => rfl⟩
  · rw [size_scopes_newScope]
    exact Nat.le_succ _
  · rw [scope_newScope, if_neg (Heap.ne_fresh_of_lt ha)]

namespace CopiedAs

theorem retained (hb : s.CopiedAs s' b b') (h : s.Retains s' s'') : s.CopiedAs s'' b b' :=
  ⟨Nat.lt_of_lt_of_le hb.fits h.slots_le, hb.reference, hb.owned⟩

theorem since (h : s.Enlarges s') (hb : s'.CopiedAs s'' b b') : s.CopiedAs s'' b b' :=
  ⟨hb.fits, hb.reference, fun hr => (hb.owned hr).imp_right (Nat.le_trans h.slots_le)⟩

/-- A copy is a reference exactly if the original is one. -/
theorem byRef_eq (hb : s.CopiedAs s' b b') : b'.byRef = b.byRef := by
  cases hr : b.byRef with
  | true => rw [hb.reference hr, hr]
  | false => exact (hb.owned hr).1

end CopiedAs

/-- **A copy stays one while what it consists of is left alone.** -/
theorem Duplicate.retained (hv : s.Duplicate s' v w) (h : s.Retains s' s'') :
    s.Duplicate s'' v w := by
  induction hv with
  | shared hc => exact .shared hc
  | @closure c a hr hle hlt hnames hbinding hvalue ih =>
      have hscope (n : String) : s''.binding? a n = s'.binding? a n := by
        rw [binding?, binding?, h.scope a hle hlt]
      refine .closure hr hle (Nat.lt_of_lt_of_le hlt h.scopes_le) (fun n => ?_)
        (fun n b b' hb hb' => ?_) (fun n b b' hb hb' hbr => ?_)
      · rw [hscope, hnames]
      · rw [hscope] at hb'
        exact (hbinding n b b' hb hb').retained h
      · rw [hscope] at hb'
        have hcopied := hbinding n b b' hb hb'
        rw [h.value b'.slot (hcopied.owned hbr).2 hcopied.fits]
        exact ih n b b' hb hb' hbr

/-- A copy that is made later is a copy of what was there before. -/
theorem Duplicate.since (hs : s.Closed) (h : s.Enlarges s') (hd : s'.Duplicate s'' v w)
    (hv : ∀ c, v = .closure c → c.captured.index < s.scopes.size) : s.Duplicate s'' v w := by
  induction hd with
  | shared hc => exact .shared hc
  | @closure c a hr hle hlt hnames hbinding hvalue ih =>
      have hscope (n : String) : s'.binding? c.captured n = s.binding? c.captured n := by
        rw [binding?, binding?, h.scope _ (hv c rfl)]
      refine .closure hr (Nat.le_trans h.scopes_le hle) hlt (fun n => ?_)
        (fun n b b' hb hb' => ?_) (fun n b b' hb hb' hbr => ?_)
      · rw [hnames, hscope]
      · exact .since h (hbinding n b b' ((hscope n).trans hb) hb')
      · have hkept := h.value_eq (hs.binding _ n b hb)
        rw [← hkept]
        refine ih n b b' ((hscope n).trans hb) hb' hbr fun d hd => ?_
        rw [hkept] at hd
        exact hs.captured_lt_of_value hd

theorem Shows.fits (hs : s.Closed) {scope : Scope} (h : s.Shows scope.get?) : s.Fits scope := by
  intro n b hb
  obtain ⟨x, m, hx⟩ := h n b hb
  exact hs.binding x m b hx

theorem shows_scope (s : Store) (a : Address .scope) : s.Shows (s.scope a).get? :=
  fun n _ hb => ⟨a, n, hb⟩

/-- What is bound in a store is bound after copies were made. -/
theorem Shows.enlarges {bindings : String → Option Binding} (h : s.Shows bindings)
    (he : s.Enlarges s') : s'.Shows bindings := by
  intro n b hb
  obtain ⟨x, m, hx⟩ := h n b hb
  refine ⟨x, m, ?_⟩
  rwa [binding?, he.scope x (lt_of_binding? hx)]

/-! ### Bindings of new slots -/

namespace Spreads

theorem of_closed (hs : s.Closed) : s.Spreads s where
  reference x m _ hb _ := ⟨x, m, hb⟩
  unique x m _ _ _ _ hb _ hle _ := absurd (hs.binding x m _ hb) (Nat.not_lt_of_le hle)

/-- Slots may be added. -/
theorem newSlot (h : s.Spreads s') (v : Value) : s.Spreads (s'.newSlot v) :=
  ⟨h.reference, h.unique⟩

theorem trans (hs : s.Closed) (h : s.Spreads s') (he' : s'.Enlarges s'') (h' : s'.Spreads s'') :
    s.Spreads s'' where
  reference x m b hb hr := by
    obtain ⟨y, k, hy⟩ := h'.reference x m b hb hr
    exact h.reference y k b hy hr
  unique x m b y k c hb hc hle heq := by
    by_cases hlt : b.slot.index < s'.slots.size
    · -- A binding of a slot that the first change made is one of the first change.
      have hold : ∀ z l d, s''.binding? z l = some d → d.slot = b.slot →
          s'.binding? z l = some d := by
        intro z l d hd hdb
        cases hr : d.byRef with
        | true =>
            obtain ⟨z', l', hd'⟩ := h'.reference z l d hd hr
            obtain ⟨z'', l'', hd''⟩ := h.reference z' l' d hd' hr
            have := hs.binding z'' l'' d hd''
            rw [hdb] at this
            omega
        | false =>
            obtain hd | hle' := he'.owned z l d hd hr
            · exact hd
            · rw [hdb] at hle'
              omega
      exact h.unique x m b y k c (hold x m b hb rfl) (hold y k c hc heq.symm) hle heq
    · exact h'.unique x m b y k c hb hc (Nat.le_of_not_lt hlt) heq

end Spreads

/-- A slot that nothing is bound to stays so while copies are made. -/
theorem Unbound.spreads {σ : Address .slot} (hσ : s.Unbound σ) (hlt : σ.index < s.slots.size)
    (he : s.Enlarges s') (h : s.Spreads s') : s'.Unbound σ := by
  rintro x m b hb rfl
  cases hr : b.byRef with
  | true =>
      obtain ⟨y, k, hy⟩ := h.reference x m b hb hr
      exact hσ y k b hy rfl
  | false =>
      obtain hb | hle := he.owned x m b hb hr
      · exact hσ x m b hb rfl
      · omega

/-! ### Copies of scopes -/

/-- A copy of a binding to which nothing is bound yet. -/
structure Doubles (s s' : Store) (b b' : Binding) : Prop extends s.CopiedAs s' b b' where
  value : b.byRef = false → s.Duplicate s' (s.value b.slot) (s'.value b'.slot)
  unbound : b.byRef = false → s'.Unbound b'.slot

namespace Doubles

theorem later (hb : s.Doubles s' b b') (he : s'.Enlarges s'') (h : s'.Spreads s'') :
    s.Doubles s'' b b' where
  toCopiedAs := hb.toCopiedAs.retained he.retains
  value hr := by
    rw [he.value_eq hb.fits]
    exact (hb.value hr).retained he.retains
  unbound hr := (hb.unbound hr).spreads hb.fits he h

theorem since (hs : s.Closed) (h : s.Enlarges s') (hfit : b.slot.index < s.slots.size)
    (hb : s'.Doubles s'' b b') : s.Doubles s'' b b' where
  toCopiedAs := .since h hb.toCopiedAs
  value hr := by
    rw [← h.value_eq hfit]
    refine (hb.value hr).since hs h fun c hc => ?_
    rw [h.value_eq hfit] at hc
    exact hs.captured_lt_of_value hc
  unbound := hb.unbound

end Doubles

/-- The bindings `copied`, which are not in the store yet, are a copy of the bindings `original`,
which are given by name. -/
structure Redraws (s s' : Store) (original copied : String → Option Binding) : Prop where
  names : ∀ n, (copied n).isSome = (original n).isSome
  binding : ∀ n b b', original n = some b → copied n = some b' → s.Doubles s' b b'
  distinct : ∀ n m b c, copied n = some b → copied m = some c → b.byRef = false →
    b.slot = c.slot → n = m

/-- What a function that copies the bindings of a scope should do to each of them. -/
def CopiesBindings (copy : Store → Scope → Option (Scope × Store)) : Prop :=
  ∀ (s s' : Store) (scope copied : Scope), s.Closed → s.Shows scope.get? →
    copy s scope = some (copied, s') → s.Spreads s' ∧ s.Redraws s' scope.get? copied.get?

/-- A single binding is copied. -/
theorem Redraws.single (key : String) (hb : s.Doubles s' b b') :
    s.Redraws s' (fun n => if n = key then some b else none)
      (fun n => if n = key then some b' else none) := by
  refine ⟨fun n => ?_, fun n c c' hc hc' => ?_, fun n m c d hc hd _ _ => ?_⟩
  · split <;> rfl
  · split at hc
    · next hn =>
        rw [if_pos hn] at hc'
        cases hc
        cases hc'
        exact hb
    · cases hc
  · split at hc
    · next hn =>
        split at hd
        · next hm => exact hn.trans hm.symm
        · cases hd
    · cases hc

/-- Further bindings may be copied, which hide those that were copied before. -/
theorem Redraws.over (hs : s.Closed) {original copied original₁ copied₁ : String → Option Binding}
    (h : s.Redraws s' original copied) (he : s.Enlarges s') (he' : s'.Enlarges s'')
    (hs'' : s'.Spreads s'') (hfit : ∀ n b, original₁ n = some b → b.slot.index < s.slots.size)
    (h₁ : s'.Redraws s'' original₁ copied₁) :
    s.Redraws s'' (fun n => (original₁ n).or (original n))
      (fun n => (copied₁ n).or (copied n)) := by
  have hold : ∀ n c', copied n = some c' → c'.slot.index < s'.slots.size ∧
      (c'.byRef = false → s.slots.size ≤ c'.slot.index) := by
    intro n c' hc'
    obtain ⟨c, hc⟩ := Option.isSome_iff_exists.1 ((h.names n).symm.trans (by rw [hc']; rfl))
    have hcopied := h.binding n c c' hc hc'
    exact ⟨hcopied.fits, fun hr => (hcopied.owned (hcopied.byRef_eq ▸ hr)).2⟩
  -- A new slot is not that of a binding that was copied before.
  have hne : ∀ n m c d, copied n = some c → copied₁ m = some d →
      d.byRef = false ∨ c.byRef = false → d.slot ≠ c.slot := by
    intro n m c d hc hd hor heq
    obtain ⟨hlt, hle⟩ := hold n c hc
    obtain ⟨b, hb⟩ := Option.isSome_iff_exists.1 ((h₁.names m).symm.trans (by rw [hd]; rfl))
    have hbd := h₁.binding m b d hb hd
    cases hr : b.byRef with
    | true =>
        obtain rfl := hbd.reference hr
        obtain hr' | hr' := hor
        · exact absurd (hr'.symm.trans hr) Bool.false_ne_true
        · have := hfit m _ hb
          have := hle hr'
          rw [← heq] at this
          omega
    | false =>
        have := (hbd.owned hr).2
        rw [heq] at this
        omega
  refine ⟨fun n => ?_, fun n c c' hc hc' => ?_, fun n m c d hc hd hr heq => ?_⟩
  · rw [Option.isSome_or, Option.isSome_or, h.names, h₁.names]
  · rw [Option.or_eq_some_iff] at hc hc'
    have hnames := h₁.names n
    obtain hc | ⟨hn, hc⟩ := hc
    · obtain hc' | ⟨hn', -⟩ := hc'
      · exact .since hs he (hfit n c hc) (h₁.binding n c c' hc hc')
      · rw [hc, hn'] at hnames
        cases hnames
    · obtain hc' | ⟨-, hc'⟩ := hc'
      · rw [hc', hn] at hnames
        cases hnames
      · exact (h.binding n c c' hc hc').later he' hs''
  · rw [Option.or_eq_some_iff] at hc hd
    obtain hc | ⟨-, hc⟩ := hc <;> obtain hd | ⟨-, hd⟩ := hd
    · exact h₁.distinct n m c d hc hd hr heq
    · exact absurd heq (hne m n d c hd hc (.inl hr))
    · exact absurd heq.symm (hne n m c d hc hd (.inr hr))
    · exact h.distinct n m c d hc hd hr heq

/-- A scope with copied bindings may be added. -/
theorem Spreads.newScope (hs : s.Closed) (h : s.Spreads s')
    {original : String → Option Binding} {copied : Scope} (hshow : s.Shows original)
    (hc : s.Redraws s' original copied.get?) : s.Spreads (s'.newScope copied) := by
  have horiginal : ∀ n b', copied.get? n = some b' → ∃ b, original n = some b := fun n b' hb' =>
    Option.isSome_iff_exists.1 ((hc.names n).symm.trans (by rw [hb']; rfl))
  have hreference : ∀ n b, copied.get? n = some b → b.byRef = true →
      ∃ y k, s.binding? y k = some b := by
    intro n b' hb' hr
    obtain ⟨b, hb⟩ := horiginal n b' hb'
    have hd := hc.binding n b b' hb hb'
    obtain rfl := hd.reference (hd.byRef_eq ▸ hr)
    exact hshow n _ hb
  have hunbound : ∀ n b, copied.get? n = some b → s.slots.size ≤ b.slot.index →
      b.byRef = false ∧ s'.Unbound b.slot := by
    intro n b' hb' hle
    cases hr : b'.byRef with
    | true =>
        obtain ⟨y, k, hy⟩ := hreference n b' hb' hr
        exact absurd (hs.binding y k b' hy) (Nat.not_lt_of_le hle)
    | false =>
        obtain ⟨b, hb⟩ := horiginal n b' hb'
        have hd := hc.binding n b b' hb hb'
        exact ⟨rfl, hd.unbound (hd.byRef_eq ▸ hr)⟩
  refine ⟨fun x m b hb hr => ?_, fun x m b y k c hb hc' hle heq => ?_⟩
  · rw [binding?, scope_newScope] at hb
    split at hb
    · exact hreference m b hb hr
    · exact h.reference x m b hb hr
  · rw [binding?, scope_newScope] at hb hc'
    split at hb
    · next hx =>
        obtain ⟨hr, hfree⟩ := hunbound m b hb hle
        split at hc'
        · next hy => exact ⟨hx.trans hy.symm, hc.distinct m k b c hb hc' hr heq⟩
        · exact absurd heq.symm (hfree y k c hc')
    · split at hc'
      · exact absurd heq ((hunbound k c hc' (heq ▸ hle)).2 x m b hb)
      · exact h.unique x m b y k c hb hc' hle heq

variable {copy : Store → Scope → Option (Scope × Store)}

theorem duplicate_copyWith (hcopy : CopiesScopes copy) (hbind : CopiesBindings copy)
    (hs : s.Closed) {v w : Value} (h : copyWith copy s v = some (w, s')) :
    s.Spreads s' ∧ s.Duplicate s' v w := by
  cases v with
  | closure c =>
      simp only [copyWith] at h
      split at h
      · next hr =>
          cases h
          refine ⟨.of_closed hs, .shared ?_⟩
          rintro _ ⟨⟩
          exact hr
      · next hr =>
          obtain ⟨⟨captured, s₁⟩, hc, h⟩ := Option.bind_eq_some_iff.1 h
          cases h
          obtain ⟨he, -⟩ := hcopy _ _ _ _ hs (hs.fits c.captured) hc
          obtain ⟨hsp, hd⟩ := hbind _ _ _ _ hs (shows_scope s c.captured) hc
          refine ⟨hsp.newScope hs (shows_scope s c.captured) hd, ?_⟩
          have hnew := s₁.binding?_newScope_fresh captured
          have hret := retains_newScope s s₁ captured
          refine .closure (by simpa using hr) he.scopes_le ?_ (fun n => ?_)
            (fun n b b' hb hb' => ?_) (fun n b b' hb hb' hbr => ?_)
          · rw [size_scopes_newScope]
            exact Nat.lt_succ_self _
          · rw [hnew]
            exact hd.names n
          · exact (hd.binding n b b' hb (hnew n ▸ hb')).toCopiedAs.retained hret
          · exact ((hd.binding n b b' hb (hnew n ▸ hb')).value hbr).retained hret
  | _ =>
      cases h
      exact ⟨.of_closed hs, .shared (by rintro _ ⟨⟩)⟩

theorem doubles_copyBinding (hcopy : CopiesScopes copy) (hbind : CopiesBindings copy)
    (hs : s.Closed) (hb : b.slot.index < s.slots.size)
    (h : copyBinding copy b s = some (b', s')) : s.Spreads s' ∧ s.Doubles s' b b' := by
  unfold copyBinding at h
  split at h
  · next hr =>
      cases h
      have hn : b.byRef ≠ false := by simp [hr]
      exact ⟨.of_closed hs, ⟨hb, fun _ => rfl, fun h => absurd h hn⟩, fun h => absurd h hn,
        fun h => absurd h hn⟩
  · next hr =>
      obtain ⟨⟨w, s₁⟩, hw, h⟩ := Option.bind_eq_some_iff.1 h
      cases h
      obtain ⟨he, -⟩ := copyWith_spec hcopy hs hw
      obtain ⟨hsp, hd⟩ := duplicate_copyWith hcopy hbind hs hw
      refine ⟨hsp.newSlot w, ⟨?_, fun h => absurd h hr, fun _ => ⟨rfl, he.slots_le⟩⟩, fun _ => ?_,
        fun _ x m c hc => Heap.ne_fresh_of_lt ((he.closed hs).binding x m c hc)⟩
      · rw [size_slots_newSlot]
        exact Nat.lt_succ_self _
      · rw [value_newSlot_fresh]
        exact hd.retained (retains_newSlot s s₁ w)

/-- The entries of a scope are copied one after the other. -/
theorem redraws_transformEntries (hcopy : CopiesScopes copy) (hbind : CopiesBindings copy)
    (hs : s.Closed) : ∀ {l r : List (String × Binding)} {s' : Store},
      (∀ n b, (n, b) ∈ l → b.slot.index < s.slots.size) →
        FiniteMap.transformEntries (copyBinding copy) l s = some (r, s') →
          s.Spreads s' ∧ s.Redraws s' (fun n => l.lookup n) (fun n => r.lookup n)
  | [], _, _, _, h => by
      cases h
      exact ⟨.of_closed hs, fun _ => rfl, by rintro _ _ _ ⟨⟩, by rintro _ _ _ _ ⟨⟩⟩
  | (key, b) :: l, r, s', hl, h => by
      obtain ⟨⟨r₁, s₁⟩, h₁, h⟩ := Option.bind_eq_some_iff.1 h
      obtain ⟨⟨b', s₂⟩, h₂, h⟩ := Option.map_eq_some_iff.1 h
      cases h
      have hl' : ∀ n b, (n, b) ∈ l → b.slot.index < s.slots.size :=
        fun n b hb => hl n b (List.mem_cons_of_mem _ hb)
      have hfit := hl key b List.mem_cons_self
      obtain ⟨he₁, -⟩ := transformEntries_spec hcopy hs hl' h₁
      have hfit₁ := Nat.lt_of_lt_of_le hfit he₁.slots_le
      have hs₁ := he₁.closed hs
      obtain ⟨he₂, -⟩ := copyBinding_spec hcopy hs₁ hfit₁ h₂
      obtain ⟨hsp₁, hr₁⟩ := redraws_transformEntries hcopy hbind hs hl' h₁
      obtain ⟨hsp₂, hd₂⟩ := doubles_copyBinding hcopy hbind hs₁ hfit₁ h₂
      have hlookup (c : Binding) (t : List (String × Binding)) (n : String) :
          ((key, c) :: t).lookup n = (if n = key then some c else none).or (t.lookup n) := by
        rw [List.lookup_cons]
        by_cases hn : n = key
        · rw [if_pos hn, beq_iff_eq.2 hn]
          rfl
        · rw [if_neg hn, beq_false_of_ne hn]
          rfl
      refine ⟨hsp₁.trans hs he₂ hsp₂, ?_⟩
      simp only [hlookup]
      refine hr₁.over hs he₁ he₂ hsp₂ (fun n c hc => ?_) (.single key hd₂)
      split at hc
      · cases hc
        exact hfit
      · cases hc

/-- **The copy of a scope holds copies of its bindings.** -/
theorem redraws_copyScope : ∀ n : Nat, CopiesBindings (copyScope n)
  | 0 => fun _ _ _ _ _ _ h => by cases h
  | n + 1 => fun _ _ scope _ hs hshow h =>
      redraws_transformEntries (copyScope_spec n) (redraws_copyScope n) hs
        (fun name b hb => hshow.fits hs name b ((scope.mem_entries_iff name b).1 hb))
        (FiniteMap.transform_eq_some h)

/-! ### Copies of values -/

/-- A value is copied as one that a copied scope holds. -/
theorem copyWith_copyScope (s : Store) (v : Value) :
    copyWith (copyScope s.copyBound) s v = s.copy v := by
  cases v with
  | closure c =>
      rw [copyWith, copy, detach, capture]
      cases copyScope s.copyBound s (s.scope c.captured) <;> rfl
  | _ => rfl

/-- **The copy of a value is one.** -/
theorem duplicate_copy (hs : s.Closed) (h : s.copy v = some (w, s')) : s.Duplicate s' v w := by
  rw [← copyWith_copyScope] at h
  exact (duplicate_copyWith (copyScope_spec _) (redraws_copyScope _) hs h).2

/-! ### Snapshots -/

theorem shows_lookup (s : Store) (e : Environment) : s.Shows (s.lookup e) := by
  intro n b hb
  obtain ⟨x, -, hx⟩ := lookup_eq_some hb
  exact ⟨x, n, hx⟩

/-- **The copies of some scopes, laid over each other, are copies of the bindings that the scopes
show**, although what is hidden is copied too. -/
theorem redraws_flatten (hs : s.Closed) : ∀ {l : List Scope} {flat : Scope} {s' : Store},
    (∀ scope ∈ l, s.Shows scope.get?) → s.flatten l = some (flat, s') →
      s.Spreads s' ∧ s.Redraws s' (shown l) flat.get?
  | [], _, _, _, h => by
      cases h
      exact ⟨.of_closed hs, fun _ => rfl, by rintro _ _ _ ⟨⟩, by rintro _ _ _ _ ⟨⟩⟩
  | scope :: l, flat, s', hl, h => by
      obtain ⟨hscope, hl⟩ := List.forall_mem_cons.1 hl
      obtain ⟨flat₁, s₁, copied, h₁, h₂, rfl⟩ := flatten_cons_eq_some h
      obtain ⟨he₁, -⟩ := flatten_spec hs (fun scope hm => (hl scope hm).fits hs) h₁
      obtain ⟨hsp₁, hr₁⟩ := redraws_flatten hs hl h₁
      have hs₁ := he₁.closed hs
      have hshow := hscope.enlarges he₁
      obtain ⟨he₂, -⟩ := copyScope_spec _ _ _ _ _ hs₁ (hshow.fits hs₁) h₂
      obtain ⟨hsp₂, hr₂⟩ := redraws_copyScope _ _ _ _ _ hs₁ hshow h₂
      refine ⟨hsp₁.trans hs he₂ hsp₂, ?_⟩
      rw [funext (shown_cons scope l), funext (FiniteMap.get?_extend flat₁ copied)]
      exact hr₁.over hs he₁ he₂ hsp₂ (hscope.fits hs) hr₂

/-- **A snapshot holds copies of the bindings that can be seen**, and no new slot has two
bindings. -/
theorem duplicate_snapshot (hs : s.Closed) {e : Environment} {a : Address .scope}
    (h : s.snapshot e = some (a, s')) : s.Spreads s' ∧
      (∀ n, (s'.binding? a n).isSome = (s.lookup e n).isSome) ∧
      ∀ n b b', s.lookup e n = some b → s'.binding? a n = some b' → s.CopiedAs s' b b' ∧
        (b.byRef = false → s.Duplicate s' (s.value b.slot) (s'.value b'.slot)) := by
  obtain ⟨⟨flat, s₁⟩, hflat, h⟩ := Option.map_eq_some_iff.1 h
  cases h
  obtain ⟨hsp, hd⟩ := redraws_flatten hs
    (List.forall_mem_map.2 fun a _ => s.shows_scope a) hflat
  rw [funext (s.shown_scopes e)] at hd
  have hnew := s₁.binding?_newScope_fresh flat
  have hret := retains_newScope s s₁ flat
  refine ⟨hsp.newScope hs (shows_lookup s e) hd, fun n => ?_, fun n b b' hb hb' => ?_⟩
  · rw [hnew]
    exact hd.names n
  · have hcopy := hd.binding n b b' hb (hnew n ▸ hb')
    exact ⟨hcopy.toCopiedAs.retained hret, fun hr => (hcopy.value hr).retained hret⟩

end Store
end ProtoScript
