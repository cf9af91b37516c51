import ProtoScript.Proofs.Copying
/-!
# What an assignment changes

Scopes are shared by environments and slots by bindings, so an assignment in one
environment can be seen in others.  What it changes is said for all scopes of the
store at once: either one slot is written, and every binding of this slot sees it
(`Store.Overwrites`), or one scope binds the name to a slot that nothing else is
bound to, and no other binding sees anything (`Store.BindsAnew`).  Which of the two
happens and where depends on the innermost scope that binds the name alone
(`Store.Finds`).

An environment sees what it finds, so this settles what any environment reads
afterwards.
-/

namespace ProtoScript

theorem Heap.mem_cells_iff {r : Region} {α : Type} {h : Heap r α} {c : α} :
    c ∈ h.cells.toList ↔ ∃ a, h.get? a = some c := by
  rw [Array.mem_toList_iff, Array.mem_iff_getElem?]
  exact ⟨fun ⟨i, hi⟩ => ⟨⟨i⟩, hi⟩, fun ⟨a, ha⟩ => ⟨a.index, ha⟩⟩

namespace Store

variable {s s' : Store} {e : Environment} {name : String} {x : Address .scope} {b : Binding}

/-! ### Closed stores -/

/-- What a value captured is among the first `n` scopes. -/
def capturesBelow (n : Nat) : Value → Prop
  | .closure c => c.captured.index < n
  | _ => True

instance (n : Nat) : DecidablePred (capturesBelow n)
  | .closure c => inferInstanceAs (Decidable (c.captured.index < n))
  | .int _ | .truth _ | .text _ | .nil | .function .. | .object _ => .isTrue trivial

theorem capturesBelow_iff {n : Nat} {v : Value} :
    capturesBelow n v ↔ ∀ c, v = .closure c → c.captured.index < n := by
  cases v with
  | closure c => exact ⟨fun h _ hc => by cases hc; exact h, fun h => h c rfl⟩
  | _ => exact ⟨fun _ c hc => (by cases hc), fun _ => trivial⟩

/-- **A store is closed if all that its cells point to is there.** -/
theorem closed_iff : s.Closed ↔
    (∀ c ∈ s.scopes.cells.toList, ∀ e ∈ c.entries, e.2.slot.index < s.slots.size) ∧
    (∀ v ∈ s.slots.cells.toList, capturesBelow s.scopes.size v) ∧
    ∀ o ∈ s.objects.cells.toList, ∀ e ∈ o.fields.entries, capturesBelow s.scopes.size e.2 := by
  constructor
  · intro hs
    refine ⟨fun c hc e he => ?_, fun v hv => ?_, fun o ho e he => ?_⟩
    · obtain ⟨a, ha⟩ := Heap.mem_cells_iff.1 hc
      have hb : s.binding? a e.1 = some e.2 := by
        rw [binding?, scope, ha]
        exact (c.mem_entries_iff e.1 e.2).1 he
      exact hs.binding a e.1 e.2 hb
    · obtain ⟨a, ha⟩ := Heap.mem_cells_iff.1 hv
      refine capturesBelow_iff.2 fun c hc => hs.captured_lt (p := .slot a) ?_
      rw [← hc]
      exact ha
    · obtain ⟨a, ha⟩ := Heap.mem_cells_iff.1 ho
      refine capturesBelow_iff.2 fun c hc => hs.captured_lt (p := .field a e.1) ?_
      rw [content?, object, ha, ← hc]
      exact (o.fields.mem_entries_iff e.1 e.2).1 he
  · rintro ⟨hscopes, hslots, hobjects⟩
    refine ⟨fun a name b hb => ?_, ?_⟩
    · rw [binding?, scope] at hb
      cases ha : s.scopes.get? a with
      | none => rw [ha] at hb; cases hb
      | some c =>
          rw [ha] at hb
          exact hscopes c (Heap.mem_cells_iff.2 ⟨a, ha⟩) _ ((c.mem_entries_iff name b).2 hb)
    · rintro _ ⟨p, c, hp, rfl⟩
      cases p with
      | slot a => exact hslots _ (Heap.mem_cells_iff.2 ⟨a, hp⟩)
      | field a name =>
          rw [content?, object] at hp
          cases ha : s.objects.get? a with
          | none => rw [ha] at hp; cases hp
          | some o =>
              rw [ha] at hp
              exact hobjects o (Heap.mem_cells_iff.2 ⟨a, ha⟩) _
                ((o.fields.mem_entries_iff name _).2 hp)

instance : Decidable s.Closed := decidable_of_iff _ closed_iff.symm

/-! ### Where a name is found -/

/-- The innermost scope of the environment that binds the name is `x`, and it binds it to `b`. -/
def Finds (s : Store) (e : Environment) (name : String) (x : Address .scope) (b : Binding) : Prop :=
  ∃ inner outer, e.scopes = inner ++ x :: outer ∧ (∀ y ∈ inner, s.binding? y name = none) ∧
    s.binding? x name = some b

theorem finds_iff : s.Finds e name x b ↔ s.home? e name = some x ∧ s.binding? x name = some b := by
  rw [home?, List.find?_eq_some_iff_append]
  constructor
  · rintro ⟨inner, outer, he, hinner, hb⟩
    exact ⟨⟨by simp [hb], inner, outer, he, fun y hy => by simp [hinner y hy]⟩, hb⟩
  · rintro ⟨⟨-, inner, outer, he, hinner⟩, hb⟩
    exact ⟨inner, outer, he, fun y hy => by simpa using hinner y hy, hb⟩

theorem Finds.lookup (h : s.Finds e name x b) : s.lookup e name = some b := by
  obtain ⟨hx, hb⟩ := finds_iff.1 h
  rw [lookup_eq_of_home? hx, hb]

/-! ### A slot is written -/

/-- The slot `σ` holds `v`, and nothing else has changed. -/
structure Overwrites (s : Store) (σ : Address .slot) (v : Value) (s' : Store) : Prop where
  /-- No scope has changed. -/
  scope : ∀ y, s'.scope y = s.scope y
  /-- Every binding of the slot sees the value, and every other binding sees what it saw. -/
  value : ∀ τ, s'.value τ = if τ = σ then v else s.value τ
  /-- Every environment sees the value where it finds a binding of the slot. -/
  read : ∀ e' m, s'.read e' m
    = (s.lookup e' m).map fun b => if b.slot = σ then v else s.value b.slot
  objects : s'.objects = s.objects

theorem overwrites_writeSlot {σ : Address .slot} (hσ : σ.index < s.slots.size) (v : Value) :
    s.Overwrites σ v (s.writeSlot σ v) := by
  have hvalue (τ : Address .slot) :
      (s.writeSlot σ v).value τ = if τ = σ then v else s.value τ := by
    rw [value, writeSlot, Heap.get?_set]
    by_cases hτ : τ = σ
    · rw [if_pos ⟨hτ, hσ⟩, if_pos hτ]
      rfl
    · rw [if_neg fun h => hτ h.1, if_neg hτ]
      rfl
  refine ⟨fun _ => rfl, hvalue, fun e' m => ?_, rfl⟩
  rw [read]
  exact congrArg (fun f => (s.lookup e' m).map f) (funext fun b => hvalue b.slot)

theorem Overwrites.binding?_eq {σ : Address .slot} {v : Value} (h : s.Overwrites σ v s')
    (y : Address .scope) (m : String) : s'.binding? y m = s.binding? y m := by
  rw [binding?, binding?, h.scope]

/-! ### A name is bound anew -/

/-- The scope `x` owns a slot with `v` under the name, and nothing else has changed. -/
structure BindsAnew (s : Store) (x : Address .scope) (name : String) (v : Value) (s' : Store) :
    Prop where
  /-- No binding was one of the slot. -/
  binding : ∃ σ, s'.binding? x name = some ⟨σ, false⟩ ∧ s'.value σ = v ∧
    ∀ y m b, s.binding? y m = some b → b.slot ≠ σ
  /-- No other name, and no name of another scope, is bound to another slot. -/
  other : ∀ y m, ¬(y = x ∧ m = name) → s'.binding? y m = s.binding? y m
  /-- Every binding that there was sees what it saw, also one of the slot that the name had. -/
  value : ∀ y m b, s.binding? y m = some b → s'.value b.slot = s.value b.slot
  /-- Every environment sees the value where it finds the name in this scope. -/
  read : ∀ e' m, s'.read e' m
    = if m = name ∧ s'.home? e' m = some x then some v else s.read e' m
  objects : s'.objects = s.objects

/-- An environment that does not find the name in `x` sees no binding of `x`. -/
theorem lookup_eq_of_home?_ne (hx : (s'.binding? x name).isSome)
    (hother : ∀ y m, ¬(y = x ∧ m = name) → s'.binding? y m = s.binding? y m) {m : String}
    (h : ¬(m = name ∧ s'.home? e m = some x)) : s'.lookup e m = s.lookup e m := by
  unfold home? at h
  unfold lookup
  generalize e.scopes = scopes at h ⊢
  -- From the inside out, `x` could stop the search in `s'` alone, and it is not where it stops.
  induction scopes with
  | nil => rfl
  | cons y l ih =>
      have hy : ¬(y = x ∧ m = name) := by
        rintro ⟨rfl, rfl⟩
        exact h ⟨rfl, by rw [List.find?_cons, hx]⟩
      rw [List.findSome?_cons, List.findSome?_cons, hother y m hy]
      cases hb : s.binding? y m with
      | some b => rfl
      | none =>
          refine ih fun hl => h ⟨hl.1, ?_⟩
          rw [List.find?_cons, hother y m hy, hb]
          exact hl.2

theorem bindsAnew_create (hs : s.Closed) (hx : x.index < s.scopes.size) (name : String)
    (v : Value) : s.BindsAnew x name v (s.create x name v) := by
  have hvalue (σ : Address .slot) (hσ : σ.index < s.slots.size) :
      (s.create x name v).value σ = s.value σ := value_newSlot_of_lt hσ v
  have hfresh : (s.create x name v).value s.slots.fresh = v := value_newSlot_fresh s v
  have hbinding : (s.create x name v).binding? x name = some ⟨s.slots.fresh, false⟩ := by
    rw [binding?_create, if_pos ⟨rfl, rfl, hx⟩]
  have hother (y : Address .scope) (m : String) (h : ¬(y = x ∧ m = name)) :
      (s.create x name v).binding? y m = s.binding? y m := by
    rw [binding?_create, if_neg fun hc => h ⟨hc.1, hc.2.1⟩]
  refine ⟨⟨_, hbinding, hfresh, fun y m b hb => ?_⟩, hother, fun y m b hb => ?_, ?_, rfl⟩
  · exact Heap.ne_fresh_of_lt (hs.binding y m b hb)
  · exact hvalue b.slot (hs.binding y m b hb)
  · intro e' m
    by_cases h : m = name ∧ (s.create x name v).home? e' m = some x
    · obtain ⟨rfl, hhome⟩ := h
      rw [if_pos ⟨rfl, hhome⟩, Store.read, lookup_eq_of_home? hhome, hbinding, Option.map_some,
        hfresh]
    · rw [if_neg h, Store.read, Store.read, lookup_eq_of_home?_ne (by simp [hbinding]) hother h]
      refine Option.map_congr fun b hb => hvalue b.slot ?_
      obtain ⟨a, -, ha⟩ := lookup_eq_some hb
      exact hs.binding a m b ha

/-! ### Assignments -/

/-- What the assignment of `v` to the name changes, where `s'` is the store after it. -/
structure Assigns (s : Store) (e : Environment) (name : String) (v : Value) (s' : Store) :
    Prop where
  /-- The variable has the value. -/
  read : s'.read e name = some v
  /-- A name that is found as a reference has its slot written. -/
  reference : ∀ x b, s.Finds e name x b → b.byRef = true → s.Overwrites b.slot v s'
  /-- A name that is found as owned is bound anew where it is found. -/
  owned : ∀ x b, s.Finds e name x b → b.byRef = false → s.BindsAnew x name v s'
  /-- A name that is found nowhere is bound in the innermost scope. -/
  unbound : s.lookup e name = none → s.BindsAnew e.innermost name v s'
  /-- If the name is found, no scope gains or loses a name. -/
  names : (s.lookup e name).isSome → ∀ y m, (s'.binding? y m).isSome = (s.binding? y m).isSome
  /-- No binding becomes a reference, and none stops being one. -/
  byRef : ∀ y m b b', s.binding? y m = some b → s'.binding? y m = some b' → b'.byRef = b.byRef

theorem assigns_writeSlot (hs : s.Closed) (h : s.Finds e name x b) (hb : b.byRef = true)
    (v : Value) : s.Assigns e name v (s.writeSlot b.slot v) := by
  have hw : s.Overwrites b.slot v (s.writeSlot b.slot v) :=
    overwrites_writeSlot (hs.binding x name b (finds_iff.1 h).2) v
  refine ⟨?_, fun y c hc _ => ?_, fun y c hc hr => ?_, fun hn => ?_, fun _ y m => ?_, ?_⟩
  · rw [hw.read, h.lookup, Option.map_some, if_pos rfl]
  · obtain rfl := Option.some.inj (hc.lookup.symm.trans h.lookup)
    exact hw
  · obtain rfl := Option.some.inj (hc.lookup.symm.trans h.lookup)
    exact absurd (hr.symm.trans hb) Bool.false_ne_true
  · exact absurd (h.lookup.symm.trans hn) (Option.some_ne_none _)
  · rw [hw.binding?_eq]
  · intro y m c c' hc hc'
    rw [hw.binding?_eq, hc] at hc'
    cases hc'
    rfl

/-- An owned binding in place of a binding that is not a reference, or of none. -/
theorem BindsAnew.byRef_eq {v : Value} (h : s.BindsAnew x name v s')
    (hx : ∀ b, s.binding? x name = some b → b.byRef = false) {y : Address .scope} {m : String}
    {b b' : Binding} (hb : s.binding? y m = some b) (hb' : s'.binding? y m = some b') :
    b'.byRef = b.byRef := by
  by_cases hy : y = x ∧ m = name
  · obtain ⟨rfl, rfl⟩ := hy
    obtain ⟨σ, hσ, -⟩ := h.binding
    cases hσ.symm.trans hb'
    exact (hx b hb).symm
  · rw [h.other y m hy, hb] at hb'
    cases hb'
    rfl

/-- What is bound anew where it is found is found there. -/
theorem BindsAnew.read_self {v : Value} (h : s.BindsAnew x name v s')
    (hx : s'.home? e name = some x) : s'.read e name = some v := by
  rw [h.read, if_pos ⟨rfl, hx⟩]

theorem assigns_create (hs : s.Closed) (h : s.Finds e name x b) (hb : b.byRef = false)
    (v : Value) : s.Assigns e name v (s.create x name v) := by
  obtain ⟨hx, hxb⟩ := finds_iff.1 h
  have hw : s.BindsAnew x name v (s.create x name v) :=
    bindsAnew_create hs (lt_of_binding? hxb) name v
  have hnames (y : Address .scope) (m : String) :
      ((s.create x name v).binding? y m).isSome = (s.binding? y m).isSome := by
    by_cases hy : y = x ∧ m = name
    · obtain ⟨rfl, rfl⟩ := hy
      obtain ⟨σ, hσ, -⟩ := hw.binding
      rw [hσ, hxb]
      rfl
    · rw [hw.other y m hy]
  refine ⟨hw.read_self ((home?_congr fun y _ => hnames y name).trans hx), fun y c hc hr => ?_,
    fun y c hc _ => ?_, fun hn => ?_, fun _ => hnames, fun y m c c' => hw.byRef_eq fun d hd => ?_⟩
  · obtain rfl := Option.some.inj (hc.lookup.symm.trans h.lookup)
    exact absurd (hb.symm.trans hr) Bool.false_ne_true
  · obtain rfl := Option.some.inj ((finds_iff.1 hc).1.symm.trans hx)
    exact hw
  · exact absurd (h.lookup.symm.trans hn) (Option.some_ne_none _)
  · cases hxb.symm.trans hd
    exact hb

theorem assigns_create_innermost (hs : s.Closed) (he : e.innermost.index < s.scopes.size)
    (h : s.lookup e name = none) (v : Value) :
    s.Assigns e name v (s.create e.innermost name v) := by
  have hw : s.BindsAnew e.innermost name v (s.create e.innermost name v) :=
    bindsAnew_create hs he name v
  have hnone : s.binding? e.innermost name = none := lookup_eq_none.1 h _ List.mem_cons_self
  have hhome : (s.create e.innermost name v).home? e name = some e.innermost := by
    obtain ⟨σ, hσ, -⟩ := hw.binding
    rw [home?, Environment.scopes, List.find?_cons, hσ]
    rfl
  refine ⟨hw.read_self hhome, fun y c hc _ => ?_, fun y c hc _ => ?_, fun _ => hw, fun hn => ?_,
    fun y m c c' => hw.byRef_eq fun d hd => ?_⟩
  · exact absurd (hc.lookup.symm.trans h) (Option.some_ne_none _)
  · exact absurd (hc.lookup.symm.trans h) (Option.some_ne_none _)
  · rw [h] at hn
    cases hn
  · exact absurd (hd.symm.trans hnone) (Option.some_ne_none _)

/-- **An assignment goes to the nearest binding**, and what it changes can be seen through that
binding alone or through those that share its slot. -/
theorem assigns_assign (hs : s.Closed) (he : e.innermost.index < s.scopes.size) (name : String)
    (v : Value) : s.Assigns e name v (s.assign e name v) := by
  obtain ⟨b, hl, hb, h⟩ | ⟨b, x, hx, hxb, hb, h⟩ | ⟨hl, h⟩ := s.assign_cases e name v
  · obtain ⟨x, hx, hxb⟩ := home?_of_lookup hl
    rw [h]
    exact assigns_writeSlot hs (finds_iff.2 ⟨hx, hxb⟩) hb v
  · rw [h]
    exact assigns_create hs (finds_iff.2 ⟨hx, hxb⟩) hb v
  · rw [h]
    exact assigns_create_innermost hs he hl v

/-- A store with two scopes: the outer one owns the slot of `x`, and the inner one refers to this
slot under the name `p` and owns the slot of `y`. -/
def aliased : Store :=
  let s := (((∅ : Store).newScope ∅).create ⟨0⟩ "x" (.int 1)).newScope ∅
  (s.share ⟨1⟩ "p" ⟨0⟩).create ⟨1⟩ "y" (.int 2)

/-- What is assigned to the reference is read in an environment that does not know the reference,
and the assignment to the owner makes the reference keep what it had.  The outer scope is installed
twice. -/
theorem assigns_assign_aliased :
    (aliased.assign ⟨⟨1⟩, [⟨0⟩, ⟨0⟩]⟩ "p" (.int 42)).read (.single ⟨0⟩) "x" = some (.int 42) ∧
      aliased.Assigns ⟨⟨1⟩, [⟨0⟩, ⟨0⟩]⟩ "p" (.int 42)
        (aliased.assign ⟨⟨1⟩, [⟨0⟩, ⟨0⟩]⟩ "p" (.int 42)) ∧
    (aliased.assign ⟨⟨1⟩, [⟨0⟩, ⟨0⟩]⟩ "x" (.int 7)).read (.single ⟨1⟩) "p" = some (.int 1) ∧
      aliased.Assigns ⟨⟨1⟩, [⟨0⟩, ⟨0⟩]⟩ "x" (.int 7)
        (aliased.assign ⟨⟨1⟩, [⟨0⟩, ⟨0⟩]⟩ "x" (.int 7)) :=
  ⟨rfl, assigns_assign (by decide) (by decide) _ _, rfl, assigns_assign (by decide) (by decide) _ _⟩

end Store
end ProtoScript
