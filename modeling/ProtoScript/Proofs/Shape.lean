import ProtoScript.Proofs.Copying
/-!
# The shape of a scope

Which names a scope binds, which of them are references and to which slots: this
is its shape.  Assigning to an owned name gives it a new slot and leaves the
shape as it is; only a name that is bound anew, or a parameter, changes it.

A copy of a closure has the number, the lambda and the flag of the original and
captured a scope of the same shape (`Store.Repeats`).  Copying makes closures in
the new scopes as well, and each of these repeats one that was held before
(`Store.Breeds`).
-/

namespace ProtoScript

/-- The slot that a binding refers to, if it does not own its slot. -/
def Binding.shape (b : Binding) : Option (Address .slot) := if b.byRef then some b.slot else none

/-- The names that a scope binds, and the slots to which it refers. -/
def Scope.shape (scope : Scope) (name : String) : Option (Option (Address .slot)) :=
  (scope.get? name).map Binding.shape

namespace Store

/-- The shape of a scope of the store. -/
def shape (s : Store) (a : Address .scope) (name : String) : Option (Option (Address .slot)) :=
  (s.binding? a name).map Binding.shape

/-- The closure `c`, with the store `s'`, is what the closure `d` was with the store `s`: it differs
in the place of its captured scope at most. -/
structure Repeats (s : Store) (d : Closure) (s' : Store) (c : Closure) : Prop where
  eq : c = { d with captured := c.captured }
  shape : ∀ name, s'.shape c.captured name = s.shape d.captured name

/-- A change after which every closure that is held repeats one that was held before. -/
def Breeds (s s' : Store) : Prop :=
  ∀ p c, s'.content? p = some (.closure c) →
    ∃ q d, s.content? q = some (.closure d) ∧ s.Repeats d s' c

variable {s s' s'' : Store} {c d e : Closure}

theorem shape_eq_of_scope {a : Address .scope} (h : s'.scope a = s.scope a) (name : String) :
    s'.shape a name = s.shape a name := by
  rw [shape, shape, binding?, binding?, h]

namespace Repeats

theorem of_shape (h : ∀ name, s'.shape c.captured name = s.shape c.captured name) :
    s.Repeats c s' c := ⟨rfl, h⟩

theorem refl (s : Store) (c : Closure) : s.Repeats c s c := .of_shape fun _ => rfl

theorem trans (h : s.Repeats c s' d) (h' : s'.Repeats d s'' e) : s.Repeats c s'' e where
  eq := by rw [h'.eq, h.eq]
  shape name := (h'.shape name).trans (h.shape name)

theorem id_eq (h : s.Repeats d s' c) : c.id = d.id := by rw [h.eq]

theorem routine_eq (h : s.Repeats d s' c) : c.routine = d.routine := by rw [h.eq]

theorem byRef_eq (h : s.Repeats d s' c) : c.byRef = d.byRef := by rw [h.eq]

end Repeats

namespace Breeds

theorem refl (s : Store) : s.Breeds s := fun p c hp => ⟨p, c, hp, .refl s c⟩

theorem trans (h : s.Breeds s') (h' : s'.Breeds s'') : s.Breeds s'' := fun p c hp => by
  obtain ⟨q, d, hq, hd⟩ := h' p c hp
  obtain ⟨r, e, hr, he⟩ := h q d hq
  exact ⟨r, e, hr, he.trans hd⟩

/-- A change that is seen at no place and in no scope. -/
theorem of_eq (hc : ∀ p, s'.content? p = s.content? p) (hs : ∀ a, s'.scope a = s.scope a) :
    s.Breeds s' := fun p c hp =>
  ⟨p, c, (hc p).symm.trans hp, .of_shape (shape_eq_of_scope (hs _))⟩

/-- A scope may be added. -/
theorem newScope (h : s.Breeds s') (hs : s'.Closed) (scope : Scope) :
    s.Breeds (s'.newScope scope) := fun p c hp => by
  rw [content?_newScope] at hp
  obtain ⟨q, d, hq, hd⟩ := h p c hp
  refine ⟨q, d, hq, hd.trans (.of_shape (shape_eq_of_scope ?_))⟩
  rw [scope_newScope, if_neg (Heap.ne_fresh_of_lt (hs.captured_lt hp))]

/-- A slot with a copy may be added. -/
theorem newSlot (h : s.Breeds s') {v : Value}
    (hv : ∀ c, v = .closure c → ∃ q d, s.content? q = some (.closure d) ∧ s.Repeats d s' c) :
    s.Breeds (s'.newSlot v) := fun p c hp => by
  have hshape : s'.Repeats c (s'.newSlot v) c := .of_shape (shape_eq_of_scope rfl)
  rw [content?_newSlot] at hp
  split at hp
  · obtain ⟨q, d, hq, hd⟩ := hv c (Option.some.inj hp)
    exact ⟨q, d, hq, hd.trans hshape⟩
  · obtain ⟨q, d, hq, hd⟩ := h p c hp
    exact ⟨q, d, hq, hd.trans hshape⟩

end Breeds

/-! ### Copies of scopes -/

/-- The shape of a scope that is added. -/
theorem shape_newScope_fresh (s : Store) (scope : Scope) (name : String) :
    (s.newScope scope).shape s.scopes.fresh name = scope.shape name := by
  rw [shape, binding?_newScope_fresh]
  rfl

/-- What a function that copies the bindings of a scope should do to closures and shapes. -/
def CopiesShapes (copy : Store → Scope → Option (Scope × Store)) : Prop :=
  ∀ (s s' : Store) (scope copied : Scope), s.Closed → s.Fits scope →
    copy s scope = some (copied, s') →
      s.Breeds s' ∧ ∀ name, copied.shape name = scope.shape name

variable {copy : Store → Scope → Option (Scope × Store)}

theorem breeds_copyWith (hcopy : CopiesScopes copy) (hshape : CopiesShapes copy) (hs : s.Closed)
    {a : Address .slot} {w : Value} (h : copyWith copy s (s.value a) = some (w, s')) :
    s.Breeds s' ∧ ∀ c, w = .closure c →
      ∃ q d, s.content? q = some (.closure d) ∧ s.Repeats d s' c := by
  cases hv : s.value a with
  | closure d =>
      have hd : s.content? (.slot a) = some (.closure d) := content?_slot_of_value hv nofun
      rw [hv] at h
      simp only [copyWith] at h
      split at h
      · cases h
        refine ⟨.refl s, ?_⟩
        rintro _ ⟨⟩
        exact ⟨_, d, hd, .refl s d⟩
      · obtain ⟨⟨captured, s₁⟩, hc, h⟩ := Option.bind_eq_some_iff.1 h
        cases h
        have hfits := hs.fits d.captured
        obtain ⟨he, -⟩ := hcopy _ _ _ _ hs hfits hc
        obtain ⟨hb, hn⟩ := hshape _ _ _ _ hs hfits hc
        refine ⟨hb.newScope (he.closed hs) captured, ?_⟩
        rintro _ ⟨⟩
        refine ⟨_, d, hd, rfl, fun name => ?_⟩
        rw [shape_newScope_fresh, hn]
        rfl
  | _ =>
      rw [hv] at h
      cases h
      refine ⟨.refl s, ?_⟩
      rintro _ ⟨⟩

theorem breeds_copyBinding (hcopy : CopiesScopes copy) (hshape : CopiesShapes copy)
    (hs : s.Closed) {b b' : Binding} (h : copyBinding copy b s = some (b', s')) :
    s.Breeds s' ∧ b'.shape = b.shape := by
  unfold copyBinding at h
  split at h
  · cases h
    exact ⟨.refl s, rfl⟩
  · next hr =>
      obtain ⟨⟨w, s₁⟩, hw, h⟩ := Option.bind_eq_some_iff.1 h
      cases h
      obtain ⟨hb, hc⟩ := breeds_copyWith hcopy hshape hs hw
      refine ⟨hb.newSlot hc, ?_⟩
      rw [Binding.shape, Binding.shape, if_neg hr]
      rfl

/-- The entries of a scope are copied one after the other, and each keeps its shape. -/
theorem breeds_transformEntries (hcopy : CopiesScopes copy) (hshape : CopiesShapes copy)
    (hs : s.Closed) : ∀ {l r : List (String × Binding)} {s' : Store},
      (∀ name b, (name, b) ∈ l → b.slot.index < s.slots.size) →
        FiniteMap.transformEntries (copyBinding copy) l s = some (r, s') →
          s.Breeds s' ∧
            ∀ name, (r.lookup name).map Binding.shape = (l.lookup name).map Binding.shape
  | [], _, _, _, h => by
      cases h
      exact ⟨.refl s, fun _ => rfl⟩
  | (key, b) :: l, r, s', hl, h => by
      obtain ⟨⟨r₁, s₁⟩, h₁, h⟩ := Option.bind_eq_some_iff.1 h
      obtain ⟨⟨b', s₂⟩, h₂, h⟩ := Option.map_eq_some_iff.1 h
      cases h
      have hl' : ∀ name b, (name, b) ∈ l → b.slot.index < s.slots.size :=
        fun name b hb => hl name b (List.mem_cons_of_mem _ hb)
      have hs₁ : s₁.Closed := (transformEntries_spec hcopy hs hl' h₁).1.closed hs
      obtain ⟨hb₁, hr⟩ := breeds_transformEntries hcopy hshape hs hl' h₁
      obtain ⟨hb₂, hb'⟩ := breeds_copyBinding hcopy hshape hs₁ h₂
      refine ⟨hb₁.trans hb₂, fun name => ?_⟩
      rw [List.lookup_cons, List.lookup_cons]
      cases name == key with
      | true => exact congrArg some hb'
      | false => exact hr name

/-- **The copy of a scope has its shape**, and all closures in it are copies. -/
theorem breeds_copyScope : ∀ n : Nat, CopiesShapes (copyScope n)
  | 0 => fun _ _ _ _ _ _ h => by cases h
  | n + 1 => fun _ _ scope _ hs hf h =>
      breeds_transformEntries (copyScope_spec n) (breeds_copyScope n) hs
        (fun name b hb => hf name b ((scope.mem_entries_iff name b).1 hb))
        (FiniteMap.transform_eq_some h)

/-! ### Copies of values -/

theorem breeds_capture (hs : s.Closed) {scope : Scope} (hf : s.Fits scope) {a : Address .scope}
    (h : s.capture scope = some (a, s')) :
    s.Breeds s' ∧ ∀ name, s'.shape a name = scope.shape name := by
  obtain ⟨⟨copied, s₁⟩, hc, h⟩ := Option.map_eq_some_iff.1 h
  cases h
  obtain ⟨he, -⟩ := copyScope_spec _ _ _ _ _ hs hf hc
  obtain ⟨hb, hn⟩ := breeds_copyScope _ _ _ _ _ hs hf hc
  refine ⟨hb.newScope (he.closed hs) copied, fun name => ?_⟩
  rw [shape_newScope_fresh, hn]

theorem breeds_detach (hs : s.Closed) (h : s.detach c = some (d, s')) :
    s.Breeds s' ∧ s.Repeats c s' d := by
  obtain ⟨⟨a, s₁⟩, ha, h⟩ := Option.map_eq_some_iff.1 h
  cases h
  obtain ⟨hb, hn⟩ := breeds_capture hs (hs.fits c.captured) ha
  exact ⟨hb, rfl, hn⟩

/-- **A copy of a closure repeats it.** -/
theorem breeds_copy (hs : s.Closed) {v w : Value} (h : s.copy v = some (w, s')) :
    s.Breeds s' ∧ ∀ c, w = .closure c → ∃ d, v = .closure d ∧ s.Repeats d s' c := by
  cases v with
  | closure d =>
      simp only [copy] at h
      split at h
      · cases h
        refine ⟨.refl s, ?_⟩
        rintro _ ⟨⟩
        exact ⟨d, rfl, .refl s d⟩
      · obtain ⟨⟨c, s₁⟩, hc, h⟩ := Option.map_eq_some_iff.1 h
        cases h
        obtain ⟨hb, hd⟩ := breeds_detach hs hc
        refine ⟨hb, ?_⟩
        rintro _ ⟨⟩
        exact ⟨d, rfl, hd⟩
  | _ =>
      cases h
      refine ⟨.refl s, ?_⟩
      rintro _ ⟨⟩

/-- **So does a closure that leaves its activation.** -/
theorem breeds_release (hs : s.Closed) {v w : Value} (h : s.release v = some (w, s')) :
    s.Breeds s' ∧ ∀ c, w = .closure c → ∃ d, v = .closure d ∧ s.Repeats d s' c := by
  cases v with
  | closure d =>
      obtain ⟨⟨c, s₁⟩, hc, h⟩ := Option.map_eq_some_iff.1 h
      cases h
      obtain ⟨hb, hd⟩ := breeds_detach hs hc
      refine ⟨hb, ?_⟩
      rintro _ ⟨⟩
      exact ⟨d, rfl, hd⟩
  | _ =>
      cases h
      refine ⟨.refl s, ?_⟩
      rintro _ ⟨⟩

/-- The copies of some scopes, laid over each other, have the shape of what the scopes show. -/
theorem breeds_flatten (hs : s.Closed) : ∀ {l : List Scope} {flat : Scope} {s' : Store},
    (∀ scope ∈ l, s.Fits scope) → s.flatten l = some (flat, s') →
      s.Breeds s' ∧ ∀ name, flat.shape name = (shown l name).map Binding.shape
  | [], _, _, _, h => by
      cases h
      exact ⟨.refl s, fun _ => rfl⟩
  | scope :: l, flat, s', hl, h => by
      obtain ⟨hscope, hl⟩ := List.forall_mem_cons.1 hl
      obtain ⟨flat₁, s₁, copied, h₁, h₂, rfl⟩ := flatten_cons_eq_some h
      obtain ⟨he₁, -⟩ := flatten_spec hs hl h₁
      obtain ⟨hb₁, hflat⟩ := breeds_flatten hs hl h₁
      obtain ⟨hb₂, hcopied⟩ := breeds_copyScope _ _ _ _ _ (he₁.closed hs) (hscope.enlarges he₁) h₂
      refine ⟨hb₁.trans hb₂, fun name => ?_⟩
      have hflat := hflat name
      have hcopied := hcopied name
      rw [Scope.shape] at hflat hcopied
      rw [Scope.shape, FiniteMap.get?_extend, shown_cons, Option.map_or, Option.map_or, hflat,
        hcopied, Scope.shape]

/-- **A snapshot has the shape of what can be seen.** -/
theorem breeds_snapshot (hs : s.Closed) {env : Environment} {a : Address .scope}
    (h : s.snapshot env = some (a, s')) :
    s.Breeds s' ∧ ∀ name, s'.shape a name = (s.lookup env name).map Binding.shape := by
  obtain ⟨⟨flat, s₁⟩, hflat, h⟩ := Option.map_eq_some_iff.1 h
  cases h
  have hl : ∀ scope ∈ env.scopes.map s.scope, s.Fits scope :=
    List.forall_mem_map.2 fun a _ => hs.fits a
  obtain ⟨he, -⟩ := flatten_spec hs hl hflat
  obtain ⟨hb, hn⟩ := breeds_flatten hs hl hflat
  refine ⟨hb.newScope (he.closed hs) flat, fun name => ?_⟩
  rw [shape_newScope_fresh, hn, shown_scopes]

/-! ### Small changes -/

theorem shape_create_of_ne {a x : Address .scope} (h : x ≠ a) (key : String) (v : Value)
    (name : String) : (s.create a key v).shape x name = s.shape x name :=
  shape_eq_of_scope (scope_create_of_ne s h key v) name

/-- A new slot for an owned name leaves all shapes alone. -/
theorem shape_create_of_owned {a : Address .scope} {key : String} {b : Binding}
    (hb : s.binding? a key = some b) (hr : b.byRef = false) (v : Value) (x : Address .scope)
    (name : String) : (s.create a key v).shape x name = s.shape x name := by
  rw [shape, shape, binding?_create]
  split
  · next h =>
      rw [h.1, h.2.1, hb, Option.map_some, Option.map_some, Binding.shape, Binding.shape, hr]
      rfl
  · rfl

/-- **An assignment changes the shape of the innermost scope at most.** -/
theorem shape_assign {env : Environment} {x : Address .scope} (hx : x ≠ env.innermost)
    (key : String) (v : Value) (name : String) :
    (s.assign env key v).shape x name = s.shape x name := by
  obtain ⟨b, -, -, h⟩ | ⟨b, a, -, hb, hr, h⟩ | ⟨-, h⟩ := s.assign_cases env key v
  · rw [h]
    exact shape_eq_of_scope (scope_writeSlot s _ _ _) name
  · rw [h]
    exact shape_create_of_owned hb hr v x name
  · rw [h]
    exact shape_create_of_ne hx key v name

end Store
end ProtoScript
