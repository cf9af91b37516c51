/-!
# Finite maps

A finite map is a list of entries in which no key occurs twice, so a key has at
most one value and the number of entries is the number of keys.  Scopes, the
fields of an object, the overloads of a program and the files of a directory
are finite maps.  The view is `get?`; `insert` is the only way to write.
-/

namespace ProtoScript

universe u v w x

/-- A finite map from keys to values: entries with pairwise different keys. -/
structure FiniteMap (κ : Type u) (α : Type v) where
  /-- The entries, the one written last first. -/
  entries : List (κ × α)
  /-- No key occurs in two entries. -/
  nodup_keys : (entries.map Prod.fst).Nodup

namespace FiniteMap

variable {κ : Type u} {α : Type v} {β : Type w} {σ : Type x}

/-- The map without entries. -/
def empty : FiniteMap κ α := ⟨[], List.nodup_nil⟩

instance : EmptyCollection (FiniteMap κ α) := ⟨empty⟩

instance : Inhabited (FiniteMap κ α) := ⟨empty⟩

/-- The keys, each once. -/
def keys (m : FiniteMap κ α) : List κ := m.entries.map Prod.fst

/-- The number of keys. -/
def size (m : FiniteMap κ α) : Nat := m.entries.length

/-- Replaces the value of each entry, from the last entry to the first, where `f` may fail and each
replacement starts from the state that the one before it left. -/
def transformEntries (f : α → σ → Option (β × σ)) :
    List (κ × α) → σ → Option (List (κ × β) × σ)
  | [], s => some ([], s)
  | (k, a) :: l, s =>
      (transformEntries f l s).bind fun (r, s) => (f a s).map fun (b, s) => ((k, b) :: r, s)

/-- The keys stay. -/
theorem keys_transformEntries {f : α → σ → Option (β × σ)} {l : List (κ × α)} {s t : σ}
    {r : List (κ × β)} (h : transformEntries f l s = some (r, t)) :
    r.map Prod.fst = l.map Prod.fst := by
  induction l generalizing r t with
  | nil => cases h; rfl
  | cons e l ih =>
      obtain ⟨⟨r', s'⟩, hr, h⟩ := Option.bind_eq_some_iff.1 h
      obtain ⟨⟨b, s''⟩, _, h⟩ := Option.map_eq_some_iff.1 h
      cases h
      simp [ih hr]

/-- The map with other values of the same keys. -/
def transform (f : α → σ → Option (β × σ)) (m : FiniteMap κ α) (s : σ) :
    Option (FiniteMap κ β × σ) :=
  match h : transformEntries f m.entries s with
  | some (l, t) => some (⟨l, keys_transformEntries h ▸ m.nodup_keys⟩, t)
  | none => none

theorem transform_eq_some {f : α → σ → Option (β × σ)} {m : FiniteMap κ α} {s t : σ}
    {m' : FiniteMap κ β} (h : m.transform f s = some (m', t)) :
    transformEntries f m.entries s = some (m'.entries, t) := by
  unfold transform at h
  split at h
  · next l u hl => cases h; exact hl
  · cases h

theorem map_transform (f : α → σ → Option (β × σ)) (m : FiniteMap κ α) (s : σ) :
    (m.transform f s).map (fun r => (r.1.entries, r.2)) = transformEntries f m.entries s := by
  unfold transform
  split
  · next l t h => exact h.symm
  · next h => exact h.symm

variable [DecidableEq κ]

/-- The value of a key. -/
def get? (m : FiniteMap κ α) (k : κ) : Option α := m.entries.lookup k

/-- Whether the key has a value. -/
def contains (m : FiniteMap κ α) (k : κ) : Bool := (m.get? k).isSome

/-- Gives `k` the value `a`, in place of the value it had. -/
def insert (m : FiniteMap κ α) (k : κ) (a : α) : FiniteMap κ α where
  entries := (k, a) :: m.entries.filter fun e => decide (e.1 ≠ k)
  nodup_keys := by
    rw [List.map_cons, List.nodup_cons]
    refine ⟨fun h => ?_, ?_⟩
    · obtain ⟨e, he, hk⟩ := List.mem_map.1 h
      exact absurd hk (by simpa using (List.mem_filter.1 he).2)
    · exact (List.filter_sublist.map Prod.fst).nodup m.nodup_keys

/-- The map with the given entries, a later entry of a key in place of an earlier one. -/
def ofList (l : List (κ × α)) : FiniteMap κ α :=
  l.foldl (fun m e => m.insert e.1 e.2) ∅

/-- The entries of a second map written over a map. -/
def extend (m m' : FiniteMap κ α) : FiniteMap κ α :=
  m'.entries.foldr (fun e m => m.insert e.1 e.2) m

/-- Dropping the entries of one key does not change the value of another. -/
theorem lookup_filter_ne {k j : κ} (h : j ≠ k) :
    ∀ l : List (κ × α), (l.filter fun e => decide (e.1 ≠ k)).lookup j = l.lookup j
  | [] => rfl
  | e :: l => by
      rw [List.filter_cons]
      split
      · rw [List.lookup_cons, List.lookup_cons, lookup_filter_ne h l]
      · rename_i he
        have hk : e.1 = k := by simpa using he
        have hj : (j == e.1) = false := by simpa [hk] using h
        rw [List.lookup_cons, hj, lookup_filter_ne h l]

@[simp] theorem get?_insert_self (m : FiniteMap κ α) (k : κ) (a : α) :
    (m.insert k a).get? k = some a := by
  simp [get?, insert]

theorem get?_insert_of_ne (m : FiniteMap κ α) {k j : κ} (h : j ≠ k) (a : α) :
    (m.insert k a).get? j = m.get? j := by
  have hj : (j == k) = false := by simpa using h
  simp only [get?, insert, List.lookup_cons, hj]
  exact lookup_filter_ne h m.entries

/-- **Writing is seen at its key alone.** -/
theorem get?_insert (m : FiniteMap κ α) (k j : κ) (a : α) :
    (m.insert k a).get? j = if j = k then some a else m.get? j := by
  split
  · next h => rw [h, get?_insert_self]
  · next h => exact get?_insert_of_ne m h a

/-- The entries are the keys with their values. -/
theorem mem_entries_iff (m : FiniteMap κ α) (k : κ) (a : α) :
    (k, a) ∈ m.entries ↔ m.get? k = some a := by
  obtain ⟨entries, hn⟩ := m
  simp only [get?]
  induction entries with
  | nil => simp
  | cons e l ih =>
      rw [List.map_cons, List.nodup_cons] at hn
      rw [List.mem_cons, List.lookup_cons, ih hn.2]
      by_cases hk : k = e.1
      · subst hk
        have hl : l.lookup e.1 ≠ some a := fun h =>
          hn.1 (List.mem_map.2 ⟨(e.1, a), (ih hn.2).2 h, rfl⟩)
        simp only [hl, or_false, beq_self_eq_true, Option.some.injEq]
        exact ⟨fun h => by rw [← h], fun h => by rw [← h]⟩
      · have hb : (k == e.1) = false := by simpa using hk
        have he : (k, a) ≠ e := fun h => hk (by rw [← h])
        simp [hb, he]

/-- Entries that are written over a map hide it at their keys. -/
theorem get?_foldr_insert (m : FiniteMap κ α) (k : κ) :
    ∀ l : List (κ × α), (l.foldr (fun e m => m.insert e.1 e.2) m).get? k
      = (l.lookup k).or (m.get? k)
  | [] => by simp
  | e :: l => by
      rw [List.foldr_cons, get?_insert, get?_foldr_insert m k l, List.lookup_cons]
      by_cases hk : k = e.1
      · simp [hk]
      · have hb : (k == e.1) = false := by simpa using hk
        simp [hk, hb]

/-- **The second map hides the first one at its keys.** -/
theorem get?_extend (m m' : FiniteMap κ α) (k : κ) :
    (m.extend m').get? k = (m'.get? k).or (m.get? k) :=
  get?_foldr_insert m k m'.entries

/-- A key has a value exactly if it is among the keys. -/
theorem mem_keys_iff (m : FiniteMap κ α) (k : κ) : k ∈ m.keys ↔ (m.get? k).isSome := by
  unfold keys get?
  induction m.entries with
  | nil => simp
  | cons e l ih =>
      rw [List.map_cons, List.mem_cons, List.lookup_cons, ih]
      by_cases h : k = e.1
      · simp [h]
      · have hk : (k == e.1) = false := by simpa using h
        simp [h, hk]

end FiniteMap
end ProtoScript
