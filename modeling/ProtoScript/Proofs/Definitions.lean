import Mathlib.Data.List.Nodup
import ProtoScript.Proofs.Mirror
/-!
# Tables of routines and their histories

A routine is offered to a table and is accepted or refused.  So a table has a
history: the routines that it has accepted, in the order in which this happened
(`RoutineTable.history`).  Whatever comes after a refusal is asked of the table
that the refusal left.

What a table has accepted is a map from names and arities to routines, and the two
levels of the table are a way to store that map (`RoutineTable.Holds`): a routine is
found under its own name and arity and nowhere else, and no name has a place
without a routine.  For a name gets its place when a routine is offered, and a
routine that is refused has a name that was there.  So every question to the table
is a question about the routines that it has accepted (`RoutineTable.Answers`).

None of the answers depends on the order: tables whose histories are permutations
of each other cannot be told apart (`RoutineTable.Holds.alike`).
-/

namespace ProtoScript

namespace FiniteMap

variable {κ α : Type} [DecidableEq κ]

/-- What was written first under a key is gone. -/
theorem insert_insert (m : FiniteMap κ α) (k : κ) (a b : α) :
    (m.insert k a).insert k b = m.insert k b := by
  simp [insert, List.filter_filter]

end FiniteMap

namespace RoutineTable

variable {t t' : RoutineTable} {accepted accepted' l : List Routine} {r : Routine} {name : String}
  {overloads : Overloads}

/-- The table has exactly the routines of a list, each under its own name and arity. -/
structure Holds (t : RoutineTable) (accepted : List Routine) : Prop where
  /-- The routines are found, and nothing else is. -/
  lookup?_eq_some_iff : ∀ name n r,
    t.lookup? name n = some r ↔ r ∈ accepted ∧ r.name = name ∧ r.arity = n
  /-- No name has a place without a routine. -/
  inhabited : ∀ name overloads, t.byName.get? name = some overloads → overloads.entries ≠ []
  /-- No two routines have the same name and arity. -/
  distinct : (accepted.map Routine.origin).Nodup

/-- Offers a routine to a table, given with the routines that it has accepted. -/
def record (s : List Routine × RoutineTable) (r : Routine) : List Routine × RoutineTable :=
  match offer r s.2 with
  | .ok _ t => (s.1 ++ [r], t)
  | .error _ t => (s.1, t)

/-- What a new table has accepted after routines have been offered to it in turn, and the table. -/
def history (l : List Routine) : List Routine × RoutineTable := l.foldl record ([], ∅)

/-! ### One offer -/

/-- The table with a routine under its name and arity. -/
def accept (t : RoutineTable) (r : Routine) : RoutineTable :=
  ⟨t.byName.insert r.name (((t.byName.get? r.name).getD ∅).insert r.arity r)⟩

theorem lookup?_eq_bind (t : RoutineTable) (name : String) (n : Nat) :
    t.lookup? name n = (t.byName.get? name).bind fun overloads => overloads.get? n := rfl

/-- The overloads of a name lead where the table leads. -/
theorem get?_eq_lookup? (h : t.byName.get? name = some overloads) (n : Nat) :
    overloads.get? n = t.lookup? name n := by
  rw [lookup?_eq_bind, h]
  rfl

theorem lookup?_accept (t : RoutineTable) (r : Routine) (name : String) (n : Nat) :
    (t.accept r).lookup? name n = if (name, n) = r.origin then some r else t.lookup? name n := by
  rw [lookup?_eq_bind, lookup?_eq_bind, accept, FiniteMap.get?_insert]
  by_cases hname : name = r.name
  · subst hname
    rw [if_pos rfl, Option.bind_some, FiniteMap.get?_insert]
    by_cases hn : n = r.arity
    · have hkey : (r.name, n) = r.origin := Prod.ext rfl hn
      rw [if_pos hn, if_pos hkey]
    · have hkey : (r.name, n) ≠ r.origin := fun h => hn (congrArg Prod.snd h)
      rw [if_neg hn, if_neg hkey]
      cases t.byName.get? r.name <;> rfl
  · rw [if_neg hname, if_neg fun h => hname (congrArg Prod.fst h)]

/-- **A routine is refused if its name and arity are taken, and the table is left as it is.**  The
name had its place, so it gets none. -/
theorem offer_of_found {s : Routine} (h : t.lookup? r.name r.arity = some s) :
    offer r t = .error (.redefined r.name r.arity) t := by
  obtain ⟨overloads, hname, hs⟩ := Option.bind_eq_some_iff.1 h
  have hcontains : overloads.contains r.arity = true := by rw [FiniteMap.contains, hs]; rfl
  simp only [offer, place, hname, hcontains, if_true]

/-- **Otherwise it is accepted.** -/
theorem offer_of_notFound (h : t.lookup? r.name r.arity = none) :
    offer r t = .ok () (t.accept r) := by
  cases hname : t.byName.get? r.name with
  | none =>
      have hcontains : (∅ : Overloads).contains r.arity = false := rfl
      simp only [offer, place, hname, hcontains, FiniteMap.insert_insert, accept]
      rfl
  | some overloads =>
      have hcontains : overloads.contains r.arity = false := by
        rw [FiniteMap.contains, get?_eq_lookup? hname, h]
        rfl
      simp only [offer, place, hname, hcontains, accept]
      rfl

/-- **A refusal names the routine and leaves the table as it is.** -/
theorem offer_eq_error {fault : Fault} (h : offer r t = .error fault t') :
    fault = .redefined r.name r.arity ∧ t' = t := by
  cases hfound : t.lookup? r.name r.arity with
  | none =>
      rw [offer_of_notFound hfound] at h
      cases h
  | some s =>
      rw [offer_of_found hfound] at h
      cases h
      exact ⟨rfl, rfl⟩

theorem define_of_found {s : Routine} (h : t.lookup? r.name r.arity = some s) :
    t.define r = .error (.redefined r.name r.arity) := by
  rw [define, offer_of_found h]

theorem define_of_notFound (h : t.lookup? r.name r.arity = none) :
    t.define r = .ok (t.accept r) := by
  rw [define, offer_of_notFound h]

/-! ### What a table with a history has -/

namespace Holds

theorem empty : (∅ : RoutineTable).Holds [] :=
  ⟨fun _ _ _ => ⟨nofun, nofun⟩, nofun, List.nodup_nil⟩

/-- A routine is found exactly if its name and arity are those of one that has been accepted. -/
theorem lookup?_eq_none_iff (h : t.Holds accepted) :
    t.lookup? r.name r.arity = none ↔ r.origin ∉ accepted.map Routine.origin := by
  rw [Option.eq_none_iff_forall_ne_some, List.mem_map]
  constructor
  · rintro hnone ⟨s, hs, horigin⟩
    exact hnone s ((h.lookup?_eq_some_iff _ _ s).2 ⟨hs, congrArg Prod.fst horigin,
      congrArg Prod.snd horigin⟩)
  · rintro hno s hs
    obtain ⟨hs, hname, harity⟩ := (h.lookup?_eq_some_iff _ _ s).1 hs
    exact hno ⟨s, hs, Prod.ext hname harity⟩

theorem accept (h : t.Holds accepted) (hr : r.origin ∉ accepted.map Routine.origin) :
    (t.accept r).Holds (accepted ++ [r]) where
  lookup?_eq_some_iff name n s := by
    rw [lookup?_accept, List.mem_append, List.mem_singleton]
    split
    · next hkey =>
        cases hkey
        constructor
        · rintro ⟨⟩
          exact ⟨.inr rfl, rfl, rfl⟩
        · rintro ⟨hs | rfl, hname, harity⟩
          · exact absurd (List.mem_map.2 ⟨s, hs, Prod.ext hname harity⟩) hr
          · rfl
    · next hkey =>
        rw [h.lookup?_eq_some_iff]
        refine and_congr_left fun ⟨hname, harity⟩ => (or_iff_left ?_).symm
        rintro rfl
        exact hkey (Prod.ext hname.symm harity.symm)
  inhabited name overloads hname := by
    rw [RoutineTable.accept, FiniteMap.get?_insert] at hname
    split at hname
    · cases hname
      exact List.cons_ne_nil _ _
    · exact h.inhabited name overloads hname
  distinct := by
    rw [List.map_append, List.nodup_append]
    exact ⟨h.distinct, List.nodup_singleton _, fun o ho o' ho' heq =>
      hr (List.mem_singleton.1 ho' ▸ heq ▸ ho)⟩

/-- **A table keeps its history**, whether it accepts a routine or refuses it. -/
theorem record {s : List Routine × RoutineTable} (h : s.2.Holds s.1) (r : Routine) :
    (record s r).2.Holds (record s r).1 := by
  unfold RoutineTable.record
  cases hfound : s.2.lookup? r.name r.arity with
  | none =>
      rw [offer_of_notFound hfound]
      exact h.accept (h.lookup?_eq_none_iff.1 hfound)
  | some _ =>
      rw [offer_of_found hfound]
      exact h

theorem foldl_record (l : List Routine) :
    ∀ {s : List Routine × RoutineTable}, s.2.Holds s.1 →
      (l.foldl RoutineTable.record s).2.Holds (l.foldl RoutineTable.record s).1 := by
  induction l with
  | nil => exact fun h => h
  | cons r l ih => exact fun h => ih (h.record r)

/-- Routines are defined in turn up to the first that is refused, and one is refused exactly if a
name and arity is repeated. -/
theorem foldlM_define (h : t.Holds accepted) :
    (∃ t', l.foldlM define t = .ok t' ∧ t'.Holds (accepted ++ l)) ∨
      ¬((accepted ++ l).map Routine.origin).Nodup ∧
        ∃ fault, l.foldlM define t = .error fault ∧ fault.kind = .name := by
  induction l generalizing t accepted with
  | nil => exact .inl ⟨t, rfl, (List.append_nil accepted).symm ▸ h⟩
  | cons r l ih =>
      rw [List.foldlM_cons]
      cases hfound : t.lookup? r.name r.arity with
      | some s =>
          obtain ⟨hs, hname, harity⟩ := (h.lookup?_eq_some_iff _ _ s).1 hfound
          refine .inr ⟨fun hnodup => ?_, _, by rw [define_of_found hfound]; rfl, rfl⟩
          rw [List.map_append, List.nodup_append] at hnodup
          exact hnodup.2.2 _ (List.mem_map_of_mem hs) _ (List.mem_map_of_mem List.mem_cons_self)
            (Prod.ext hname harity)
      | none =>
          rw [define_of_notFound hfound, List.append_cons]
          exact ih (h.accept (h.lookup?_eq_none_iff.1 hfound))

end Holds

theorem history_concat (l : List Routine) (r : Routine) :
    history (l ++ [r]) = record (history l) r := by
  rw [history, List.foldl_append]
  rfl

theorem holds_history (l : List Routine) : (history l).2.Holds (history l).1 :=
  Holds.foldl_record l Holds.empty

/-- **A program is loaded unless a name and arity is repeated.** -/
theorem ofProgram_cases (p : Program) :
    (∃ t, ofProgram p = .ok t ∧ t.Holds p.routines) ∨
      ¬(p.routines.map Routine.origin).Nodup ∧
        ∃ fault, ofProgram p = .error fault ∧ fault.kind = .name :=
  Holds.foldlM_define Holds.empty

theorem ofProgram_eq_error_iff (p : Program) :
    (∃ fault, ofProgram p = .error fault) ↔ ¬(p.routines.map Routine.origin).Nodup := by
  obtain ⟨t, ht, hholds⟩ | ⟨hrepeated, fault, hfault, -⟩ := ofProgram_cases p
  · constructor
    · rintro ⟨fault, hfault⟩
      rw [ht] at hfault
      cases hfault
    · exact fun hrepeated => absurd hholds.distinct hrepeated
  · exact ⟨fun _ => hrepeated, fun _ => ⟨fault, hfault⟩⟩

theorem kind_of_ofProgram {p : Program} {fault : Fault} (h : ofProgram p = .error fault) :
    fault.kind = .name := by
  obtain ⟨t, ht, -⟩ | ⟨-, fault', hfault, hkind⟩ := ofProgram_cases p
  · rw [h] at ht
    cases ht
  · rw [h] at hfault
    cases hfault
    exact hkind

/-! ### Answers -/

/-- What a name means without a call, where the routines of a list have been accepted. -/
inductive Means (accepted : List Routine) (name : String) :
    Except Fault (Option Routine) → Prop where
  /-- Nothing, if no routine has it. -/
  | nothing (absent : ∀ r ∈ accepted, r.name ≠ name) : Means accepted name (.ok none)
  /-- The routine that has it, if there is just one. -/
  | one {r : Routine} (mem : r ∈ accepted) (has : r.name = name)
      (only : ∀ s ∈ accepted, s.name = name → s = r) : Means accepted name (.ok (some r))
  /-- It is ambiguous, if routines of different arities have it. -/
  | several {r s : Routine} (mem : r ∈ accepted) (mem' : s ∈ accepted) (has : r.name = name)
      (has' : s.name = name) (ne : r.arity ≠ s.arity) :
      Means accepted name (.error (.ambiguous name))

/-- A name means one thing. -/
theorem Means.unique {x y : Except Fault (Option Routine)} (hx : Means accepted name x)
    (hy : Means accepted name y) : x = y := by
  cases hx with
  | nothing absent =>
      cases hy with
      | nothing => rfl
      | one mem has => exact absurd has (absent _ mem)
      | several mem _ has => exact absurd has (absent _ mem)
  | one mem has only =>
      cases hy with
      | nothing absent => exact absurd has (absent _ mem)
      | one mem' has' => rw [only _ mem' has']
      | several mem₁ mem₂ has₁ has₂ ne =>
          exact absurd ((only _ mem₁ has₁).trans (only _ mem₂ has₂).symm ▸ rfl) ne
  | several mem₁ mem₂ has₁ has₂ ne =>
      cases hy with
      | nothing absent => exact absurd has₁ (absent _ mem₁)
      | one _ _ only =>
          exact absurd ((only _ mem₁ has₁).trans (only _ mem₂ has₂).symm ▸ rfl) ne
      | several => rfl

/-- What a name means does not depend on the order of the routines. -/
theorem Means.perm {x : Except Fault (Option Routine)} (h : Means accepted name x)
    (hperm : accepted'.Perm accepted) : Means accepted' name x := by
  cases h with
  | nothing absent => exact .nothing fun r hr => absent r (hperm.mem_iff.1 hr)
  | one mem has only =>
      exact .one (hperm.mem_iff.2 mem) has fun s hs => only s (hperm.mem_iff.1 hs)
  | several mem mem' has has' ne =>
      exact .several (hperm.mem_iff.2 mem) (hperm.mem_iff.2 mem') has has' ne

/-- What a table answers that has accepted the routines of a list. -/
structure Answers (t : RoutineTable) (accepted : List Routine) : Prop where
  /-- A further routine is refused exactly if one with its name and arity has been accepted. -/
  refuses : ∀ r, (∃ fault t', offer r t = .error fault t') ↔
    ∃ s ∈ accepted, s.name = r.name ∧ s.arity = r.arity
  /-- So no two of them have the same name and arity. -/
  distinct : (accepted.map Routine.origin).Nodup
  /-- The accepted routine with a name and arity is found, if there is one. -/
  lookup : ∀ name n r, t.lookup? name n = some r ↔ r ∈ accepted ∧ r.name = name ∧ r.arity = n
  /-- A name that has a place has as many overloads as routines of that name have been accepted. -/
  overloads : ∀ name overloads, t.byName.get? name = some overloads →
    (overloads.entries.map Prod.snd).Perm (accepted.filter fun r => r.name == name)
  /-- No name has a place without a routine. -/
  inhabited : ∀ name overloads, t.byName.get? name = some overloads → 0 < overloads.size
  /-- A name is known if some accepted routine has it. -/
  containsName : ∀ name, t.containsName name = true ↔ ∃ r ∈ accepted, r.name = name
  /-- It means the routine that has it, if this is the only one. -/
  unique : ∀ name, Means accepted name (t.unique name)
  /-- A routine that is refused is an error about a name, and so is a name that is ambiguous. -/
  kind : ∀ fault, (∃ r t', offer r t = .error fault t') ∨ (∃ name, t.unique name = .error fault) →
    fault.kind = .name
  /-- Every accepted routine counts. -/
  size : t.size = accepted.length
  /-- The table is empty if none has been accepted. -/
  isEmpty : t.isEmpty = true ↔ accepted = []

/-- The routines of a table, name by name. -/
def routines (t : RoutineTable) : List Routine :=
  t.byName.entries.flatMap fun e => e.2.entries.map Prod.snd

theorem length_routines (t : RoutineTable) : t.routines.length = t.size := by
  rw [routines, size]
  induction t.byName.entries with
  | nil => rfl
  | cons e l ih => rw [List.flatMap_cons, List.length_append, List.length_map, ih]; rfl

namespace Holds

theorem refuses_iff (h : t.Holds accepted) (r : Routine) :
    (∃ fault t', offer r t = .error fault t') ↔
      ∃ s ∈ accepted, s.name = r.name ∧ s.arity = r.arity := by
  cases hfound : t.lookup? r.name r.arity with
  | none =>
      rw [offer_of_notFound hfound]
      refine iff_of_false nofun ?_
      rintro ⟨s, hs⟩
      rw [(h.lookup?_eq_some_iff _ _ s).2 hs] at hfound
      cases hfound
  | some s =>
      rw [offer_of_found hfound]
      exact iff_of_true ⟨_, _, rfl⟩ ⟨s, (h.lookup?_eq_some_iff _ _ s).1 hfound⟩

/-- The overloads of a name are accepted routines of that name, under their arities. -/
theorem mem_entries_iff (h : t.Holds accepted) (hname : t.byName.get? name = some overloads)
    (n : Nat) (r : Routine) :
    (n, r) ∈ overloads.entries ↔ r ∈ accepted ∧ r.name = name ∧ r.arity = n := by
  rw [FiniteMap.mem_entries_iff, get?_eq_lookup? hname, h.lookup?_eq_some_iff]

theorem mem_overloads_iff (h : t.Holds accepted) (hname : t.byName.get? name = some overloads)
    (r : Routine) : r ∈ overloads.entries.map Prod.snd ↔ r ∈ accepted ∧ r.name = name := by
  constructor
  · intro hr
    obtain ⟨⟨n, r⟩, he, rfl⟩ := List.mem_map.1 hr
    obtain ⟨hr, hn, -⟩ := (h.mem_entries_iff hname n r).1 he
    exact ⟨hr, hn⟩
  · rintro ⟨hr, hn⟩
    exact List.mem_map.2 ⟨(r.arity, r), (h.mem_entries_iff hname _ r).2 ⟨hr, hn, rfl⟩, rfl⟩

/-- No two overloads are the same routine, since each stands under its own arity. -/
theorem nodup_overloads (h : t.Holds accepted) (hname : t.byName.get? name = some overloads) :
    (overloads.entries.map Prod.snd).Nodup := by
  refine List.Nodup.of_map Routine.arity ?_
  have hkeys : (overloads.entries.map Prod.snd).map Routine.arity = overloads.keys := by
    rw [List.map_map]
    exact List.map_congr_left fun ⟨n, r⟩ he => ((h.mem_entries_iff hname n r).1 he).2.2
  rw [hkeys]
  exact overloads.nodup_keys

theorem nodup_accepted (h : t.Holds accepted) : accepted.Nodup := List.Nodup.of_map _ h.distinct

/-- **The overloads of a name are the accepted routines of that name**, each once. -/
theorem perm_overloads (h : t.Holds accepted) (hname : t.byName.get? name = some overloads) :
    (overloads.entries.map Prod.snd).Perm (accepted.filter fun r => r.name == name) := by
  refine (List.perm_ext_iff_of_nodup (h.nodup_overloads hname) (h.nodup_accepted.filter _)).2
    fun r => ?_
  rw [h.mem_overloads_iff hname, List.mem_filter, beq_iff_eq]

/-- **The routines of a table are those that it has accepted**, each once. -/
theorem perm_routines (h : t.Holds accepted) : t.routines.Perm accepted := by
  have hget : ∀ e ∈ t.byName.entries, t.byName.get? e.1 = some e.2 := fun e he =>
    (t.byName.mem_entries_iff e.1 e.2).1 he
  refine (List.perm_ext_iff_of_nodup (List.nodup_flatMap.2 ⟨fun e he => ?_, ?_⟩)
    h.nodup_accepted).2 fun r => ?_
  · exact h.nodup_overloads (hget e he)
  · -- Overloads of different names have different names.
    refine (List.pairwise_map.1 t.byName.nodup_keys).imp_of_mem fun {d e} hd he hne r hr hr' => ?_
    exact hne (((h.mem_overloads_iff (hget d hd) r).1 hr).2.symm.trans
      ((h.mem_overloads_iff (hget e he) r).1 hr').2)
  · rw [List.mem_flatMap]
    constructor
    · rintro ⟨e, he, hr⟩
      exact ((h.mem_overloads_iff (hget e he) r).1 hr).1
    · intro hr
      have hfound := (h.lookup?_eq_some_iff r.name r.arity r).2 ⟨hr, rfl, rfl⟩
      obtain ⟨overloads, hname, -⟩ := Option.bind_eq_some_iff.1 hfound
      exact ⟨(r.name, overloads), (t.byName.mem_entries_iff _ _).2 hname,
        (h.mem_overloads_iff hname r).2 ⟨hr, rfl⟩⟩

theorem get?_eq_none_iff (h : t.Holds accepted) (name : String) :
    t.byName.get? name = none ↔ ∀ r ∈ accepted, r.name ≠ name := by
  cases hname : t.byName.get? name with
  | none =>
      refine iff_of_true rfl ?_
      rintro r hr rfl
      have hfound := (h.lookup?_eq_some_iff r.name r.arity r).2 ⟨hr, rfl, rfl⟩
      rw [lookup?_eq_bind, hname] at hfound
      cases hfound
  | some overloads =>
      refine iff_of_false nofun fun hno => ?_
      obtain ⟨⟨n, r⟩, he⟩ := List.exists_mem_of_ne_nil _ (h.inhabited name overloads hname)
      obtain ⟨hr, hn, -⟩ := (h.mem_entries_iff hname n r).1 he
      exact hno r hr hn

/-- **What a name means**, by the number of routines that have it. -/
theorem means_unique (h : t.Holds accepted) (name : String) :
    Means accepted name (t.unique name) := by
  unfold RoutineTable.unique
  cases hname : t.byName.get? name with
  | none => exact .nothing ((h.get?_eq_none_iff name).1 hname)
  | some overloads =>
      have hmem := h.mem_entries_iff hname
      have hne := h.inhabited name overloads hname
      have hkeys := overloads.nodup_keys
      dsimp only
      cases hl : overloads.entries with
      | nil => exact absurd hl hne
      | cons e rest =>
          obtain ⟨n, r⟩ := e
          rw [hl] at hmem hkeys
          obtain ⟨hr, hn, harity⟩ := (hmem n r).1 List.mem_cons_self
          have hsize : overloads.size = rest.length + 1 := congrArg List.length hl
          cases rest with
          | nil =>
              rw [if_neg (by rw [hsize]; decide)]
              exact .one hr hn fun s hs hsn =>
                congrArg Prod.snd (List.mem_singleton.1 ((hmem s.arity s).2 ⟨hs, hsn, rfl⟩))
          | cons e' rest =>
              obtain ⟨k, s⟩ := e'
              obtain ⟨hs, hsn, harity'⟩ := (hmem k s).1 (List.mem_cons_of_mem _ List.mem_cons_self)
              rw [if_pos (by rw [hsize, List.length_cons]; omega)]
              refine .several hr hs hn hsn fun heq => (List.nodup_cons.1 hkeys).1 ?_
              rw [harity, harity'] at heq
              exact heq ▸ List.mem_cons_self

theorem kind_of_offer {fault : Fault} (h : offer r t = .error fault t') : fault.kind = .name := by
  rw [(offer_eq_error h).1]
  rfl

theorem kind_of_unique {fault : Fault} (h : t.unique name = .error fault) :
    fault.kind = .name := by
  unfold RoutineTable.unique at h
  split at h
  · cases h
  · split at h <;> cases h
    rfl

/-- **The answers of a table are those of its history.** -/
theorem answers (h : t.Holds accepted) : t.Answers accepted where
  refuses := h.refuses_iff
  distinct := h.distinct
  lookup := h.lookup?_eq_some_iff
  overloads _ _ := h.perm_overloads
  inhabited name overloads hname := List.length_pos_iff.2 (h.inhabited name overloads hname)
  containsName name := by
    rw [containsName, FiniteMap.contains, Option.isSome_iff_ne_none, ne_eq, h.get?_eq_none_iff]
    simp
  unique := h.means_unique
  kind := by
    rintro fault (⟨r, t', hr⟩ | ⟨name, hn⟩)
    · exact kind_of_offer hr
    · exact kind_of_unique hn
  size := by rw [← length_routines, h.perm_routines.length_eq]
  isEmpty := by
    rw [isEmpty, List.isEmpty_iff]
    constructor
    · intro hnil
      have hperm := h.perm_routines
      rw [routines, hnil] at hperm
      exact List.nil_perm.1 hperm
    · rintro rfl
      refine List.eq_nil_iff_forall_not_mem.2 fun e he => ?_
      have hnone := (h.get?_eq_none_iff e.1).2 fun r hr => absurd hr List.not_mem_nil
      rw [(t.byName.mem_entries_iff e.1 e.2).1 he] at hnone
      cases hnone

end Holds

/-! ### Tables that cannot be told apart -/

/-- Every question to a table has the same answer. -/
structure Alike (t t' : RoutineTable) : Prop where
  lookup : ∀ name n, t'.lookup? name n = t.lookup? name n
  containsName : ∀ name, t'.containsName name = t.containsName name
  unique : ∀ name, t'.unique name = t.unique name
  size : t'.size = t.size
  isEmpty : t'.isEmpty = t.isEmpty

/-- **The order of the definitions does not matter.** -/
theorem Holds.alike (h : t.Holds accepted) (h' : t'.Holds accepted')
    (hperm : accepted'.Perm accepted) : t.Alike t' where
  lookup name n := Option.ext fun r => by
    rw [h.lookup?_eq_some_iff, h'.lookup?_eq_some_iff, hperm.mem_iff]
  containsName name := by
    rw [Bool.eq_iff_iff, h.answers.containsName, h'.answers.containsName]
    simp only [hperm.mem_iff]
  unique name := (h'.means_unique name).unique ((h.means_unique name).perm hperm)
  size := by rw [h.answers.size, h'.answers.size, hperm.length_eq]
  isEmpty := by
    rw [Bool.eq_iff_iff, h.answers.isEmpty, h'.answers.isEmpty]
    exact ⟨fun hnil => List.nil_perm.1 (hnil ▸ hperm), fun hnil => List.perm_nil.1 (hnil ▸ hperm)⟩

end RoutineTable
end ProtoScript
