import Mathlib.Data.Fintype.EquivFin
import ProtoScript.Proofs.Definitions
import ProtoScript.Proofs.Simulation
/-!
# Lexical scope

A program in which the variables of one routine have other names runs as it did.
The names of that routine are seen by the routine alone, with its lambdas: nothing
that it calls and nothing that calls it finds a variable by its name.  What was
captured keeps its names where it goes, so in the end values, objects and closures
differ in those names and in nothing else.

A new name changes places with the one that it replaces, so that names stay apart
(`Machine.run_alike_only`).  That the new name is then nowhere among the names of the
routine is seen from a second run, in which it is given away to a third name
(`Naming.Agree`).

A program with two routines of one name and arity is not loaded, whatever names
they have inside (`RoutineTable.ofProgram_cases`).
-/

namespace ProtoScript

variable {ν : Naming}

/-! ### Runs -/

/-- The program with other names of variables. -/
def Naming.program (ν : Naming) (p : Program) : Program := ⟨p.routines.map ν.routine⟩

/-- **A program under other names is loaded if it was**, with a table that mirrors the first. -/
theorem RoutineTable.ofProgram_mirrors {p : Program}
    (hp : ∀ r ∈ p.routines, ∀ o, ν o r.name = r.name) :
    Attempts (RoutineTable.Mirrors ν) (ofProgram p) (ofProgram (ν.program p)) := by
  have horigins : (ν.program p).routines.map Routine.origin = p.routines.map Routine.origin := by
    rw [Naming.program, List.map_map]
    exact List.map_congr_left fun r _ => ν.origin_routine r
  obtain ⟨t, ht, hholds⟩ | ⟨hrepeated, fault, hfault, hkind⟩ := ofProgram_cases p
  · obtain ⟨t', ht', hholds'⟩ | ⟨hrepeated', -⟩ := ofProgram_cases (ν.program p)
    · rw [ht, ht']
      exact .ok ⟨p.routines, hholds, hholds', hp⟩
    · rw [horigins] at hrepeated'
      exact absurd hholds.distinct hrepeated'
  · obtain ⟨t', -, hholds'⟩ | ⟨-, fault', hfault', hkind'⟩ := ofProgram_cases (ν.program p)
    · exact absurd (horigins ▸ hholds'.distinct) hrepeated
    · rw [hfault, hfault']
      exact .error (hkind'.trans hkind.symm)

theorem Store.Mirrors.empty (ν : Naming) : (∅ : Store).Mirrors ν ∅ ∅ where
  slots := ⟨rfl, fun _ => .nil⟩
  scopes := ⟨rfl, fun _ _ _ => .empty _⟩
  objects := ⟨rfl, fun _ => ⟨fun _ => .none, rfl⟩⟩
  origins := rfl

namespace Machine

/-- How the runs of two programs end: alike, on machines with the same lines printed and the same
lines to be read. -/
inductive Alike (ν : Naming) :
    EStateM.Result Halt Machine Value → EStateM.Result Halt Machine Value → Prop where
  /-- Both with values that correspond, on machines that mirror each other. -/
  | returned {v v' : Value} {m m' : Machine} {κ : Origins} {o : Origin} (hv : v.Mirrors ν κ v')
      (hm : m.Mirrors ν κ o m') : Alike ν (.ok v m) (.ok v' m')
  /-- Both with failures of one kind. -/
  | failed {f f' : Failure} {m m' : Machine} (hf : f'.fault.kind = f.fault.kind)
      (hm : m'.console = m.console) : Alike ν (.error (.failed f) m) (.error (.failed f') m')
  /-- Both beyond the bound that was set. -/
  | unfinished {m m' : Machine} (hm : m'.console = m.console) :
      Alike ν (.error .unfinished m) (.error .unfinished m')

/-- The only scope of a machine with a program loaded is that of `main`. -/
theorem load_mirrors {t t' : RoutineTable} (h : t.Mirrors ν t') (o : Origin) (m : Machine) :
    (m.load t).Mirrors ν ((∅ : Origins).push o) o (m.load t') where
  store := (Store.Mirrors.empty ν).newScope o (.empty _)
  environment := rfl
  covers := List.forall_mem_singleton.2 (Heap.get?_push_fresh _ _)
  routines := h
  console := rfl
  closures := rfl

theorem start_alike (hν : ν.Faithful) {κ : Origins} {main : Routine} {m m' : Machine}
    (hm : m.Mirrors ν κ main.origin m') (fuel : Nat) :
    Alike ν (start fuel main m) (start fuel (ν.routine main) m') := by
  have h := (simulates hν fuel).executeAll main.body m.enterMain
    m'.enterMain { hm with }
  rw [start, start, Naming.routine, Routine.body_rename]
  generalize perform fuel (.executeAll main.body) m.enterMain = r at h
  generalize perform fuel (.executeAll (Stmt.renameAll _ main.body)) m'.enterMain = r' at h
  cases h with
  | ok hκ hstatus hm =>
      cases hstatus with
      | proceed => exact .returned .nil { hm with }
      | returned hv => exact .returned hv { hm with }
  | error hh hc =>
      cases hh with
      | failed hf =>
          refine .failed ?_ hc
          rw [Failure.fault_attach, Failure.fault_attach]
          exact hf
      | unfinished => exact .unfinished hc

/-- **A program under other names runs as it did.** -/
theorem run_alike (hν : ν.Faithful) {p : Program}
    (hp : ∀ r ∈ p.routines, ∀ o, ν o r.name = r.name) (fuel : Nat) (m : Machine) :
    Alike ν (run fuel p m) (run fuel (ν.program p) m) := by
  have htable := RoutineTable.ofProgram_mirrors hp
  rw [run, run]
  generalize RoutineTable.ofProgram p = x at htable
  generalize RoutineTable.ofProgram (ν.program p) = x' at htable
  cases htable with
  | error hf => exact .failed hf rfl
  | @ok t t' ht =>
      have hmain := ht.lookup?_self mainName 0
      dsimp only
      rw [hmain]
      cases t.lookup? mainName 0 with
      | none => exact .failed rfl rfl
      | some main => exact start_alike hν (load_mirrors ht main.origin m) fuel

/-- A program that is not loaded fails, as every other one does that is not. -/
theorem alike_of_not_nodup {p p' : Program} (h : ¬(p.routines.map Routine.origin).Nodup)
    (h' : ¬(p'.routines.map Routine.origin).Nodup) (fuel : Nat) (m : Machine) :
    Alike ν (run fuel p m) (run fuel p' m) := by
  have hfails : ∀ q : Program, ¬(q.routines.map Routine.origin).Nodup →
      ∃ fault, RoutineTable.ofProgram q = .error fault ∧ fault.kind = .name := by
    intro q hq
    obtain ⟨t, -, ht⟩ | ⟨-, hfault⟩ := RoutineTable.ofProgram_cases q
    · exact absurd ht.distinct hq
    · exact hfault
  obtain ⟨fault, hload, hkind⟩ := hfails p h
  obtain ⟨fault', hload', hkind'⟩ := hfails p' h'
  rw [run, run, hload, hload']
  exact .failed (hkind'.trans hkind.symm) rfl

end Machine

/-! ### Names that are not there -/

/-- Where the first two namings give a name alike, the third gives it as they do. -/
def Naming.Agree (ν ν' μ : Naming) : Prop :=
  ∀ (o o' : Origin) (name : String), ν o name = ν' o' name → μ o name = ν o name

theorem Value.Mirrors.eq_function {κ : Origins} {edition : Nat} {r : Routine} {v : Value}
    (h : (Value.function edition r).Mirrors ν κ v) : v = .function edition (ν.routine r) := by
  cases h
  rfl

theorem Value.Mirrors.eq_closure {κ : Origins} {c : Closure} {v : Value}
    (h : (Value.closure c).Mirrors ν κ v) :
    ∃ o, v = .closure { c with routine := c.routine.rename (ν o) } := by
  cases h
  exact ⟨_, rfl⟩

namespace Naming.Agree

variable {ν' μ : Naming} {κ κ' : Origins}

/-- A name that two namings give differently is not there. -/
theorem rename (h : ν.Agree ν' μ) {r : Routine} {o o' : Origin}
    (hr : r.rename (ν o) = r.rename (ν' o')) : r.rename (ν o) = r.rename (μ o) :=
  r.rename_eq_iff.2 fun name hname => (h o o' name (r.rename_eq_iff.1 hr name hname)).symm

theorem value (h : ν.Agree ν' μ) {v v' : Value} (hv : v.Mirrors ν κ v')
    (hv' : v.Mirrors ν' κ' v') : v.Mirrors μ κ v' := by
  cases hv with
  | function edition r =>
      have hr : ν.routine r = ν'.routine r := (Value.function.inj hv'.eq_function).2
      rw [show ν.routine r = μ.routine r from h.rename hr]
      exact .function edition r
  | @closure c o hc =>
      obtain ⟨o', heq⟩ := hv'.eq_closure
      have hr : c.routine.rename (ν o) = c.routine.rename (ν' o') :=
        congrArg Closure.routine (Value.closure.inj heq)
      rw [h.rename hr]
      exact .closure hc
  | _ => constructor

theorem scope (h : ν.Agree ν' μ) {o o' : Origin} {c c' : Scope}
    (hc : FiniteMap.Renames (ν o) c c') (hc' : FiniteMap.Renames (ν' o') c c') :
    FiniteMap.Renames (μ o) c c' := by
  refine hc.trans (List.map_congr_left fun e he => ?_)
  have hname := congrArg Prod.fst (List.map_inj_left.1 (hc.symm.trans hc') e he)
  exact Prod.ext (h o o' e.1 hname).symm rfl

theorem object (h : ν.Agree ν' μ) {ob ob' : Object} (hob : ob.Mirrors ν κ ob')
    (hob' : ob.Mirrors ν' κ' ob') : ob.Mirrors μ κ ob' where
  field name := by
    have hfield := hob.field name
    have hfield' := hob'.field name
    generalize ob.fields.get? name = x at hfield hfield'
    generalize ob'.fields.get? name = x' at hfield hfield'
    cases hfield with
    | none => exact .none
    | some hv =>
        cases hfield' with
        | some hv' => exact .some (h.value hv hv')
  proto := hob.proto

theorem store (h : ν.Agree ν' μ) {s s' : Store} (hs : s.Mirrors ν κ s')
    (hs' : s.Mirrors ν' κ' s') : s.Mirrors μ κ s' where
  slots := ⟨hs.slots.size, fun a => h.value (hs.value a) (hs'.value a)⟩
  scopes := by
    refine ⟨hs.scopes.size, fun a o ha => ?_⟩
    have hlt : a.index < κ'.size := by
      rw [hs'.origins, ← hs.origins]
      exact Heap.index_lt_of_get?_eq_some ha
    cases ha' : κ'.get? a with
    | none => exact absurd hlt (Nat.not_lt.2 ((Heap.get?_eq_none_iff κ' a).1 ha'))
    | some o' => exact h.scope (hs.scope ha) (hs'.scope ha')
  objects := ⟨hs.objects.size, fun a => h.object (hs.object a) (hs'.object a)⟩
  origins := hs.origins

theorem routines (h : ν.Agree ν' μ) {t t' : RoutineTable} (ht : t.Mirrors ν t')
    (ht' : t.Mirrors ν' t') : t.Mirrors μ t' := by
  have hself := ht.lookup?_self
  obtain ⟨l, hl, hl', hname⟩ := ht
  obtain ⟨k, hk, -, hname'⟩ := id ht'
  have hmem : ∀ r ∈ l, r ∈ k := fun r hr =>
    ((hk.lookup?_eq_some_iff r.name r.arity r).1
      ((hl.lookup?_eq_some_iff _ _ r).2 ⟨hr, rfl, rfl⟩)).1
  have hroutine : l.map ν.routine = l.map μ.routine := by
    refine List.map_congr_left fun r hr => ?_
    -- Both namings give the routine that the second table has in place of `r`.
    have hfound := (hself r.name r.arity).symm.trans (ht'.lookup?_self r.name r.arity)
    rw [(hl.lookup?_eq_some_iff _ _ r).2 ⟨hr, rfl, rfl⟩] at hfound
    have hsame : ν.routine r = ν'.routine r := Option.some.inj hfound
    exact h.rename hsame
  refine ⟨l, hl, hroutine ▸ hl', fun r hr o => ?_⟩
  exact (h o o r.name ((hname r hr o).trans (hname' r (hmem r hr) o).symm)).trans (hname r hr o)

/-- Runs that end alike under two namings do so under one that agrees with them. -/
theorem alike (h : ν.Agree ν' μ) {x x' : EStateM.Result Halt Machine Value}
    (hx : Machine.Alike ν x x') (hx' : Machine.Alike ν' x x') : Machine.Alike μ x x' := by
  cases hx with
  | returned hv hm =>
      cases hx' with
      | returned hv' hm' =>
          exact .returned (h.value hv hv')
            { hm with
              store := h.store hm.store hm'.store
              routines := h.routines hm.routines hm'.routines }
  | failed hf hm => exact .failed hf hm
  | unfinished hm => exact .unfinished hm

end Naming.Agree

/-! ### The variables of one routine -/

/-- The names with a meaning of their own: they are no names of variables. -/
def Program.reserved (p : Program) : List String :=
  "this" :: ([Builtin.print, .readInteger, .readText].map Builtin.name
    ++ p.routines.map Routine.name)

/-- The naming that maps the names of one routine. -/
def Naming.only (o : Origin) (f : String → String) : Naming := fun o' => if o' = o then f else id

namespace Naming

variable {f : String → String} {p : Program}

theorem only_apply (o o' : Origin) {name : String} (h : f name = name) :
    only o f o' name = name := by
  rw [only]
  split
  · exact h
  · rfl

theorem faithful_only (o : Origin) (hf : Function.Injective f)
    (h : ∀ name ∈ p.reserved, f name = name) : (only o f).Faithful where
  injective o' := by
    rw [only]
    split
    · exact hf
    · exact Function.injective_id
  this o' := only_apply o o' (h _ List.mem_cons_self)
  builtin o' b := by
    refine only_apply o o' (h _ (List.mem_cons_of_mem _ (List.mem_append_left _ ?_)))
    exact List.mem_map_of_mem (by cases b <;> simp)

theorem routine_only_self (r : Routine) : (only r.origin f).routine r = r.rename f := by
  rw [routine, only, if_pos rfl]

theorem routine_only_of_ne {o : Origin} {r : Routine} (h : r.origin ≠ o) :
    (only o f).routine r = r := by
  rw [routine, only, if_neg h, Routine.rename_id]

/-- Where no other routine has the name and the arity of `r`, only `r` is another one. -/
theorem program_only {pre post : List Routine} {r : Routine}
    (h : ((pre ++ r :: post).map Routine.origin).Nodup) :
    (only r.origin f).program ⟨pre ++ r :: post⟩ = ⟨pre ++ r.rename f :: post⟩ := by
  have hr := (List.nodup_cons.1 ((List.perm_middle.map Routine.origin).nodup_iff.1 h)).1
  have hother : ∀ l : List Routine, l ⊆ pre ++ post → l.map (only r.origin f).routine = l := by
    intro l hl
    refine (List.map_congr_left fun s hs => ?_).trans l.map_id
    exact routine_only_of_ne fun heq => hr (heq ▸ List.mem_map_of_mem (hl hs))
  rw [program, List.map_append, List.map_cons, routine_only_self, hother pre (by simp),
    hother post (by simp)]

end Naming

/-- A program in which the variables of one routine are mapped runs as it did, if names stay apart
and no name that has a meaning of its own is touched. -/
theorem Machine.run_alike_only {pre post : List Routine} {r : Routine} {f : String → String}
    (σ : Equiv.Perm String) (hσ : ∀ name ∈ Program.reserved ⟨pre ++ r :: post⟩, σ name = name)
    (hf : ∀ name ∈ r.variables, f name = σ name) (fuel : Nat) (m : Machine) :
    Alike (.only r.origin σ) (run fuel ⟨pre ++ r :: post⟩ m)
      (run fuel ⟨pre ++ r.rename f :: post⟩ m) := by
  rw [r.rename_eq_iff.2 hf]
  by_cases h : ((pre ++ r :: post).map Routine.origin).Nodup
  · rw [← Naming.program_only h]
    refine run_alike (Naming.faithful_only r.origin σ.injective hσ) (fun s hs o => ?_) fuel m
    refine Naming.only_apply _ _ (hσ _ (List.mem_cons_of_mem _ (List.mem_append_right _ ?_)))
    exact List.mem_map_of_mem hs
  · refine alike_of_not_nodup h ?_ fuel m
    have horigin : (r.rename σ).origin = r.origin := by
      rw [Routine.origin, Routine.name_rename, Routine.arity_rename, Routine.origin]
    rwa [List.map_append, List.map_cons, horigin, ← List.map_cons, ← List.map_append]

/-- Where the two agree, both of them replace `x` by `y`: at `y` they do not. -/
theorem Naming.agree_replace {x y z : String} (hxy : x ≠ y) (hxz : x ≠ z) (o : Origin) :
    (only o (Equiv.swap x y)).Agree (only o ((Equiv.swap x y).trans (Equiv.swap x z)))
      (only o (replace x y)) := by
  intro o₁ o₂ name h
  by_cases ho : o₁ = o
  · have hthere : name ≠ y := by
      rintro rfl
      rw [only, only, if_pos ho, Equiv.swap_apply_right] at h
      split at h
      · rw [Equiv.trans_apply, Equiv.swap_apply_right, Equiv.swap_apply_left] at h
        exact hxz h
      · exact hxy h
    rw [only, only, if_pos ho, if_pos ho, replace_eq_swap hthere]
  · rw [only, only, if_neg ho, if_neg ho]

/-- **A variable of one routine may have another name.** -/
theorem lexical_scoping {pre post : List Routine} {r : Routine} {x y : String}
    (hx : x ∉ Program.reserved ⟨pre ++ r :: post⟩) (hy : y ∉ Program.reserved ⟨pre ++ r :: post⟩)
    (hnew : y ∉ r.variables) (fuel : Nat) (m : Machine) :
    Machine.Alike (.only r.origin (replace x y)) (Machine.run fuel ⟨pre ++ r :: post⟩ m)
      (Machine.run fuel ⟨pre ++ r.rename (replace x y) :: post⟩ m) := by
  rcases eq_or_ne x y with rfl | hxy
  · have hid : replace x x = Equiv.refl String := by
      funext name
      by_cases hn : name = x <;> simp [replace, hn]
    rw [hid]
    exact Machine.run_alike_only (Equiv.refl String) (fun _ _ => rfl) (fun _ _ => rfl) fuel m
  obtain ⟨z, hz⟩ := Infinite.exists_notMem_finset
    (x :: y :: (Program.reserved ⟨pre ++ r :: post⟩ ++ r.variables)).toFinset
  simp only [List.mem_toFinset, List.mem_cons, List.mem_append, not_or] at hz
  obtain ⟨hzx, hzy, hz, hz'⟩ := hz
  have hne : ∀ {w name : String} {l : List String}, w ∉ l → name ∈ l → name ≠ w :=
    fun hw hn h => hw (h ▸ hn)
  have hreserved : ∀ name ∈ Program.reserved ⟨pre ++ r :: post⟩, Equiv.swap x y name = name :=
    fun name hn => Equiv.swap_apply_of_ne_of_ne (hne hx hn) (hne hy hn)
  have hcycle : ∀ {name : String}, name ≠ y → name ≠ z →
      (Equiv.swap x y).trans (Equiv.swap x z) name = Equiv.swap x y name :=
    swap_trans_swap_apply hxy (Ne.symm hzy)
  -- One naming gives `y` the name `x` and the other the name `z`, so no name of `r` is `y`.
  refine (Naming.agree_replace hxy (Ne.symm hzx) r.origin).alike
    (Machine.run_alike_only _ hreserved (fun name hn => ?_) fuel m)
    (Machine.run_alike_only _ (fun name hn => ?_) (fun name hn => ?_) fuel m)
  · exact replace_eq_swap (hne hnew hn)
  · exact (hcycle (hne hy hn) (hne hz hn)).trans (hreserved name hn)
  · exact (replace_eq_swap (hne hnew hn)).trans (hcycle (hne hnew hn) (hne hz' hn)).symm

/-- A routine whose variable is captured:

    func adder(a) {
        return lambda(b) { return a + b; };
    } -/
def Routine.adder : Routine :=
  .mk "adder" [⟨"a", false⟩]
    [.return (some (.lambda (.mk "lambda" [⟨"b", false⟩]
      [.return (some (.binary .add (.variable "a") (.variable "b")))])))]

/-- A routine that calls it and has a variable of the same name:

    func main() {
        a = 5;
        f = adder(2);
        print(f(a));
        return f;
    } -/
def Routine.adding : Routine :=
  .mk "main" []
    [.assign (.variable "a") (.int 5),
      .assign (.variable "f") (.call (.mk (.name "adder") [.int 2])),
      .call (.mk (.name "print") [.call (.mk (.name "f") [.variable "a"])]),
      .return (some (.variable "f"))]

/-- The `a` that is captured may be called `n`; the `a` of `main` is another variable. -/
theorem lexical_scoping_adder :
    Machine.Alike (.only Routine.adder.origin (replace "a" "n"))
      (Machine.run 20 ⟨[.adder, .adding]⟩ (.initial {}))
      (Machine.run 20 ⟨[Routine.adder.rename (replace "a" "n"), .adding]⟩ (.initial {})) ∧
    Program.transcript 20 ⟨[.adder, .adding]⟩ [] = ["7"] :=
  ⟨@lexical_scoping [] [.adding] .adder "a" "n" (by decide) (by decide) (by decide) 20 _,
    by decide +kernel⟩

end ProtoScript
