import ProtoScript.Proofs.Definitions
import ProtoScript.Proofs.History
/-!
# The order of the routines of a program

A program whose routines are put into another order is loaded with another table,
and this table cannot be told apart from the first one.  Nothing but two steps looks
into the table at all, and they put questions to it: a call by name asks for a
routine with a name and arity, and the value of a name that no variable has asks
for the only routine of that name.  So the two runs are the same run, on machines
that differ in the table (`Eval.Exchanges`).
-/

namespace ProtoScript

/-- The machine with another table. -/
def Machine.exchange (m : Machine) (t : RoutineTable) : Machine := { m with routines := t }

/-- Two ends of which the second has another table in the machine, and nothing else that is
different. -/
inductive Exchanged {α : Type} (t t' : RoutineTable) :
    EStateM.Result Halt Machine α → EStateM.Result Halt Machine α → Prop where
  /-- The result is the same. -/
  | ok (a : α) {m : Machine} (routines : m.routines = t) :
      Exchanged t t' (.ok a m) (.ok a (m.exchange t'))
  /-- The reason to halt is the same. -/
  | error (e : Halt) {m : Machine} (routines : m.routines = t) :
      Exchanged t t' (.error e m) (.error e (m.exchange t'))

namespace Eval

variable {α β : Type} {t t' : RoutineTable}

/-- With the second table a step does what it does with the first one. -/
def Exchanges (t t' : RoutineTable) (x : Eval α) : Prop :=
  ∀ m : Machine, m.routines = t → Exchanged t t' (x m) (x (m.exchange t'))

namespace Exchanges

theorem pure (a : α) : Exchanges t t' (pure a : Eval α) :=
  fun _ hm => .ok a hm

theorem raise (fault : Fault) : Exchanges t t' (raise fault : Eval α) :=
  fun _ hm => .error (.failed ⟨fault, []⟩) hm

theorem stop : Exchanges t t' (stop : Eval α) :=
  fun _ hm => .error .unfinished hm

theorem bind {x : Eval α} {f : α → Eval β} (hx : Exchanges t t' x)
    (hf : ∀ a, Exchanges t t' (f a)) : Exchanges t t' (x >>= f) := by
  intro m hm
  have h := hx m hm
  show Exchanged t t' (EStateM.bind x f m) (EStateM.bind x f (m.exchange t'))
  unfold EStateM.bind
  generalize x m = end₁ at h
  generalize x (m.exchange t') = end₂ at h
  cases h with
  | ok a hm₁ => exact hf a _ hm₁
  | error e hm₁ => exact .error e hm₁

theorem inside {x : Eval α} (p : Surroundings) (hx : Exchanges t t' x) :
    Exchanges t t' (p.run x) := by
  intro m hm
  have henter : p.enter (m.exchange t') = (p.enter m).exchange t' := by cases p <;> rfl
  have hroutines : (p.enter m).routines = t := by cases p <;> exact hm
  have h := hx (p.enter m) hroutines
  rw [← henter] at h
  unfold Surroundings.run
  generalize x (p.enter m) = end₁ at h
  generalize x (p.enter (m.exchange t')) = end₂ at h
  have hleave : ∀ m₁ : Machine, m₁.routines = t → (p.leave m.environment m₁).routines = t ∧
      p.leave m.environment (m₁.exchange t') = (p.leave m.environment m₁).exchange t' := by
    intro m₁ hm₁
    cases p <;> exact ⟨hm₁, rfl⟩
  cases h with
  | @ok a m₁ hm₁ =>
      obtain ⟨hm₂, hl⟩ := hleave m₁ hm₁
      show Exchanged t t' (.ok a (p.leave m.environment m₁))
        (.ok a (p.leave m.environment (m₁.exchange t')))
      rw [hl]
      exact .ok a hm₂
  | @error e m₁ hm₁ =>
      obtain ⟨hm₂, hl⟩ := hleave m₁ hm₁
      have hhalted : p.halted (m₁.exchange t') e = p.halted m₁ e := by cases p <;> rfl
      show Exchanged t t' (.error (p.halted m₁ e) (p.leave m.environment m₁))
        (.error (p.halted (m₁.exchange t') e) (p.leave m.environment (m₁.exchange t')))
      rw [hl, hhalted]
      exact .error _ hm₂

theorem composes : Composes (Exchanges t t') where
  pure := .pure
  stop := .stop
  bind := .bind
  inside := .inside

/-! ### Steps -/

theorem lift (r : Except Fault α) : Exchanges t t' (lift r) := by
  cases r with
  | ok a => exact .pure a
  | error fault => exact .raise fault

theorem observe {f : Machine → α}
    (hf : ∀ m : Machine, m.routines = t → f (m.exchange t') = f m) :
    Exchanges t t' (observe f) := by
  intro m hm
  show Exchanged t t' (.ok (f m) m) (.ok (f (m.exchange t')) (m.exchange t'))
  rw [hf m hm]
  exact .ok (f m) hm

/-- A step that always succeeds, and neither looks at the table nor changes it. -/
theorem of_ok {x : Eval α} {f : Machine → α} {g : Machine → Machine}
    (hx : ∀ m, x m = .ok (f m) (g m)) (hf : ∀ m : Machine, f (m.exchange t') = f m)
    (hg : ∀ m : Machine, g (m.exchange t') = (g m).exchange t')
    (hroutines : ∀ m : Machine, (g m).routines = m.routines) : Exchanges t t' x := by
  intro m hm
  rw [hx, hx, hf, hg]
  exact .ok (f m) ((hroutines m).trans hm)

theorem modifyStore (f : Store → Store) : Exchanges t t' (modifyStore f) :=
  .of_ok (fun _ => rfl) (fun _ => rfl) (fun _ => rfl) fun _ => rfl

theorem copying (f : Store → Option (α × Store)) : Exchanges t t' (copying f) := by
  intro m hm
  have hstore : (m.exchange t').store = m.store := rfl
  unfold Eval.copying
  rw [hstore]
  cases f m.store with
  | some r => exact .ok r.1 (m := { m with store := r.2 }) hm
  | none => exact .error .unfinished (m := { m with store := ∅ }) hm

theorem copied (v : Value) : Exchanges t t' (copied v) := by
  cases v with
  | closure c => exact .copying fun s => s.copy (.closure c)
  | _ => exact .pure _

theorem released (v : Value) : Exchanges t t' (released v) := by
  cases v with
  | closure c => exact .copying fun s => s.release (.closure c)
  | _ => exact .pure _

theorem report (e : Event) : Exchanges t t' (report e) :=
  .of_ok (fun _ => rfl) (fun _ => rfl) (fun _ => rfl) fun _ => rfl

theorem reportStatement (label : String) : Exchanges t t' (reportStatement label) :=
  .of_ok (fun _ => rfl) (fun _ => rfl) (fun _ => rfl) fun _ => rfl

/-- **A name without a variable means the same in both tables.** -/
theorem readVariable (h : t.Alike t') (name : String) : Exchanges t t' (readVariable name) := by
  refine .bind (.observe fun _ _ => rfl) fun found => ?_
  cases found with
  | some v => exact .copied v
  | none =>
      have hunique : ∀ m : Machine, m.routines = t →
          (m.exchange t').routines.unique name = m.routines.unique name := by
        intro m hm
        rw [hm]
        exact h.unique name
      refine .bind (.observe hunique) fun r => .bind (.lift r) fun o => ?_
      cases o with
      | some r => exact .pure _
      | none => exact .raise _

/-- **A call by name calls the same routine from both tables.** -/
theorem resolve (h : t.Alike t') (name : String) (count : Nat) :
    Exchanges t t' (resolve name count) := by
  have hlookup : ∀ m : Machine, m.routines = t →
      (m.exchange t').routines.lookup? name count = m.routines.lookup? name count := by
    intro m hm
    rw [hm]
    exact h.lookup name count
  refine .bind (.observe hlookup) fun o => ?_
  cases o with
  | some r => exact .pure _
  | none =>
      refine .bind (.observe fun _ _ => rfl) fun found => ?_
      cases found with
      | some v => exact .lift _
      | none => exact .raise _

theorem objectOf (name : String) (v : Value) : Exchanges t t' (objectOf name v) := by
  cases v with
  | object a => exact .pure a
  | _ => exact .raise _

theorem readField (target : Value) (name : String) : Exchanges t t' (readField target name) := by
  refine .bind (.objectOf name target) fun a => ?_
  split
  · refine .bind (.observe fun _ _ => rfl) fun o => ?_
    cases o with
    | some p => exact .pure _
    | none => exact .pure _
  · refine .bind (.observe fun _ _ => rfl) fun found => ?_
    cases found with
    | some v => exact .copied v
    | none => exact .raise _

theorem method (a : Address .object) (name : String) (count : Nat) :
    Exchanges t t' (method a name count) := by
  refine .bind (.observe fun _ _ => rfl) fun found => ?_
  cases found with
  | some v => exact .lift _
  | none => exact .raise _

theorem assignProto (a : Address .object) (v : Value) : Exchanges t t' (assignProto a v) := by
  cases v with
  | object p =>
      refine .bind (.observe fun _ _ => rfl) fun b => ?_
      split
      · exact .raise _
      · exact .modifyStore _
  | nil => exact .modifyStore _
  | _ => exact .raise _

theorem assignField (target : Value) (name : String) (v : Value) :
    Exchanges t t' (assignField target name v) := by
  refine .bind (.objectOf name target) fun a => ?_
  split
  · exact .assignProto a v
  · exact .bind (.copied v) fun w => .modifyStore _

theorem capture (r : Routine) (byRef : Bool) : Exchanges t t' (capture r byRef) := by
  intro m hm
  have hsnapshot : (m.exchange t').store.snapshot (m.exchange t').environment
      = m.store.snapshot m.environment := rfl
  unfold Eval.capture
  rw [hsnapshot]
  cases m.store.snapshot m.environment with
  | some s => exact .ok _ (m := ({ m with store := s.2, closures := m.closures + 1 }).report _) hm
  | none => exact .error .unfinished (m := { m with store := ∅ }) hm

theorem newScope : Exchanges t t' newScope :=
  .of_ok (fun _ => rfl) (fun _ => rfl) (fun _ => rfl) fun _ => rfl

theorem activate (callable : Callable) : Exchanges t t' (activate callable) := by
  cases callable with
  | function r => exact .bind .newScope fun a => .pure _
  | closure c =>
      exact .bind .newScope fun a => .bind .newScope fun b => .bind (.report _) fun _ =>
        .bind (.report _) fun _ => .pure _

theorem bindReceiver (e : Environment) (receiver : Option (Address .object)) :
    Exchanges t t' (bindReceiver e receiver) := by
  cases receiver with
  | some a => exact .modifyStore _
  | none => exact .pure ()

theorem bindCopy (e : Environment) (name : String) (v : Value) :
    Exchanges t t' (bindCopy e name v) :=
  .bind (.copied v) fun _ => .modifyStore _

theorem bindVariable (h : t.Alike t') (e : Environment) (name variableName : String) :
    Exchanges t t' (bindVariable e name variableName) := by
  refine .bind (.observe fun _ _ => rfl) fun o => ?_
  cases o with
  | some b => exact .modifyStore _
  | none => exact .bind (.readVariable h variableName) fun v => .modifyStore _

theorem readLine (b : Builtin) : Exchanges t t' (readLine b) := by
  intro m hm
  have hconsole : (m.exchange t').console.read? = m.console.read? := rfl
  unfold Eval.readLine
  rw [hconsole]
  cases m.console.read? with
  | some r => exact .ok r.1 (m := { m with console := r.2 }) hm
  | none => exact .error (.failed ⟨.endOfInput b, []⟩) hm

theorem integerOf (line : String) : Exchanges t t' (integerOf line) := by
  unfold Eval.integerOf
  split
  · exact .pure _
  · exact .raise _

end Exchanges

/-- **Every step does the same with either table**, if they cannot be told apart. -/
theorem steps_exchange (h : t.Alike t') : Steps (Exchanges t t') where
  raise := .raise
  lift := .lift
  report := .report
  reportStatement := .reportStatement
  readVariable := .readVariable h
  resolve := .resolve h
  assign _ _ := .of_ok (fun _ => rfl) (fun _ => rfl) (fun _ => rfl) fun _ => rfl
  objectOf := .objectOf
  readField := .readField
  method := .method
  assignField := .assignField
  newObject := .of_ok (fun _ => rfl) (fun _ => rfl) (fun _ => rfl) fun _ => rfl
  capture := .capture
  activate := .activate
  bindValue _ _ _ := .modifyStore _
  bindReceiver := .bindReceiver
  bindCopy := .bindCopy
  bindVariable := .bindVariable h
  released := .released
  print _ := .of_ok (fun _ => rfl) (fun _ => rfl) (fun _ => rfl) fun _ => rfl
  printAll _ := .of_ok (fun _ => rfl) (fun _ => rfl) (fun _ => rfl) fun _ => rfl
  readLine := .readLine
  integerOf := .integerOf

end Eval

/-! ### Runs -/

namespace Machine

variable {t t' : RoutineTable} {p p' : Program}

theorem load_exchange (h : t.Alike t') (m : Machine) : m.load t' = (m.load t).exchange t' := by
  rw [load, load, h.size]
  rfl

theorem start_exchanges (h : t.Alike t') (fuel : Nat) (main : Routine) :
    Eval.Exchanges t t' (start fuel main) := by
  intro m hm
  have hbody := perform_of_steps Eval.Exchanges.composes (Eval.steps_exchange h) fuel
    (.executeAll main.body) m.enterMain hm
  have henter : m.enterMain.exchange t' = (m.exchange t').enterMain := rfl
  rw [henter] at hbody
  unfold start
  generalize perform fuel (.executeAll main.body) m.enterMain = end₁ at hbody
  generalize perform fuel (.executeAll main.body) (m.exchange t').enterMain = end₂ at hbody
  cases hbody with
  | @ok status m₁ hm₁ =>
      exact .ok status.value (m := { m₁ with frames := m₁.frames.tail }) hm₁
  | @error e m₁ hm₁ => exact .error (e.attach m₁.frames.reverse) hm₁

/-- **Programs with tables that cannot be told apart run alike.** -/
theorem run_exchanged (hp : RoutineTable.ofProgram p = .ok t)
    (hp' : RoutineTable.ofProgram p' = .ok t') (h : t.Alike t') (fuel : Nat) (m : Machine) :
    Exchanged t t' (run fuel p m) (run fuel p' m) := by
  cases hmain : t.lookup? mainName 0 with
  | none =>
      have hmain' : t'.lookup? mainName 0 = none := (h.lookup _ _).trans hmain
      rw [run_of_noMain hp hmain, run_of_noMain hp' hmain', load_exchange h]
      exact .error _ rfl
  | some main =>
      have hmain' : t'.lookup? mainName 0 = some main := (h.lookup _ _).trans hmain
      rw [run_eq_start hp hmain, run_eq_start hp' hmain', load_exchange h]
      exact start_exchanges h fuel main (m.load t) rfl

end Machine

/-- **A table answers for what it has accepted, and the order of the definitions does not matter.**
Whatever is offered to a new table, its answers are those of the routines that it has accepted, and
a routine that is refused leaves it as it is.  A program is refused exactly if two of its routines
have the same name and arity, and then the machine keeps what an earlier program left.  Programs
that are not refused and have the same routines in different orders run alike. -/
theorem order_of_definitions :
    (∀ l : List Routine, (RoutineTable.history l).2.Answers (RoutineTable.history l).1 ∧
      ∀ r, (∀ fault t, RoutineTable.offer r (RoutineTable.history l).2 = .error fault t →
          t = (RoutineTable.history l).2 ∧
            RoutineTable.history (l ++ [r]) = ((RoutineTable.history l).1, t)) ∧
        ∀ t, RoutineTable.offer r (RoutineTable.history l).2 = .ok () t →
          RoutineTable.history (l ++ [r]) = ((RoutineTable.history l).1 ++ [r], t)) ∧
    (∀ p : Program,
      ((∃ fault, RoutineTable.ofProgram p = .error fault) ↔
        ¬(p.routines.map Routine.origin).Nodup) ∧
      ∀ fault, RoutineTable.ofProgram p = .error fault → fault.kind = .name ∧
        ∀ fuel m, Machine.run fuel p m
          = .error (.failed ⟨fault, []⟩) { m with events := [] }) ∧
    ∀ p p' : Program, p'.routines.Perm p.routines → (p.routines.map Routine.origin).Nodup →
      ∃ t t', RoutineTable.ofProgram p = .ok t ∧ RoutineTable.ofProgram p' = .ok t' ∧
        t.Alike t' ∧ ∀ fuel m, Exchanged t t' (Machine.run fuel p m) (Machine.run fuel p' m) := by
  refine ⟨fun l => ⟨(RoutineTable.holds_history l).answers, fun r => ⟨?_, ?_⟩⟩,
    fun p => ⟨?_, fun fault hfault => ?_⟩, fun p p' hperm hnodup => ?_⟩
  · intro fault t ht
    refine ⟨(RoutineTable.offer_eq_error ht).2, ?_⟩
    rw [RoutineTable.history_concat, RoutineTable.record, ht]
  · intro t ht
    rw [RoutineTable.history_concat, RoutineTable.record, ht]
  · exact RoutineTable.ofProgram_eq_error_iff p
  · refine ⟨RoutineTable.kind_of_ofProgram hfault, fun fuel m => ?_⟩
    exact Machine.run_of_refused hfault fuel m
  · obtain ⟨t, ht, hholds⟩ | ⟨hrepeated, -⟩ := RoutineTable.ofProgram_cases p
    · obtain ⟨t', ht', hholds'⟩ | ⟨hrepeated, -⟩ := RoutineTable.ofProgram_cases p'
      · have halike := hholds.alike hholds' hperm
        exact ⟨t, t', ht, ht', halike, Machine.run_exchanged ht ht' halike⟩
      · exact absurd ((hperm.map Routine.origin).nodup_iff.2 hnodup) hrepeated
    · exact absurd hnodup hrepeated

/-- A program with a routine that is called before it is defined, an overloaded one, and one that is
used as a value:

    func main() { f = g; print(h(1) + h() + f(5)); }
    func h(n) { return n; }
    func h() { return 20; }
    func g(n) { return n * 100; } -/
def Program.overloaded : Program where
  routines :=
    [.mk "main" []
      [.assign (.variable "f") (.variable "g"),
        .call (.mk (.name "print")
          [.binary .add
            (.binary .add (.call (.mk (.name "h") [.int 1])) (.call (.mk (.name "h") [])))
            (.call (.mk (.name "f") [.int 5]))])],
      .mk "h" [⟨"n", false⟩] [.return (some (.variable "n"))],
      .mk "h" [] [.return (some (.int 20))],
      .mk "g" [⟨"n", false⟩] [.return (some (.binary .mul (.variable "n") (.int 100)))]]

/-- The definitions in the opposite order print the same. -/
theorem order_of_definitions_overloaded :
    (∃ t t', RoutineTable.ofProgram .overloaded = .ok t ∧
      RoutineTable.ofProgram ⟨Program.overloaded.routines.reverse⟩ = .ok t' ∧ t.Alike t' ∧
      ∀ fuel m, Exchanged t t' (Machine.run fuel .overloaded m)
        (Machine.run fuel ⟨Program.overloaded.routines.reverse⟩ m)) ∧
    Program.overloaded.transcript 20 [] = ["521"] ∧
    Program.transcript 20 ⟨Program.overloaded.routines.reverse⟩ [] = ["521"] :=
  ⟨order_of_definitions.2.2 _ _ (List.reverse_perm _) (by decide), by decide +kernel,
    by decide +kernel⟩

end ProtoScript
