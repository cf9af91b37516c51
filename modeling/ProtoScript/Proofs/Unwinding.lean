import ProtoScript.Proofs.Duplicate
import ProtoScript.Proofs.RoundTrip
import ProtoScript.Proofs.Walks
/-!
# Return unwinds one activation

A return ends the statements, blocks and loops around it up to the body of its
activation, and no others (`Machine.return_unwinds_one_activation`).  Inside the
activation all that is done is a way through the body with the return at its end.
Outside, the call has the value and the task that made the call goes on with it
(`Moment.Resumes`); to the caller a call is an expression or a statement like any
other, and what ends its own loops early is a return of its own.

The value is that of the expression as it leaves the activation: a closure is
detached, whether it captured by value or by reference (`Store.Leaves`).  A return
without an expression gives `nil`, and so does a body that ends without a return;
the value does not tell which of them it was (`Machine.value_nil_of_bare_return`).
-/

namespace ProtoScript

/-! ### The value of a return -/

/-- What leaves an activation, from the value of an expression: a closure comes with a new scope of
its own, in which there are copies of all that it captured, whether it captured by value or by
reference; any other value is the same. -/
inductive Store.Leaves (s : Store) : Store → Value → Value → Prop where
  /-- No closure leaves. -/
  | same {v : Value} (h : ∀ c, v ≠ .closure c) : Leaves s s v v
  /-- A closure is detached. -/
  | closure {s' : Store} {c : Closure} {a : Address .scope} (fresh : s.Fresh s' a)
      (copy : s.Duplicate s' (.closure { c with byRef := false })
        (.closure { c with byRef := false, captured := a })) :
      Leaves s s' (.closure c) (.closure { c with captured := a })

/-- **A value is released as it leaves.** -/
theorem Store.leaves_release {s s' : Store} {v w : Value} (hs : s.Closed)
    (h : s.release v = some (w, s')) : s.Leaves s' v w := by
  cases v with
  | closure c =>
      obtain ⟨⟨c', s'⟩, hc, hw⟩ := Option.map_eq_some_iff.1 h
      cases hw
      obtain ⟨-, hfresh, -⟩ := detach_spec hs hc
      obtain ⟨⟨a, s'⟩, ha, hc'⟩ := Option.map_eq_some_iff.1 hc
      cases hc'
      have hcopy : s.copy (.closure { c with byRef := false })
          = some (.closure { c with byRef := false, captured := a }, s') := by
        simp only [copy, detach, ha, Bool.false_eq_true, if_false, Option.map_some]
      exact .closure hfresh (duplicate_copy hs hcopy)
  | _ =>
      cases h
      exact .same fun c hc => by cases hc

namespace Moment

variable {a b c : Moment}

/-- A return statement that starts at a moment gives a value. -/
inductive Gives (b : Moment) : Option Expr → Value → Prop where
  /-- Without an expression there is no value. -/
  | bare : Gives b none .nil
  /-- The value of the expression leaves the activation. -/
  | value {e : Expr} {v w : Value} {m m' : Machine} {s : Store} (hc : b.Calls (.evaluate e) m)
      (hv : perform (b.fuel - 1) (.evaluate e) m = .ok v m') (hw : m'.store.Leaves s v w) :
      Gives b (some e) w

/-- A return asks for the value of its expression and releases it. -/
theorem of_leads_return {answer : (t : Task) → Eval t.Result} {e : Expr} {status : Status}
    {m m' : Machine}
    (h : (Script.execute (.return (some e))).Leads answer m (.done status) m') :
    ∃ (next : Value → Script Status) (m₁ m₂ : Machine) (v w : Value),
      (Script.execute (.return (some e))).Leads answer m (.call (.evaluate e) next) m₁ ∧
        answer (.evaluate e) m₁ = .ok v m₂ ∧ Eval.released v m₂ = .ok w m' ∧
          status = .returned w := by
  cases h with
  | act hx h =>
      cases h with
      | call hv h =>
          cases h with
          | act hw h =>
              cases h
              exact ⟨_, _, _, _, _, .act hx .refl, hv, hw, rfl⟩

/-- **A return that is completed gives its value.** -/
theorem gives_of_returned {o : Option Expr} {v : Value} (hb : isolation.before b)
    (ht : b.task = .execute (.return o)) (h : b.status? = some (.returned v)) : b.Gives o v := by
  obtain ⟨n, t, m, γ⟩ := b
  obtain rfl : t = .execute (.return o) := ht
  cases n with
  | zero => cases h
  | succ n =>
      obtain ⟨m', hr⟩ : ∃ m', perform (n + 1) (.execute (.return o)) m = .ok (.returned v) m' :=
        Status.ofResult?_eq_some_iff.1 h
      have hl := Script.leads_of_run hr
      cases o with
      | none =>
          cases hl with
          | act _ hl =>
              cases hl
              exact .bare
      | some e =>
          obtain ⟨next, m₁, m₂, u, w, hcall, hv, hw, hstatus⟩ := of_leads_return hl
          cases hstatus
          have hpasses := Passes.later (a := ⟨n + 1, .execute (.return (some e)), m, γ⟩)
            n.succ_pos (hcall.trans (.call hv .refl))
          obtain ⟨s, hs, -⟩ := Eval.released_eq_ok hw
          have hleaves := Store.leaves_release (hpasses.keeps hb).closed hs
          exact .value ⟨n.succ_pos, next, hcall⟩ hv hleaves

/-! ### The caller -/

/-- A call that invokes something has nothing else to do. -/
theorem next_of_leads_invoke {q : Call} {label : String} {callable : Callable} {args : List Expr}
    {receiver : Option (Address .object)} {answer : (t : Task) → Eval t.Result}
    {next : Value → Script Value} {m m' : Machine} (h : (Script.evaluateCall q).Leads answer m
      (.call (.invoke label callable args receiver) next) m') : next = .done := by
  obtain ⟨callee, args'⟩ := q
  cases callee with
  | name name =>
      cases hb : Builtin.ofName? name with
      | some b =>
          rw [Script.evaluateCall_of_builtin hb] at h
          cases h with
          | call _ h => cases h
      | none =>
          rw [Script.evaluateCall_of_routine hb] at h
          cases h with
          | act _ h =>
              cases h with
              | refl => rfl
              | call _ h => cases h
  | method object name =>
      cases h with
      | call _ h =>
          cases h with
          | act _ h =>
              cases h with
              | act _ h =>
                  cases h with
                  | refl => rfl
                  | call _ h => cases h

/-- The caller goes on after the call at the moment `c`, as the body of what is called has ended. -/
inductive Resumes (c : Moment) : Option Status → Prop where
  /-- The body has ended: the call has the value of its status, in the environment of the caller,
  and the task that made the call goes on with the value. -/
  | value {q : Call} {status : Status} {m : Machine} (task : c.task = .call q)
      (result : perform c.fuel (.call q) c.machine = .ok status.value m)
      (level : c.machine.Level m)
      (goesOn : ∀ (d : Moment) (m₁ : Machine) (next : Value → Script d.task.Result),
        c = d.call (.call q) m₁ →
          d.task.script.Leads (perform (d.fuel - 1)) d.machine (.call (.call q) next) m₁ →
            d.task.script.Leads (perform (d.fuel - 1)) d.machine (next status.value) m) :
      Resumes c (some status)
  /-- The body has halted, and so has the call. -/
  | halt {q : Call} {e : Halt} {m : Machine} (task : c.task = .call q)
      (result : perform c.fuel (.call q) c.machine = .error e m) : Resumes c none

/-- What is invoked has the value with which its body ends. -/
theorem perform_of_enters {i : Moment} {label : String} {callable : Callable} {args : List Expr}
    {receiver : Option (Address .object)} {e : Environment} {m : Machine}
    (hi : i.task = .invoke label callable args receiver)
    (hb : i.Enters (.activation label callable e) callable.routine.body m) :
    perform i.fuel (.invoke label callable args receiver) i.machine =
      (Script.inside (.activation label callable e) callable.routine.body fun status =>
        .done status.value).run (perform (i.fuel - 1)) m := by
  obtain ⟨n, t, m₀, γ⟩ := i
  obtain rfl : t = .invoke label callable args receiver := hi
  obtain ⟨hn, next, hl⟩ := hb
  obtain ⟨e', m₁, m₂, m₃, -, h⟩ := course_of_leads hl trivial
  have heq := perform_eq_of_leads hn hl
  cases h with
  | refl => exact heq
  | inside _ h => cases h

/-- **The caller of a routine goes on as its body has ended.** -/
theorem resumes {i : Moment} {label : String} {callable : Callable} {e : Environment} {m : Machine}
    (hi : c.Invokes label callable i)
    (hb : i.Enters (.activation label callable e) callable.routine.body m) :
    c.Resumes (i.inside (.activation label callable e) callable.routine.body m).status? := by
  obtain ⟨n, t, m₀, γ⟩ := c
  cases hi with
  | @call callee args _ receiver mᵢ hc hi =>
      obtain rfl : t = .call (.mk callee args) := hc
      obtain ⟨hn, next, hl⟩ := hi
      obtain rfl := next_of_leads_invoke hl
      have hcall := perform_eq_of_leads hn hl
      have hinvoke := perform_of_enters rfl hb
      rw [Script.run_call] at hcall
      rw [Script.run_elsewhere] at hinvoke
      suffices h : ∀ x, Status.ofResult? (perform (n - 1 - 1) (.executeAll callable.routine.body)
          ((Surroundings.activation callee.label callable e).enter m)) = x →
            Resumes ⟨n, .call (.mk callee args), m₀, γ⟩ x from h _ rfl
      rintro x rfl
      cases hbody : perform (n - 1 - 1) (.executeAll callable.routine.body)
          ((Surroundings.activation callee.label callable e).enter m) with
      | ok status m₁ =>
          have hbody' := Surroundings.run_eq_ok.2 ⟨m₁, hbody, rfl⟩
          have hi' := hinvoke.trans (Eval.bind_eq_ok.2 ⟨status, _, hbody', rfl⟩)
          have hr := hcall.trans (Eval.bind_eq_ok.2 ⟨_, _, hi', rfl⟩)
          refine .value rfl hr (level_of_perform_eq_ok hr) fun d m' next' hd hl' => ?_
          cases hd
          exact hl'.trans (.call hr .refl)
      | error h m₁ =>
          have hbody' := Surroundings.run_eq_error.2 ⟨h, m₁, hbody, rfl, rfl⟩
          have hi' := hinvoke.trans (Eval.bind_eq_error.2 (.inl hbody'))
          exact .halt rfl (hcall.trans (Eval.bind_eq_error.2 (.inl hi')))

end Moment

/-! ### Activations -/

namespace Machine

variable {fuel : Nat} {p : Program} {m₀ : Machine} {a i : Moment}

/-- The activations of a run, by the moments at which their bodies start. -/
inductive Begins (fuel : Nat) (p : Program) (m₀ : Machine) : Moment → Prop where
  /-- The activation of `main`. -/
  | main {routines : RoutineTable} {r : Routine} (h : RoutineTable.ofProgram p = .ok routines)
      (hr : routines.lookup? mainName 0 = some r) :
      Begins fuel p m₀ (Machine.main fuel r (m₀.load routines))
  /-- The activation of what is called at the moment `c`. -/
  | called {c i : Moment} {label : String} {callable : Callable} {e : Environment} {m : Machine}
      (hc : Reaches fuel p m₀ c) (hi : c.Invokes label callable i)
      (hb : i.Enters (.activation label callable e) callable.routine.body m) :
      Begins fuel p m₀ (i.inside (.activation label callable e) callable.routine.body m)

theorem Begins.reaches (h : Begins fuel p m₀ a) : Reaches fuel p m₀ a := by
  cases h with
  | main h hr => exact .main h hr
  | called hc hi hb => exact .opens (.opens hc hi.opens) hb.opens

/-- **There are no other activations**: what is opened in surroundings of its own is the body of
something that has been called. -/
theorem begins_of_opens (hi : Reaches fuel p m₀ i) (ho : i.Opens a) (hw : i.waiting < a.waiting) :
    Begins fuel p m₀ a := by
  cases ho with
  | call _ _ => exact absurd hw (Nat.lt_irrefl _)
  | @inside s l m next hn hl =>
      cases s with
      | block => exact absurd hw (Nat.lt_irrefl _)
      | activation label callable e =>
          have henter : i.Enters (.activation label callable e) l m := ⟨hn, next, hl⟩
          obtain ⟨rfl, args, receiver, ht, -⟩ := henter.mayEnter
          cases hi with
          | main _ _ => cases ht
          | @opens c _ hc ho =>
              cases ho with
              | @call t m' next' hn' hl' =>
                  obtain rfl : t = .invoke label callable args receiver := ht
                  have hcalls : c.Calls (.invoke label callable args receiver) m' :=
                    ⟨hn', next', hl'⟩
                  exact .called hc hcalls.invokes henter
              | inside _ _ => cases ht

/-- To whom an activation hands over as its body has ended. -/
inductive HandsOver (fuel : Nat) (p : Program) (m₀ : Machine) : Moment → Prop where
  /-- The run has the value with which `main` ends. -/
  | run {routines : RoutineTable} {r : Routine} (h : RoutineTable.ofProgram p = .ok routines)
      (hr : routines.lookup? mainName 0 = some r)
      (value : ∀ status, (Machine.main fuel r (m₀.load routines)).status? = some status →
        ∃ m, Machine.run fuel p m₀ = .ok status.value m)
      (halt : (Machine.main fuel r (m₀.load routines)).status? = none →
        ∃ e m, Machine.run fuel p m₀ = .error e m) :
      HandsOver fuel p m₀ (Machine.main fuel r (m₀.load routines))
  /-- The caller goes on with the task at the moment `d`, which has made the call. -/
  | caller {d c i : Moment} {label : String} {callable : Callable} {e : Environment} {m : Machine}
      (hd : Reaches fuel p m₀ d) (ho : d.Opens c) (hi : c.Invokes label callable i)
      (hb : i.Enters (.activation label callable e) callable.routine.body m)
      (resumes : c.Resumes
        (i.inside (.activation label callable e) callable.routine.body m).status?) :
      HandsOver fuel p m₀ (i.inside (.activation label callable e) callable.routine.body m)

theorem Begins.handsOver (h : Begins fuel p m₀ a) : HandsOver fuel p m₀ a := by
  cases h with
  | @main routines r h hr =>
      have hrun : run fuel p m₀ = start fuel r (m₀.load routines) := run_eq_start h hr
      cases hp : perform fuel (.executeAll r.body)
          (m₀.load routines).enterMain with
      | ok status m =>
          have hstatus : (Machine.main fuel r (m₀.load routines)).status? = some status :=
            congrArg Status.ofResult? hp
          refine .run h hr (fun status' h' => ?_) fun h' => ?_
          · cases hstatus.symm.trans h'
            exact ⟨_, hrun.trans (start_eq_ok_iff.2 ⟨_, _, hp, rfl, rfl⟩)⟩
          · cases hstatus.symm.trans h'
      | error e m =>
          have hstatus : (Machine.main fuel r (m₀.load routines)).status? = none :=
            congrArg Status.ofResult? hp
          refine .run h hr (fun status' h' => ?_) fun _ => ?_
          · cases hstatus.symm.trans h'
          · exact ⟨_, _, hrun.trans (start_eq_error_iff.2 ⟨_, hp, rfl⟩)⟩
  | called hc hi hb =>
      cases hc with
      | main h hr =>
          cases hi with
          | call ht _ => cases ht
      | opens hd ho => exact .caller hd ho hi hb (Moment.resumes hi hb)

end Machine

/-- What an activation that starts at the moment `a` does, and how it ends. -/
structure Moment.Unwinds (a : Moment) : Prop where
  /-- The trail tells all statements that it executes, and how they end. -/
  statements : ∀ d b s, a.Follows d b → b.task = .execute s → .statement s b.status? ∈ a.trail
  /-- The trail tells all conditions that it evaluates for its branches and loops. -/
  conditions : ∀ d b e m, a.Follows d b → b.Calls (.evaluate e) m →
    (∃ yes no, b.task = .execute (.branch e yes no)) ∨ (∃ body, b.task = .iterate e body) →
      ∃ holds, .condition e holds ∈ a.trail
  /-- What it does is a way through its body, with the status of the body. -/
  walks : (Task.executeAll a.context.callable.routine.body).Walks a.trail a.status?
  /-- A return is the last: no statement is executed after it, and no condition evaluated. -/
  last : ∀ before k after, a.trail = before ++ k :: after → k.IsReturn → after = []
  /-- A return that is completed gives the activation its value, wherever it stands. -/
  completed : ∀ d b o v, a.Follows d b → b.task = .execute (.return o) →
    b.status? = some (.returned v) → b.Gives o v ∧ a.status? = some (.returned v)
  /-- A value comes from such a return, which is the last statement that is executed. -/
  returned : ∀ v, a.status? = some (.returned v) → ∃ d b o, a.Follows d b ∧
    b.task = .execute (.return o) ∧ b.status? = some (.returned v) ∧ b.Gives o v ∧
      [.statement (.return o) (some (.returned v))] <:+ a.trail
  /-- A body that ends proceeds to its end exactly if no return has been executed. -/
  proceeds : ∀ status, a.status? = some status →
    (status = .proceed ↔ ∀ k ∈ a.trail, ¬k.IsReturn)
  /-- Then the value is `nil`. -/
  silent : ∀ status, a.status? = some status → (∀ k ∈ a.trail, ¬k.IsReturn) → status.value = .nil
  /-- So it is with each of its statements and blocks, and with each round of a loop: what ends it
  before its own end is a return of its own. -/
  nested : ∀ d b, a.Follows d b → b.task.Executes → b.task.Walks b.trail b.status? ∧
    Mark.OneReturn b.status? b.marks ∧ (b = a ∨ b.marks <:+: a.trail)

namespace Machine

variable {fuel : Nat} {p : Program} {m₀ : Machine} {a : Moment}

/-- The evaluation of a condition is told. -/
theorem condition_mem_trail {b : Moment} {d : Nat} {e : Expr} {m : Machine} (hb : a.Follows d b)
    (hc : b.Calls (.evaluate e) m)
    (ht : (∃ yes no, b.task = .execute (.branch e yes no)) ∨ ∃ body, b.task = .iterate e body) :
    ∃ holds, .condition e holds ∈ a.trail := by
  have hw : (b.call (.evaluate e) m).waiting = a.waiting :=
    (Moment.exists_follows_iff.1 ⟨d, hb⟩).2
  have hmark : ∃ holds, b.mark? (b.call (.evaluate e) m) = some (.condition e holds) := by
    obtain ⟨yes, no, ht⟩ | ⟨body, ht⟩ := ht
    · exact ⟨_, by simp only [Moment.mark?, ht, Moment.call]; rfl⟩
    · exact ⟨_, by simp only [Moment.mark?, ht, Moment.call]; rfl⟩
  obtain ⟨holds, hmark⟩ := hmark
  exact ⟨holds, Moment.mem_trail_iff.2 ⟨b, _, ⟨d, hb⟩, hc.opens, hw, hmark⟩⟩

namespace Begins

variable {b : Moment} {d : Nat} {o : Option Expr} {v : Value}

theorem task (h : Begins fuel p m₀ a) : a.task = .executeAll a.context.callable.routine.body := by
  cases h <;> rfl

theorem executes (h : Begins fuel p m₀ a) : a.task.Executes := h.task ▸ trivial

/-- In an activation a return is the last statement, and it is there if there is a value. -/
theorem oneReturn (h : Begins fuel p m₀ a) : Mark.OneReturn a.status? a.trail := by
  have hmarks : a.marks = a.trail := by
    rw [Moment.marks, h.task]
    rfl
  rw [← hmarks]
  exact Moment.oneReturn h.executes

/-- The execution of a statement is told. -/
theorem statement_mem_trail (h : Begins fuel p m₀ a) {s : Stmt} (hb : a.Follows d b)
    (ht : b.task = .execute s) : .statement s b.status? ∈ a.trail := by
  have hmem : .statement s b.status? ∈ b.marks := by
    rw [Moment.marks, ht]
    exact List.mem_cons_self
  obtain rfl | hpart := Moment.marks_infix_trail hb (ht ▸ trivial)
  · exact absurd (h.task.symm.trans ht) nofun
  · exact hpart.subset hmem

theorem gives (h : Begins fuel p m₀ a) (hb : a.Follows d b) (ht : b.task = .execute (.return o))
    (hv : b.status? = some (.returned v)) : b.Gives o v :=
  have hwithin := (Moment.exists_follows_iff.1 ⟨d, hb⟩).1
  Moment.gives_of_returned (h.reaches.within hwithin).isolated ht hv

/-- **A return that is completed gives the activation its value.** -/
theorem completed (h : Begins fuel p m₀ a) (hb : a.Follows d b)
    (ht : b.task = .execute (.return o)) (hv : b.status? = some (.returned v)) :
    b.Gives o v ∧ a.status? = some (.returned v) := by
  have hmem := h.statement_mem_trail hb ht
  rw [hv] at hmem
  exact ⟨h.gives hb ht hv, h.oneReturn.status_eq hmem⟩

/-- **A value comes from a return.** -/
theorem exists_return (h : Begins fuel p m₀ a) (hv : a.status? = some (.returned v)) :
    ∃ d b o, a.Follows d b ∧ b.task = .execute (.return o) ∧ b.status? = some (.returned v) ∧
      b.Gives o v ∧ [.statement (.return o) (some (.returned v))] <:+ a.trail := by
  have hone := h.oneReturn
  rw [hv] at hone
  obtain ⟨o, hlast⟩ := hone.exists_return
  have hmem := hlast.subset List.mem_cons_self
  obtain ⟨b, c, ⟨d, hb⟩, ho, hw, hmark⟩ := Moment.mem_trail_iff.1 hmem
  obtain ⟨ht, hc⟩ := Moment.mark?_eq_statement hmark
  have hwithin := (Moment.exists_follows_iff.1 ⟨d, hb⟩).1
  obtain ⟨d', hd⟩ := Moment.exists_follows_iff.2 ⟨hwithin.tail ho, hw⟩
  exact ⟨d', c, o, hd, ht, hc, h.gives hd ht hc, hlast⟩

theorem proceed_iff (h : Begins fuel p m₀ a) {status : Status} (hs : a.status? = some status) :
    status = .proceed ↔ ∀ k ∈ a.trail, ¬k.IsReturn := by
  have hone := h.oneReturn
  rw [hs] at hone
  cases status with
  | proceed => exact ⟨fun _ => hone.not_isReturn, fun _ => rfl⟩
  | returned v =>
      obtain ⟨o, hlast⟩ := hone.exists_return
      have hmem := hlast.subset List.mem_cons_self
      exact ⟨nofun, fun hno => absurd trivial (hno _ hmem)⟩

theorem unwinds (h : Begins fuel p m₀ a) : a.Unwinds where
  statements _ _ _ := h.statement_mem_trail
  conditions _ _ _ _ := condition_mem_trail
  walks := h.task ▸ Moment.walks h.executes
  last _ _ _ := h.oneReturn.last
  completed _ _ _ _ := h.completed
  returned _ := h.exists_return
  proceeds _ := h.proceed_iff
  silent status hs hno := by
    rw [(h.proceed_iff hs).2 hno]
    rfl
  nested _ _ hb ht := ⟨Moment.walks ht, Moment.oneReturn ht, Moment.marks_infix_trail hb ht⟩

end Begins

/-- **Return unwinds exactly one activation.**  What an activation does is a way through its body on
which a return is the last statement, and nothing is asked after it; its value goes to the caller,
which goes on with what made the call. -/
theorem return_unwinds_one_activation (h : Begins fuel p m₀ a) :
    a.Unwinds ∧ HandsOver fuel p m₀ a :=
  ⟨h.unwinds, h.handsOver⟩

end Machine

/-- A program in which a loop is left by a return, after others have been left in the calls of its
condition:

    func square(n) { while (true) { return n * n; } }
    func root(limit) {
        i = 0;
        while (true) {
            i = i + 1;
            if (limit < square(i)) { return i; }
        }
        return;
    }
    func main() { print(root(3)); } -/
def Program.root : Program where
  routines :=
    [.mk "square" [⟨"n", false⟩]
      [.loop (.truth true) [.return (some (.binary .mul (.variable "n") (.variable "n")))]],
    .mk "root" [⟨"limit", false⟩]
      [.assign (.variable "i") (.int 0),
        .loop (.truth true)
          [.assign (.variable "i") (.binary .add (.variable "i") (.int 1)),
            .branch (.binary .lt (.variable "limit") (.call (.mk (.name "square") [.variable "i"])))
              [.return (some (.variable "i"))] none],
        .return none],
    .mk "main" [] [.call (.mk (.name "print") [.call (.mk (.name "root") [.int 3])])]]

namespace Machine

/-- The second round of the loop in `root` is its last one. -/
theorem return_unwinds_one_activation_root : ∃ a : Moment,
    Begins 60 .root (.initial {}) a ∧ a.trail.length = 11 ∧
      a.status?.map (fun status => status.value.printed) = some "2" ∧
        a.Unwinds ∧ HandsOver 60 .root (.initial {}) a := by
  have hd : ((replay 60 .root (.initial {}) [0, 0, 0, 0, 0, 0, 0]).any fun i =>
      i.openings.any fun a => decide (i.waiting < a.waiting ∧ a.trail.length = 11 ∧
        a.status?.map (fun status => status.value.printed) = some "2")) = true := by
    decide +kernel
  obtain ⟨i, hi, hd⟩ := (Option.any_eq_true _ _).1 hd
  obtain ⟨a, ha, hd⟩ := List.any_eq_true.1 hd
  obtain ⟨hw, hlength, hvalue⟩ := of_decide_eq_true hd
  have h := begins_of_opens (reaches_of_replay hi) (Moment.mem_openings_iff.1 ha) hw
  obtain ⟨hunwinds, hhands⟩ := return_unwinds_one_activation h
  exact ⟨a, h, hlength, hvalue, hunwinds, hhands⟩

end Machine

/-- A program in which a return has no value:

    func f() { return; }
    func main() { print(f() == nil); } -/
def Program.bareReturn : Program where
  routines :=
    [.mk "f" [] [.return none],
    .mk "main" []
      [.call (.mk (.name "print") [.binary .eq (.call (.mk (.name "f") [])) .nil])]]

namespace Machine

/-- **The value may be `nil` although a return has been executed.** -/
theorem value_nil_of_bare_return : ∃ (a : Moment) (status : Status),
    Begins 60 .bareReturn (.initial {}) a ∧ a.status? = some status ∧
      ¬(status.value = .nil ↔ ∀ k ∈ a.trail, ¬k.IsReturn) := by
  have hd : ((replay 60 .bareReturn (.initial {}) [0, 0, 0, 0, 0, 0, 0, 0]).any fun i =>
      i.openings.any fun a => decide (i.waiting < a.waiting ∧
        a.status?.map (fun status => status.value.type) = some .nil ∧
          ∃ k ∈ a.trail, k.IsReturn)) = true := by
    decide +kernel
  obtain ⟨i, hi, hd⟩ := (Option.any_eq_true _ _).1 hd
  obtain ⟨a, ha, hd⟩ := List.any_eq_true.1 hd
  obtain ⟨hw, hvalue, k, hk, hreturn⟩ := of_decide_eq_true hd
  obtain ⟨status, hstatus, htype⟩ := Option.map_eq_some_iff.1 hvalue
  have hnil : status.value = .nil := by
    cases hv : status.value <;> rw [hv] at htype <;> first | rfl | cases htype
  have h := begins_of_opens (reaches_of_replay hi) (Moment.mem_openings_iff.1 ha) hw
  exact ⟨a, status, h, hstatus, fun hiff => hiff.1 hnil k hk hreturn⟩

end Machine
end ProtoScript
