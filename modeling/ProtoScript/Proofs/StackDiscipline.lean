import ProtoScript.Proofs.Effects
import ProtoScript.Proofs.Replay
/-!
# Stack discipline

An activation starts with one scope, or with three if a closure brings one in,
and every block of a branch or a loop that is entered adds one scope until it is
left.  So the number of scopes at a statement is known from where the statement
stands in its body (`Stmt.Nested`), whichever way the run has come there
(`Moment.Follows`).

The main theorem collects what a task leaves as it was: the scopes of the
environment, the activations that run, and the names that the scopes bind.
-/

namespace ProtoScript

/-- The statements `l` stand in a body, enclosed by so many blocks of branches and loops. -/
inductive Stmt.Nested (body : List Stmt) : Nat → List Stmt → Prop where
  /-- The body is enclosed by none. -/
  | body : Nested body 0 body
  /-- The statements after the first. -/
  | rest {d : Nat} {s : Stmt} {l : List Stmt} (h : Nested body d (s :: l)) : Nested body d l
  /-- The first block of a branch. -/
  | yes {d : Nat} {e : Expr} {yes : List Stmt} {no : Option (List Stmt)} {l : List Stmt}
      (h : Nested body d (.branch e yes no :: l)) : Nested body (d + 1) yes
  /-- The other block of a branch. -/
  | no {d : Nat} {e : Expr} {yes no : List Stmt} {l : List Stmt}
      (h : Nested body d (.branch e yes (some no) :: l)) : Nested body (d + 1) no
  /-- The block of a loop. -/
  | loop {d : Nat} {e : Expr} {block l : List Stmt} (h : Nested body d (.loop e block :: l)) :
      Nested body (d + 1) block

/-- Where a task stands in a body: enclosed by `d` blocks. -/
def Task.Stands (body : List Stmt) (d : Nat) : Task → Prop
  | .execute s => ∃ l, Stmt.Nested body d (s :: l)
  | .executeAll l => Stmt.Nested body d l
  | .block l => Stmt.Nested body (d + 1) l
  | .iterate e l => ∃ l', Stmt.Nested body d (.loop e l :: l')
  | _ => True

namespace Moment

/-- An activation starts: its body is executed in the scopes with which it starts. -/
structure Starts (a : Moment) : Prop where
  task : a.task = .executeAll a.context.callable.routine.body
  depth : a.machine.environment.depth = a.context.callable.depth

/-- From the start of an activation to a moment of it: so many blocks have been entered and not
been left. -/
inductive Follows (a : Moment) : Nat → Moment → Prop where
  /-- The start. -/
  | start : Follows a 0 a
  /-- A call for a task. -/
  | call {d : Nat} {b : Moment} {t : Task} {m : Machine} (h : Follows a d b)
      (ho : b.Opens (b.call t m)) : Follows a d (b.call t m)
  /-- The statements of a block. -/
  | block {d : Nat} {b : Moment} {l : List Stmt} {m : Machine} (h : Follows a d b)
      (ho : b.Opens (b.inside .block l m)) : Follows a (d + 1) (b.inside .block l m)

/-- The moment `b` belongs to the activation that starts at `a`, inside `d` blocks that enclose its
task. -/
structure Belongs (a : Moment) (d : Nat) (b : Moment) : Prop where
  starts : a.Starts
  follows : a.Follows d b
  context : b.context = a.context
  depth : b.machine.environment.depth = b.context.callable.depth + d
  stands : b.task.Stands b.context.callable.routine.body d

end Moment

/-- **The contract of nesting**: every moment belongs to an activation. -/
def nesting : Contract where
  before b := ∃ a d, Moment.Belongs a d b
  during _ _ := True
  result _ _ _ := True

namespace Nesting

variable {a : Moment} {P : Moment → Prop} {m : Machine}

/-- What a task calls for stands where the task stands. -/
theorem stands_of_asks {t t' : Task} (h : t.Asks t') {body : List Stmt} {d : Nat}
    (hs : t.Stands body d) : t'.Stands body d := by
  cases h with
  | yes e yes no => exact .yes hs.choose_spec
  | no e yes no => exact .no hs.choose_spec
  | loop e l => exact hs
  | round e l => exact .loop hs.choose_spec
  | again e l => exact hs
  | first s l => exact ⟨l, hs⟩
  | rest s l => exact .rest hs
  | _ => trivial

/-- A task may be called for that stands where the script stands. -/
theorem allows {t : Task} (h : nesting.At P a m)
    (ht : ∀ body d, a.task.Stands body d → t.Stands body d) : nesting.Allows P a t m := by
  refine fun ho _ => ⟨?_, fun _ _ => trivial⟩
  obtain ⟨b, d, hb⟩ := h.before
  refine ⟨b, d, hb.starts, .call hb.follows ho, hb.context, ?_, ht _ _ hb.stands⟩
  change m.environment.depth = _
  rw [h.passes.level.environment]
  exact hb.depth

/-- The scopes with which an activation starts. -/
theorem depth_scopesFor (s : Store) (callable : Callable) :
    (Eval.scopesFor s callable).depth = callable.depth := by
  cases callable <;> rfl

/-- **The scripts keep to where they stand.** -/
theorem stepwise : nesting.Stepwise (fun _ => True) fun _ _ _ _ => True where
  opens _ _ := trivial
  start _ _ _ := trivial
  still _ _ _ := trivial
  plain _ _ := trivial
  operand _ := trivial
  listed _ _ _ := trivial
  result _ _ _ _ := trivial
  asks h ht := allows h fun _ _ => stands_of_asks ht
  invokes h _ _ := allows h fun _ _ _ => trivial
  answer _ _ _ _ _ _ _ := trivial
  copied _ _ _ := ⟨trivial, trivial⟩
  prototype _ _ := trivial
  capture _ _ := ⟨trivial, trivial⟩
  newObject _ := ⟨trivial, trivial⟩
  activate _ _ _ _ := trivial
  receive _ _ _ := trivial
  parameters h _ _ _ := allows h fun _ _ _ => trivial
  body _ _ _ _ _ := fun _ _ => ⟨⟨_, 0, ⟨rfl, depth_scopesFor _ _⟩, .start, rfl,
    depth_scopesFor _ _, .body⟩, fun _ _ => trivial⟩
  block {a l} h ht := by
    refine fun ho _ => ⟨?_, fun _ _ => trivial⟩
    obtain ⟨b, d, hb⟩ := h.before
    have hs := hb.stands
    rw [ht] at hs
    exact ⟨b, d + 1, hb.starts, .block hb.follows ho, hb.context, congrArg (· + 1) hb.depth, hs⟩
  outside _ _ _ _ _ _ _ := trivial
  bind _ _ _ := trivial
  bindCopy _ _ _ _ := trivial
  share _ _ _ := trivial
  assign _ _ _ _ _ _ _ _ := ⟨trivial, fun _ _ => trivial⟩
  setProto _ _ := trivial
  setField _ _ _ _ := trivial
  released _ _ _ := ⟨trivial, trivial⟩

end Nesting

/-- **Every script keeps the contract of nesting.** -/
theorem nesting_kept : nesting.Kept fun _ => True :=
  Nesting.stepwise.kept

/-- **Every moment of a run belongs to an activation.** -/
theorem Machine.Reaches.belongs {fuel : Nat} {p : Program} {m : Machine} {b : Moment}
    (h : Machine.Reaches fuel p m b) : ∃ a d, Moment.Belongs a d b := by
  induction h with
  | main _ _ => exact ⟨_, 0, ⟨rfl, rfl⟩, .start, rfl, rfl, .body⟩
  | opens _ hb ih => exact nesting_kept.before_of_opens trivial ih hb

/-! ### Names -/

/-- A plain assignment fails only where its expression fails. -/
theorem evaluate_failed_of_assign {n : Nat} {name : String} {e : Expr} {m m' : Machine}
    {f : Failure} (c : Context)
    (h : perform (n + 1) (.execute (.assign (.variable name) e)) m = .error (.failed f) m') :
    ∃ m₁ : Machine, m₁.store = m.store ∧ m₁.environment = m.environment ∧
      perform n (.evaluate e) m₁ = .error (.failed f) m' ∧
        Moment.Opens ⟨n + 1, .execute (.assign (.variable name) e), m, c⟩
          ⟨n, .evaluate e, m₁, c⟩ := by
  have hl : (Script.execute (.assign (.variable name) e)).Leads (perform n) m
      (.call (.evaluate e) fun v => .act (Eval.assign name v) fun _ => .done .proceed)
      ((m.report (.executed (Stmt.assign (.variable name) e).label m.environment.depth)).report
        (.assigned name)) := .act rfl (.act rfl .refl)
  refine ⟨(m.report (.executed (Stmt.assign (.variable name) e).label
    m.environment.depth)).report (.assigned name), rfl, rfl, ?_, .call n.succ_pos hl⟩
  have hrun := hl.run_eq.symm.trans h
  simp only [Script.run] at hrun
  split at hrun
  · cases hrun
  · next hr =>
      cases hrun
      exact hr

/-- A statement that fails binds no name. -/
theorem binding?_of_failed {a : Moment} (ha : isolation.before a) {s : Stmt}
    (ht : a.task = .execute s) {f : Failure} {m : Machine}
    (hm : perform a.fuel a.task a.machine = .error (.failed f) m) {x : Address .scope}
    (hx : x.index < a.machine.store.scopes.size) {name : String}
    (hn : a.machine.store.binding? x name = none) : m.store.binding? x name = none := by
  obtain ⟨n, t, m₀, c⟩ := a
  obtain rfl : t = .execute s := ht
  have hsame : ∀ {b : Moment}, isolation.before b → b.Ends m →
      b.machine.store = m₀.store → (∀ x name, ¬b.task.Binds b.machine x name) →
        m.store.binding? x name = none := by
    intro b hb hbm hs hbinds
    refine ((hbm.evolves hb).gained x name ?_ ?_).resolve_left (hbinds x name)
    · rw [hs]
      exact hx
    · rw [hs]
      exact hn
  cases ht : s.target? with
  | none =>
      refine hsame ha (.inr ⟨f, hm⟩) rfl fun x name hb => ?_
      have hb' := hb.1
      rw [ht] at hb'
      cases hb'
  | some y =>
      -- A plain assignment fails in its expression, and an expression binds nothing.
      have hs : ∃ e, s = .assign (.variable y) e := by
        unfold Stmt.target? at ht
        split at ht <;> cases ht
        exact ⟨_, rfl⟩
      obtain ⟨e, rfl⟩ := hs
      cases n with
      | zero => cases hm
      | succ n =>
          obtain ⟨m₁, hs, -, hm₁, ho⟩ := evaluate_failed_of_assign c hm
          exact hsame (isolation_kept.before_of_opens trivial ha ho) (.inr ⟨f, hm₁⟩) hs
            fun _ _ hb => hb

/-! ### The discipline -/

/-- What the task of a moment leaves as it was, and where a statement is executed. -/
structure Moment.Disciplined (a : Moment) : Prop where
  /-- With a result, the environment is the same list of scopes and the same activations run. -/
  level_of_ok : ∀ r m, perform a.fuel a.task a.machine = .ok r m → a.machine.Level m
  /-- So it is where the task halts, for whatever reason. -/
  level_of_error : ∀ e m, perform a.fuel a.task a.machine = .error e m → a.machine.Level m
  /-- No name is lost. -/
  kept : ∀ m, a.Ends m → ∀ x name, (a.machine.store.binding? x name).isSome →
    (m.store.binding? x name).isSome
  /-- A scope of the environment has no new name but one that the task may bind there. -/
  gained : ∀ m, a.Ends m → ∀ x ∈ a.machine.environment.scopes, ∀ name,
    (m.store.binding? x name).isSome → (a.machine.store.binding? x name).isSome ∨
      a.task.Binds a.machine x name
  /-- A plain assignment that succeeds binds a name that was found nowhere in the innermost
  scope. -/
  assigned : ∀ name e, a.task = .execute (.assign (.variable name) e) →
    a.machine.store.lookup a.machine.environment name = none →
      ∀ r m, perform a.fuel a.task a.machine = .ok r m →
        (m.store.binding? a.machine.environment.innermost name).isSome
  /-- A statement that fails binds nothing. -/
  failed : ∀ s, a.task = .execute s → ∀ f m,
    perform a.fuel a.task a.machine = .error (.failed f) m →
      ∀ x ∈ a.machine.environment.scopes, ∀ name, (m.store.binding? x name).isSome →
        (a.machine.store.binding? x name).isSome
  /-- A statement that stands inside `d` blocks of its body is executed `d` scopes deeper than the
  activation starts. -/
  depth : ∀ s, a.task = .execute s → ∃ (b : Moment) (d : Nat) (l : List Stmt), b.Starts ∧
    b.Follows d a ∧ b.context = a.context ∧ Stmt.Nested a.context.callable.routine.body d (s :: l) ∧
      a.machine.environment.depth = a.context.callable.depth + d

/-- After a run that has started `main`, one scope is left. -/
theorem Machine.depth_of_start {fuel : Nat} {r : Routine} {m : Machine}
    {routines : RoutineTable} :
    (∀ v m', start fuel r (m.load routines) = .ok v m' → m'.environment.depth = 1) ∧
      ∀ e m', start fuel r (m.load routines) = .error e m' → m'.environment.depth = 1 := by
  constructor
  · intro v m' hv
    obtain ⟨status, m₁, hr, -, rfl⟩ := start_eq_ok_iff.1 hv
    exact congrArg Environment.depth (level_of_perform_eq_ok hr).environment
  · intro e m' he
    obtain ⟨e', hr, -⟩ := start_eq_error_iff.1 he
    exact congrArg Environment.depth (level_of_perform_eq_error hr).environment

/-- A run that reaches a moment has started `main`. -/
theorem Machine.Reaches.run_eq_start {fuel : Nat} {p : Program} {m : Machine} {a : Moment}
    (h : Machine.Reaches fuel p m a) :
    ∃ r routines, run fuel p m = start fuel r (m.load routines) := by
  induction h with
  | main h hr => exact ⟨_, _, Machine.run_eq_start h hr⟩
  | opens _ _ ih => exact ih

theorem Machine.Reaches.disciplined {fuel : Nat} {p : Program} {m₀ : Machine} {a : Moment}
    (h : Machine.Reaches fuel p m₀ a) : a.Disciplined where
  level_of_ok _ _ := level_of_perform_eq_ok
  level_of_error _ _ := level_of_perform_eq_error
  kept m hm x name hb := by
    obtain ⟨b, hb⟩ := Option.isSome_iff_exists.1 hb
    obtain ⟨b', hb', -⟩ := (hm.evolves h.isolated).kept x name b hb
    rw [hb']
    rfl
  gained m hm x hx name hb := by
    cases hn : a.machine.store.binding? x name with
    | some b => exact .inl rfl
    | none =>
        obtain hX | hn' := (hm.evolves h.isolated).gained x name (h.there hx) hn
        · exact .inr hX
        · rw [hn'] at hb
          cases hb
  assigned name e ht hn r m hr := by
    obtain ⟨hev, hres⟩ := (effects_kept a).of_ok ⟨.refl, h.isolated⟩ trivial hr
    have hl : m.environment = a.machine.environment := (level_of_perform_eq_ok hr).environment
    have hfound := hres name e ht
    rw [hl] at hfound
    -- The name is found afterwards, and it can be new in the innermost scope alone.
    cases hi : m.store.binding? a.machine.environment.innermost name with
    | some b => rfl
    | none =>
        refine absurd (Store.lookup_eq_none.2 fun x hx => ?_) hfound
        obtain hX | hn' := hev.gained x name (h.there hx) (Store.lookup_eq_none.1 hn x hx)
        · rw [ht] at hX
          rw [hX.2.1]
          exact hi
        · exact hn'
  failed s ht f m hm x hx name hb := by
    cases hn : a.machine.store.binding? x name with
    | some b => rfl
    | none =>
        rw [binding?_of_failed h.isolated ht hm (h.there hx) hn] at hb
        cases hb
  depth s ht := by
    obtain ⟨b, d, hb⟩ := h.belongs
    have hs := hb.stands
    rw [ht] at hs
    obtain ⟨l, hl⟩ := hs
    exact ⟨b, d, l, hb.starts, hb.follows, hb.context.symm, hl, hb.depth⟩

/-- **Stack discipline.**  However a task ends, the environment and the activations that run are
those before it, and its scopes bind the names that they bound but for those that plain assignments
put into the innermost scope; a statement is executed as deep as it stands in its body; and a run
that has started `main` ends with one scope. -/
theorem stack_discipline {fuel : Nat} {p : Program} {m₀ : Machine} {a : Moment}
    (h : Machine.Reaches fuel p m₀ a) :
    a.Disciplined ∧
      (∀ v m, Machine.run fuel p m₀ = .ok v m → m.environment.depth = 1) ∧
      ∀ e m, Machine.run fuel p m₀ = .error e m → m.environment.depth = 1 := by
  obtain ⟨r, routines, hrun⟩ := h.run_eq_start
  rw [hrun]
  exact ⟨h.disciplined, Machine.depth_of_start⟩

/-- The discipline holds where a closure that is running calls a routine. -/
theorem stack_discipline_reentry : ∃ a : Moment,
    Machine.Reaches 60 .reentry (.initial {}) a ∧
      a.machine.environment.depth = 4 ∧ a.Disciplined := by
  have hd : ((Machine.replay 60 .reentry (.initial {}) [1, 1, 1, 0, 0, 1, 1, 0, 1, 0, 0]).any
      fun a => decide (a.machine.environment.depth = 4)) = true := by decide +kernel
  obtain ⟨a, ha, hdepth⟩ := (Option.any_eq_true _ _).1 hd
  have h := Machine.reaches_of_replay ha
  exact ⟨a, h, of_decide_eq_true hdepth, (stack_discipline h).1⟩

end ProtoScript
