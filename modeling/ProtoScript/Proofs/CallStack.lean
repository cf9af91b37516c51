import ProtoScript.Proofs.Balance
/-!
# The call stack of a failure

A failure names the activations whose bodies were being executed when the fault
was found, the outermost first.  Which these are is read off the way that leads
from the start of `main` to that moment (`Moment.Stack`): a task that is called
for belongs to the same activations, a block does, and only the body of a
routine adds one, under the name by which the call names it and with the number
of its parameters.

Whatever a call does before that body starts (it looks for what it calls, checks
the number of arguments, evaluates them) belongs to the caller
(`Moment.Prepares`).

A step that fails tells the fault alone; where an activation is left, it attaches
the activations that run then, unless some are told already, and `main` does the
same.  So the proof has two halves.  A task that fails leads to a single step that
does (`Moment.exists_raises`).  And on the way out from there nothing is told before
the first activation is left, which is the innermost of those whose bodies were
being executed, and the machine still keeps all of them; whatever is left later
changes nothing (`Moment.Stack.fails`).
-/

namespace ProtoScript

/-! ### Where a script halts -/

namespace Script

variable {α : Type} {answer : (t : Task) → Eval t.Result}

/-- A script that halts leads to a step, to a call or to statements elsewhere that halt. -/
inductive Halts (answer : (t : Task) → Eval t.Result) (s : Script α) (m : Machine) (h : Halt) :
    Prop where
  /-- It halts in a step of its own. -/
  | act {β : Type} {x : Eval β} {next : β → Script α} {m₁ m' : Machine}
      (hl : s.Leads answer m (.act x next) m₁) (hx : x m₁ = .error h m')
  /-- It halts in a task that it calls for. -/
  | call {t : Task} {next : t.Result → Script α} {m₁ m' : Machine}
      (hl : s.Leads answer m (.call t next) m₁) (hr : answer t m₁ = .error h m')
  /-- It halts in statements that it executes elsewhere, for what is there `e`. -/
  | inside {p : Surroundings} {l : List Stmt} {next : Status → Script α} {e : Halt}
      {m₁ m' : Machine} (hl : s.Leads answer m (.inside p l next) m₁)
      (hr : answer (.executeAll l) (p.enter m₁) = .error e m') (he : h = p.halted m' e)

theorem Halts.of_leads {s s' : Script α} {m m₁ : Machine} {h : Halt}
    (hl : s.Leads answer m s' m₁) (hh : s'.Halts answer m₁ h) : s.Halts answer m h := by
  cases hh with
  | act h' hx => exact .act (hl.trans h') hx
  | call h' hr => exact .call (hl.trans h') hr
  | inside h' hr he => exact .inside (hl.trans h') hr he

/-- A script halts in one of these ways. -/
theorem halts_of_run {h : Halt} {m' : Machine} : ∀ {s : Script α} {m : Machine},
    s.run answer m = .error h m' → s.Halts answer m h
  | .done _, _, hs => by cases hs
  | .act x next, m, hs => by
      simp only [run] at hs
      cases hx : x m with
      | ok b m₁ => rw [hx] at hs; exact .of_leads (.act hx .refl) (halts_of_run hs)
      | error e m₁ => rw [hx] at hs; cases hs; exact .act .refl hx
  | .call t next, m, hs => by
      simp only [run] at hs
      cases hr : answer t m with
      | ok r m₁ => rw [hr] at hs; exact .of_leads (.call hr .refl) (halts_of_run hs)
      | error e m₁ => rw [hr] at hs; cases hs; exact .call .refl hr
  | .inside p l next, m, hs => by
      simp only [run] at hs
      cases hr : p.run (answer (.executeAll l)) m with
      | ok r m₁ => rw [hr] at hs; exact .of_leads (.inside hr .refl) (halts_of_run hs)
      | error e m₁ =>
          rw [hr] at hs
          cases hs
          obtain ⟨e, m₂, hb, he, -⟩ := Surroundings.run_eq_error.1 hr
          exact .inside .refl hb he

end Script

namespace Moment

variable {a b c : Moment} {l k : List Frame} {fault : Fault}

/-- A fault is found at a moment: a step of its script fails.  The failure tells the fault and no
activation. -/
inductive Raises (a : Moment) (fault : Fault) : Prop where
  /-- The script has come to a step that fails. -/
  | step {β : Type} {x : Eval β} {next : β → Script a.task.Result} {m m' : Machine}
      (ha : 0 < a.fuel)
      (h : a.task.script.Leads (perform (a.fuel - 1)) a.machine (.act x next) m)
      (hx : x m = .error (.failed ⟨fault, []⟩) m')

/-- On the way out a failure keeps its fault. -/
theorem halted_eq_failed {p : Surroundings} {m : Machine} {e : Halt} {f : Failure}
    (h : .failed f = p.halted m e) : ∃ g : Failure, e = .failed g ∧ f.fault = g.fault := by
  cases p with
  | block => exact ⟨f, h.symm, rfl⟩
  | activation label callable environment =>
      cases e with
      | failed g =>
          cases h
          exact ⟨g, rfl, g.fault_attach _⟩
      | unfinished => cases h

/-- **A task that fails does so in a single step**, its own or one of a task within. -/
theorem exists_raises {n : Nat} {t : Task} {m m' : Machine} {γ : Context} {f : Failure}
    (h : perform n t m = .error (.failed f) m') :
    ∃ b, Within ⟨n, t, m, γ⟩ b ∧ b.Raises f.fault := by
  induction n generalizing t m m' γ f with
  | zero => cases h
  | succ n ih =>
      cases Script.halts_of_run h with
      | @act β x next m₁ m₂ hl hx =>
          have hstep := (hl.every (Script.every Eval.tame t)).1
          obtain ⟨fault, frames⟩ := f
          obtain rfl : frames = [] := hstep.bare hx
          exact ⟨_, .refl, .step n.succ_pos hl hx⟩
      | @call t' next m₁ m₂ hl hr =>
          obtain ⟨b, hw, hb⟩ := ih (γ := γ) hr
          exact ⟨b, .head (.call (a := ⟨n + 1, t, m, γ⟩) n.succ_pos hl) hw, hb⟩
      | @inside p l next e m₁ m₂ hl hr he =>
          obtain ⟨g, rfl, hfault⟩ := halted_eq_failed he
          obtain ⟨b, hw, hb⟩ := ih (γ := p.context m₁.environment γ) hr
          exact ⟨b, .head (.inside (a := ⟨n + 1, t, m, γ⟩) n.succ_pos hl) hw, hfault ▸ hb⟩

/-- The machines at which a moment opens others have the activations of the moment. -/
theorem frames_of_leads {s : Script a.task.Result} {m : Machine}
    (h : a.task.script.Leads (perform (a.fuel - 1)) a.machine s m) :
    m.frames = a.machine.frames :=
  (h.level (Script.steady _)).1.frames

/-- The task of a moment fails. -/
def Fails (a : Moment) (f : Failure) : Prop :=
  ∃ m, perform a.fuel a.task a.machine = .error (.failed f) m

/-- **A fault that is found is at first told without activations.** -/
theorem Raises.fails (h : b.Raises fault) : b.Fails ⟨fault, []⟩ := by
  obtain @⟨β, x, next, m, m', hb, hl, hx⟩ := h
  refine ⟨m', (perform_eq_of_leads hb hl).trans ?_⟩
  simp only [Script.run, hx]

/-! ### The bodies that are being executed -/

/-- The script of a moment calls for a task, on a machine. -/
def Calls (a : Moment) (t : Task) (m : Machine) : Prop :=
  0 < a.fuel ∧ ∃ next : t.Result → Script a.task.Result,
    a.task.script.Leads (perform (a.fuel - 1)) a.machine (.call t next) m

/-- The script of a moment executes statements in given surroundings, on a machine. -/
def Enters (a : Moment) (p : Surroundings) (s : List Stmt) (m : Machine) : Prop :=
  0 < a.fuel ∧ ∃ next : Status → Script a.task.Result,
    a.task.script.Leads (perform (a.fuel - 1)) a.machine (.inside p s next) m

/-- The call of the moment `c` invokes, under the name by which it names it, what it has found: `i`
is the moment of the invocation. -/
inductive Invokes (c : Moment) : String → Callable → Moment → Prop where
  /-- A routine is called by its name, a method by the name of the member. -/
  | call {callee : Callee} {args : List Expr} {callable : Callable}
      {receiver : Option (Address .object)} {m : Machine} (hc : c.task = .call (.mk callee args))
      (h : c.Calls (.invoke callee.label callable args receiver) m) :
      Invokes c callee.label callable (c.call (.invoke callee.label callable args receiver) m)

/-- From a moment to one within: the activations whose bodies have been entered in between and are
being executed, the innermost first. -/
inductive Stack (a : Moment) : List Frame → Moment → Prop where
  /-- The moment itself. -/
  | refl : Stack a [] a
  /-- A task that is called for. -/
  | call {l : List Frame} {b : Moment} {t : Task} {m : Machine} (h : Stack a l b)
      (ht : b.Calls t m) : Stack a l (b.call t m)
  /-- The statements of a block. -/
  | block {l : List Frame} {b : Moment} {s : List Stmt} {m : Machine} (h : Stack a l b)
      (hs : b.Enters .block s m) : Stack a l (b.inside .block s m)
  /-- The body of a routine that is called. -/
  | body {l : List Frame} {c i : Moment} {label : String} {callable : Callable}
      {e : Environment} {m : Machine} (h : Stack a l c) (hi : c.Invokes label callable i)
      (hb : i.Enters (.activation label callable e) callable.routine.body m) :
      Stack a (⟨label, callable.routine.arity⟩ :: l)
        (i.inside (.activation label callable e) callable.routine.body m)

/-- From a call to a moment within that does not belong to the body of what is called, and the
activations in between: those of other calls, in the receiver or in the arguments. -/
inductive Prepares (c : Moment) : List Frame → Moment → Prop where
  /-- The call itself, which looks for what it calls. -/
  | site : Prepares c [] c
  /-- The evaluation of the receiver, or a routine of the language with its arguments. -/
  | operand {l : List Frame} {b : Moment} {t : Task} {m : Machine}
      (ht : ∀ label callable args receiver, t ≠ .invoke label callable args receiver)
      (h : c.Calls t m) (hb : (c.call t m).Stack l b) : Prepares c l b
  /-- The invocation, which checks the number of arguments. -/
  | invocation {i : Moment} {label : String} {callable : Callable}
      (hi : c.Invokes label callable i) : Prepares c [] i
  /-- The evaluation of the arguments. -/
  | argument {l : List Frame} {b i : Moment} {label : String} {callable : Callable} {t : Task}
      {m : Machine} (hi : c.Invokes label callable i) (h : i.Calls t m)
      (hb : (i.call t m).Stack l b) : Prepares c l b

/-- From a call to a moment that belongs to the body of what is called: the outermost of the
activations in between is that of the call. -/
inductive Executes (c : Moment) : List Frame → Moment → Prop where
  /-- The body and all that it calls. -/
  | body {l : List Frame} {b i : Moment} {label : String} {callable : Callable}
      {e : Environment} {m : Machine} (hi : c.Invokes label callable i)
      (hb : i.Enters (.activation label callable e) callable.routine.body m)
      (h : (i.inside (.activation label callable e) callable.routine.body m).Stack l b) :
      Executes c (l ++ [⟨label, callable.routine.arity⟩]) b

theorem Calls.opens {t : Task} {m : Machine} (h : a.Calls t m) : a.Opens (a.call t m) := by
  obtain ⟨ha, next, hl⟩ := h
  exact .call ha hl

theorem Enters.opens {p : Surroundings} {s : List Stmt} {m : Machine} (h : a.Enters p s m) :
    a.Opens (a.inside p s m) := by
  obtain ⟨ha, next, hl⟩ := h
  exact .inside ha hl

theorem Calls.mayCall {t : Task} {m : Machine} (h : a.Calls t m) : a.task.MayCall t := by
  obtain ⟨-, next, hl⟩ := h
  exact (hl.every (Script.every Eval.tame a.task)).1

theorem Enters.mayEnter {p : Surroundings} {s : List Stmt} {m : Machine} (h : a.Enters p s m) :
    a.task.MayEnter p s := by
  obtain ⟨-, next, hl⟩ := h
  exact (hl.every (Script.every Eval.tame a.task)).1

theorem Calls.frames {t : Task} {m : Machine} (h : a.Calls t m) : m.frames = a.machine.frames := by
  obtain ⟨-, next, hl⟩ := h
  exact frames_of_leads hl

theorem Enters.frames {p : Surroundings} {s : List Stmt} {m : Machine} (h : a.Enters p s m) :
    m.frames = a.machine.frames := by
  obtain ⟨-, next, hl⟩ := h
  exact frames_of_leads hl

theorem Invokes.opens {label : String} {callable : Callable} {i : Moment}
    (h : c.Invokes label callable i) : c.Opens i := by
  cases h with
  | call _ h => exact h.opens

theorem Invokes.frames {label : String} {callable : Callable} {i : Moment}
    (h : c.Invokes label callable i) : i.machine.frames = c.machine.frames := by
  cases h with
  | call _ h => exact h.frames

/-- A routine is invoked by a call that names it. -/
theorem Calls.invokes {label : String} {callable : Callable} {args : List Expr}
    {receiver : Option (Address .object)} {m : Machine}
    (h : c.Calls (.invoke label callable args receiver) m) :
    c.Invokes label callable (c.call (.invoke label callable args receiver) m) := by
  obtain ⟨callee, hc, rfl⟩ := h.mayCall
  exact .call hc h

theorem Stack.trans (h : a.Stack l b) (h' : b.Stack k c) : a.Stack (k ++ l) c := by
  induction h' with
  | refl => exact h
  | call _ ht ih => exact .call ih ht
  | block _ hs ih => exact .block ih hs
  | body _ hi hb ih => exact .body ih hi hb

/-- **The machine keeps the activations whose bodies are being executed.** -/
theorem Stack.frames_eq (h : a.Stack l b) : b.machine.frames = l ++ a.machine.frames := by
  induction h with
  | refl => rfl
  | call _ ht ih => exact ht.frames.trans ih
  | block _ hs ih => exact hs.frames.trans ih
  | @body l c i label callable e m _ hi hb ih =>
      have hm : m.frames = l ++ a.machine.frames := hb.frames.trans (hi.frames.trans ih)
      show ⟨label, callable.routine.arity⟩ :: m.frames = _
      rw [hm, List.cons_append]

/-! ### The way out -/

theorem Fails.unique {f g : Failure} (hf : a.Fails f) (hg : a.Fails g) : f = g := by
  obtain ⟨m, hm⟩ := hf
  obtain ⟨m', hm'⟩ := hg
  cases hm.symm.trans hm'
  rfl

/-- The failure of a task that is called for is that of the script. -/
theorem Calls.fails {t : Task} {m : Machine} {f : Failure} (h : a.Calls t m)
    (hf : (a.call t m).Fails f) : a.Fails f := by
  obtain ⟨ha, next, hl⟩ := h
  obtain ⟨m', hm⟩ := hf
  have hr : perform (a.fuel - 1) t m = .error (.failed f) m' := hm
  refine ⟨m', (perform_eq_of_leads ha hl).trans ?_⟩
  simp only [Script.run, hr]

theorem Invokes.fails {label : String} {callable : Callable} {i : Moment} {f : Failure}
    (h : c.Invokes label callable i) (hf : i.Fails f) : c.Fails f := by
  cases h with
  | call _ h => exact h.fails hf

/-- What fails elsewhere fails here, with what is attached on the way. -/
theorem Enters.fails {p : Surroundings} {s : List Stmt} {m : Machine} {f g : Failure}
    (h : a.Enters p s m) (hf : (a.inside p s m).Fails f)
    (hg : ∀ m' : Machine, m'.frames = (p.enter m).frames →
      p.halted m' (.failed f) = .failed g) : a.Fails g := by
  obtain ⟨ha, next, hl⟩ := h
  obtain ⟨m', hm⟩ := hf
  have hr : perform (a.fuel - 1) (.executeAll s) (p.enter m) = .error (.failed f) m' := hm
  refine ⟨p.leave m.environment m', (perform_eq_of_leads ha hl).trans ?_⟩
  simp only [Script.run, Surroundings.run, hr, hg m' (level_of_perform_eq_error hr).frames]

/-- **On the way out a failure keeps its activations, or gets those of the machine where it was
found.** -/
theorem Stack.fails {f : Failure} (h : a.Stack l b) (hf : b.Fails f) :
    a.Fails (if l = [] then f else f.attach (l ++ a.machine.frames).reverse) := by
  induction h generalizing f with
  | refl => exact hf
  | call _ ht ih => exact ih (ht.fails hf)
  | block _ hs ih => exact ih (hs.fails hf fun _ _ => rfl)
  | @body l c i label callable e m hc hi hb ih =>
      have hframes : m.frames = l ++ a.machine.frames :=
        hb.frames.trans (hi.frames.trans hc.frames_eq)
      have hi' : i.Fails (f.attach (⟨label, callable.routine.arity⟩ :: l ++
          a.machine.frames).reverse) := by
        refine hb.fails hf fun m' hm' => ?_
        have hm'' : m'.frames = ⟨label, callable.routine.arity⟩ :: m.frames := hm'
        rw [Surroundings.halted, hm'', hframes]
        rfl
      have hc' := ih (hi.fails hi')
      -- Activations are told now, so nothing is attached farther out.
      rw [Failure.attach_of_ne_nil (f.frames_attach_ne_nil (by simp)), ite_self] at hc'
      rw [if_neg (List.cons_ne_nil _ _)]
      exact hc'

/-- **A fault that is found is told without activations up to the first that is left, and from there
on with those of the machine where it was found.** -/
theorem Raises.told (h : b.Raises fault) (hl : a.Stack l b) :
    a.Fails ⟨fault, if l = [] then [] else b.machine.frames.reverse⟩ := by
  have ha := hl.fails h.fails
  rw [Failure.attach_nil, ← hl.frames_eq] at ha
  split
  · next hnil => rwa [if_pos hnil] at ha
  · next hne => rwa [if_neg hne] at ha

/-- There is a stack for every moment within, unless an invocation was begun before. -/
theorem exists_stack
    (ha : ∀ label callable args receiver, a.task ≠ .invoke label callable args receiver)
    (hb : a.Within b) : ∃ l, a.Stack l b := by
  suffices h : ∃ l, a.Stack l b ∧ ∀ label callable args receiver,
      b.task = .invoke label callable args receiver →
        ∃ c, a.Stack l c ∧ c.Invokes label callable b by
    obtain ⟨l, hl, -⟩ := h
    exact ⟨l, hl⟩
  induction hb with
  | refl => exact ⟨[], .refl, fun _ _ _ _ h => absurd h (ha _ _ _ _)⟩
  | @tail b c _ ho ih =>
      obtain ⟨l, hl, hi⟩ := ih
      cases ho with
      | @call t m next hn h =>
          have hcall : b.Calls t m := ⟨hn, next, h⟩
          refine ⟨l, .call hl hcall, fun label callable args receiver ht => ?_⟩
          obtain rfl : t = .invoke label callable args receiver := ht
          exact ⟨b, hl, hcall.invokes⟩
      | @inside p s m next hn h =>
          have henter : b.Enters p s m := ⟨hn, next, h⟩
          cases p with
          | block => exact ⟨l, .block hl henter, nofun⟩
          | activation label callable e =>
              obtain ⟨rfl, args, receiver, ht, -⟩ := henter.mayEnter
              obtain ⟨c, hc, hinv⟩ := hi label callable args receiver ht
              exact ⟨_, .body hc hinv henter, nofun⟩

/-- **A moment within a call prepares it or belongs to the body of what is called.** -/
theorem Stack.prepares_or_executes {q : Call} (hc : c.task = .call q) (h : c.Stack l b) :
    c.Prepares l b ∨ c.Executes l b := by
  induction h with
  | refl => exact .inl .site
  | @call l b t m h ht ih =>
      obtain hp | hb := ih
      · refine .inl ?_
        cases hp with
        | site =>
            by_cases hinv : ∃ label callable args receiver, t = .invoke label callable args receiver
            · obtain ⟨label, callable, args, receiver, rfl⟩ := hinv
              exact .invocation ht.invokes
            · exact .operand (fun label callable args receiver h => hinv ⟨_, _, _, _, h⟩) ht .refl
        | operand hn h' hb => exact .operand hn h' (hb.call ht)
        | invocation hi => exact .argument hi ht .refl
        | argument hi h' hb => exact .argument hi h' (hb.call ht)
      · cases hb with
        | body hi hb h' => exact .inr (.body hi hb (h'.call ht))
  | @block l b s m h hs ih =>
      obtain hp | hb := ih
      · cases hp with
        | site =>
            have henter : c.task = .block s := hs.mayEnter
            rw [hc] at henter
            cases henter
        | operand hn h' hb => exact .inl (.operand hn h' (hb.block hs))
        | invocation hi =>
            cases hi with
            | call _ _ => cases hs.mayEnter
        | argument hi h' hb => exact .inl (.argument hi h' (hb.block hs))
      · cases hb with
        | body hi hb h' => exact .inr (.body hi hb (h'.block hs))
  | @body l d i label callable e m h hi hb ih =>
      obtain hp | hb' := ih
      · cases hp with
        | site => exact .inr (.body (l := []) hi hb .refl)
        | operand hn h' hd => exact .inl (.operand hn h' (hd.body hi hb))
        | invocation hi' =>
            cases hi' with
            | call _ _ =>
                cases hi with
                | call hd _ => cases hd
        | argument hi' h' hd => exact .inl (.argument hi' h' (hd.body hi hb))
      · cases hb' with
        | body hi' hb' h' => exact .inr (.body hi' hb' (h'.body hi hb))

theorem Prepares.stack (h : c.Prepares l b) : c.Stack l b := by
  cases h with
  | site => exact .refl
  | operand _ h hb => exact List.append_nil l ▸ (Stack.refl.call h).trans hb
  | invocation hi =>
      cases hi with
      | call _ h => exact .call .refl h
  | argument hi h hb =>
      cases hi with
      | call _ hc => exact List.append_nil l ▸ ((Stack.refl.call hc).call h).trans hb

/-- What the call stack of a failure tells of the run of a program whose `main` starts at the
moment `a`. -/
structure Blamed (a : Moment) (f : Failure) : Prop where
  /-- There is a moment at which the fault is found. -/
  raised : ∃ l b, a.Stack l b ∧ b.Raises f.fault
  /-- No other fault is found in the run. -/
  only : ∀ b fault, a.Within b → b.Raises fault → fault = f.fault
  /-- The call stack is `main`, followed by the activations whose bodies are being executed at that
  moment. -/
  frames : ∀ l b, a.Stack l b → b.Raises f.fault → f.frames = ⟨Machine.mainName, 0⟩ :: l.reverse
  /-- So it is written down. -/
  text : ∀ l b, a.Stack l b → b.Raises f.fault →
    f.diagnostic.frames = "main/0" :: l.reverse.map Frame.text
  /-- On the way out no activation is told before the first is left, and from there on the call
  stack is the same. -/
  carried : ∀ l c k b, a.Stack l c → c.Stack k b → b.Raises f.fault →
    c.Fails ⟨f.fault, if k = [] then [] else f.frames⟩
  /-- What is raised before the body of what is called belongs to the caller. -/
  caller : ∀ l c k b, a.Stack l c → c.Prepares k b → b.Raises f.fault →
    f.frames = ⟨Machine.mainName, 0⟩ :: (l.reverse ++ k.reverse)
  /-- What is raised within a call is raised before the body, or in it. -/
  callee : ∀ l c q b, a.Stack l c → c.task = .call q → c.Within b → b.Raises f.fault →
    ∃ k, (c.Prepares k b ∨ c.Executes k b) ∧
      f.frames = ⟨Machine.mainName, 0⟩ :: (l.reverse ++ k.reverse)

end Moment

/-! ### The call stack -/

namespace Machine

variable {fuel : Nat} {p : Program} {m₀ m : Machine} {f : Failure}

/-- A program is refused before anything of it is executed. -/
inductive Refuses (p : Program) : Fault → Prop where
  /-- A routine is defined twice. -/
  | redefined {fault : Fault} (h : RoutineTable.ofProgram p = .error fault) : Refuses p fault
  /-- There is no routine to start with. -/
  | noMain {routines : RoutineTable} (h : RoutineTable.ofProgram p = .ok routines)
      (hr : routines.lookup? mainName 0 = none) : Refuses p .noMain

/-- **The failure of `main` and of all that it calls tells the activations.** -/
theorem blamed_of_start {r : Routine} (hm₀ : m₀.frames = [])
    (h : start fuel r m₀ = .error (.failed f) m) : (main fuel r m₀).Blamed f := by
  have hframes : (main fuel r m₀).machine.frames = [⟨mainName, 0⟩] := by
    show ⟨mainName, 0⟩ :: m₀.frames = _
    rw [hm₀]
  -- What leaves the body of `main` is a failure `g`; `main` is attached if it tells no activation.
  obtain ⟨g, hg, rfl⟩ : ∃ g, (main fuel r m₀).Fails g ∧ f = g.attach [⟨mainName, 0⟩] := by
    obtain ⟨e, hperform, he⟩ := start_eq_error_iff.1 h
    cases e with
    | unfinished => cases he
    | failed g =>
        cases he
        exact ⟨g, ⟨_, hperform⟩, by rw [hm₀]; rfl⟩
  have hfault : (g.attach [⟨mainName, 0⟩]).fault = g.fault := g.fault_attach _
  have htold : ∀ l b, (main fuel r m₀).Stack l b → b.Raises g.fault →
      (g.attach [⟨mainName, 0⟩]).frames = ⟨mainName, 0⟩ :: l.reverse := fun l b hl hb => by
    rw [hg.unique (hb.told hl), hl.frames_eq, hframes, List.reverse_append]
    split
    · next hnil => rw [hnil]; rfl
    · rfl
  have hwithin : ∀ b, (main fuel r m₀).Within b → ∃ l, (main fuel r m₀).Stack l b := fun b hb =>
    Moment.exists_stack nofun hb
  refine ⟨?_, ?_, hfault ▸ htold, ?_, ?_, ?_, ?_⟩
  · obtain ⟨m₁, hperform⟩ := hg
    obtain ⟨b, hw, hb⟩ := Moment.exists_raises (γ := (main fuel r m₀).context) hperform
    obtain ⟨l, hl⟩ := hwithin b hw
    exact ⟨l, b, hl, hfault ▸ hb⟩
  · intro b fault hw hb
    obtain ⟨l, hl⟩ := hwithin b hw
    rw [hfault, hg.unique (hb.told hl)]
  · intro l b hl hb
    rw [Failure.diagnostic, htold l b hl (hfault ▸ hb), List.map_cons]
    rfl
  · intro l c k b hl hk hb
    have hc := hb.told hk
    rw [hk.frames_eq, hl.frames_eq, hframes, ← List.append_assoc, List.reverse_append] at hc
    rw [htold _ b (hl.trans hk) (hfault ▸ hb)]
    exact hc
  · intro l c k b hl hp hb
    rw [htold _ b (hl.trans hp.stack) (hfault ▸ hb), List.reverse_append]
  · intro l c q b hl hc hw hb
    obtain ⟨k, hk⟩ := Moment.exists_stack (a := c) (by simp [hc]) hw
    refine ⟨k, hk.prepares_or_executes hc, ?_⟩
    rw [htold _ b (hl.trans hk) (hfault ▸ hb), List.reverse_append]

/-- **The call stack of a failure.**  A run that fails was refused when it was loaded, and then the
call stack is empty, or it found `main`, and then the call stack tells the activations whose bodies
were being executed when the fault was found. -/
theorem call_stack_of_failure (h : run fuel p m₀ = .error (.failed f) m) :
    (Refuses p f.fault ∧ f.frames = [] ∧ f.diagnostic.frames = []) ∨
      ∃ routines r, RoutineTable.ofProgram p = .ok routines ∧
        routines.lookup? mainName 0 = some r ∧ (main fuel r (m₀.load routines)).Blamed f := by
  cases hp : RoutineTable.ofProgram p with
  | error fault =>
      rw [run, hp] at h
      cases h
      exact .inl ⟨.redefined hp, rfl, rfl⟩
  | ok routines =>
      cases hr : routines.lookup? mainName 0 with
      | none =>
          simp only [run, hp, hr] at h
          cases h
          exact .inl ⟨.noMain hp hr, rfl, rfl⟩
      | some r =>
          rw [run_eq_start hp hr] at h
          exact .inr ⟨routines, r, rfl, hr, blamed_of_start rfl h⟩

end Machine

/-- A program that fails in a call after another call of the same routine has returned:

    func share(n) { return 10 / n; }
    func main() { share(share(20)); } -/
def Program.secondShare : Program where
  routines :=
    [.mk "share" [⟨"n", false⟩] [.return (some (.binary .div (.int 10) (.variable "n")))],
    .mk "main" [] [.call (.mk (.name "share") [.call (.mk (.name "share") [.int 20])])]]

namespace Machine

/-- The failure with which a run ends. -/
def failureOf? : EStateM.Result Halt Machine Value → Option Failure
  | .error (.failed f) _ => some f
  | _ => none

/-- The call that has returned is not on the stack, the one that is being executed is. -/
theorem call_stack_of_failure_secondShare : ∃ (f : Failure) (m : Machine),
    run 40 .secondShare (.initial {}) = .error (.failed f) m ∧
      f.diagnostic.frames = ["main/0", "share/1"] ∧
        ((Refuses .secondShare f.fault ∧ f.frames = [] ∧ f.diagnostic.frames = []) ∨
          ∃ routines r, RoutineTable.ofProgram .secondShare = .ok routines ∧
            routines.lookup? mainName 0 = some r ∧
              (main 40 r ((initial {}).load routines)).Blamed f) := by
  have hf : failureOf? (run 40 .secondShare (.initial {}))
      = some ⟨.divisionByZero, [⟨"main", 0⟩, ⟨"share", 1⟩]⟩ := by decide +kernel
  cases hrun : run 40 .secondShare (.initial {}) with
  | ok v m => rw [hrun] at hf; cases hf
  | error h m =>
      cases h with
      | unfinished => rw [hrun] at hf; cases hf
      | failed f =>
          rw [hrun] at hf
          obtain rfl : f = _ := Option.some.inj hf
          exact ⟨_, m, rfl, by decide +kernel, call_stack_of_failure hrun⟩

end Machine
end ProtoScript
