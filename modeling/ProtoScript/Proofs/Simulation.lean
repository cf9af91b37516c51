import ProtoScript.Proofs.Lockstep
import ProtoScript.Run
/-!
# Performing tasks in lockstep

A task and the same task under other names are performed in lockstep, each of their
steps with the one that corresponds to it (`simulates`).  The induction is on the
bound, with one case for each form of task.

In an activation with the origin `o` a task has the names of `o` throughout; only
what is called may be of another origin, and there the names of its parameters and
its body change while those of its arguments do not.
-/

namespace ProtoScript

variable {ν : Naming} {κ κ' : Origins} {o : Origin}

namespace Script

variable {α β : Type} (answer : (t : Task) → Eval t.Result)

theorem run_bind (k : β → Script α) : ∀ s : Script β,
    (s >>= k).run answer = s.run answer >>= fun b => (k b).run answer
  | .done b => rfl
  | .act x next => by
      funext m
      simp only [andThen, run, bind, EStateM.bind]
      cases x m with
      | ok b m => exact congrFun (run_bind k (next b)) m
      | error h m => rfl
  | .call t next => by
      funext m
      simp only [andThen, run, bind, EStateM.bind]
      cases answer t m with
      | ok r m => exact congrFun (run_bind k (next r)) m
      | error h m => rfl
  | .inside p l next => by
      funext m
      simp only [andThen, run, bind, EStateM.bind]
      cases p.run (answer (.executeAll l)) m with
      | ok s m => exact congrFun (run_bind k (next s)) m
      | error h m => rfl

theorem run_liftM (x : Eval α) : (liftM x : Script α).run answer = x := by
  funext m
  simp only [liftM_eq, run]
  cases x m <;> rfl

theorem run_ask (t : Task) : (ask t).run answer = answer t := by
  funext m
  simp only [ask, run]
  cases answer t m <;> rfl

theorem run_inside (p : Surroundings) (l : List Stmt) :
    (inside p l done).run answer = p.run (answer (.executeAll l)) := by
  funext m
  simp only [run]
  cases p.run (answer (.executeAll l)) m <;> rfl

theorem run_liftM_bind (x : Eval β) (k : β → Script α) :
    ((liftM x : Script β) >>= k).run answer = x >>= fun b => (k b).run answer := by
  rw [run_bind, run_liftM]

theorem run_ask_bind (t : Task) (k : t.Result → Script α) :
    (ask t >>= k).run answer = answer t >>= fun r => (k r).run answer := by
  rw [run_bind, run_ask]

end Script

/-- How a statement of the first run ends and how that of the second does. -/
inductive Status.Mirrors (ν : Naming) (κ : Origins) : Status → Status → Prop where
  /-- The next statement is due. -/
  | proceed : Mirrors ν κ .proceed .proceed
  /-- The activation has a value. -/
  | returned {v v' : Value} (h : v.Mirrors ν κ v') : Mirrors ν κ (.returned v) (.returned v')

/-- All tasks are performed in lockstep, with calls as deep as `n`. -/
structure Simulates (ν : Naming) (n : Nat) : Prop where
  evaluate : ∀ {κ o} (e : Expr), Lockstep ν κ o (Value.Mirrors ν)
    (perform n (.evaluate e)) (perform n (.evaluate (e.rename (ν o))))
  evaluateAll : ∀ {κ o} (l : List Expr), Lockstep ν κ o (fun κ => List.Forall₂ (Value.Mirrors ν κ))
    (perform n (.evaluateAll l)) (perform n (.evaluateAll (Expr.renameAll (ν o) l)))
  call : ∀ {κ o} (c : Call), Lockstep ν κ o (Value.Mirrors ν)
    (perform n (.call c)) (perform n (.call (c.rename (ν o))))
  builtin : ∀ {κ o} (b : Builtin) (args : List Expr), Lockstep ν κ o (Value.Mirrors ν)
    (perform n (.builtin b args)) (perform n (.builtin b (Expr.renameAll (ν o) args)))
  invoke : ∀ {κ o oc c c'} (label label' : String) (args : List Expr)
    (receiver : Option (Address .object)), Callable.Mirrors ν κ oc c c' →
      Lockstep ν κ o (Value.Mirrors ν) (perform n (.invoke label c args receiver))
        (perform n (.invoke label' c' (Expr.renameAll (ν o) args) receiver))
  bind : ∀ {κ o oc e} (l : List (Param × Expr)), κ.Covers oc e →
    Lockstep ν κ o (fun _ _ _ => True) (perform n (.bind e l))
      (perform n (.bind e (l.map (Prod.map (Param.rename (ν oc)) (Expr.rename (ν o))))))
  execute : ∀ {κ o} (s : Stmt), Lockstep ν κ o (Status.Mirrors ν)
    (perform n (.execute s)) (perform n (.execute (s.rename (ν o))))
  executeAll : ∀ {κ o} (l : List Stmt), Lockstep ν κ o (Status.Mirrors ν)
    (perform n (.executeAll l)) (perform n (.executeAll (Stmt.renameAll (ν o) l)))
  block : ∀ {κ o} (l : List Stmt), Lockstep ν κ o (Status.Mirrors ν)
    (perform n (.block l)) (perform n (.block (Stmt.renameAll (ν o) l)))
  iterate : ∀ {κ o} (condition : Expr) (body : List Stmt), Lockstep ν κ o (Status.Mirrors ν)
    (perform n (.iterate condition body))
    (perform n (.iterate (condition.rename (ν o)) (Stmt.renameAll (ν o) body)))

theorem Builtin.ofName?_naming (hν : ν.Faithful) (o : Origin) (name : String) :
    ofName? (ν o name) = ofName? name := by
  have hiff : ∀ b : Builtin, b.name = ν o name ↔ b.name = name := by
    intro b
    rw [← hν.builtin o b, (hν.injective o).eq_iff]
    rw [hν.builtin o b]
  rw [ofName?, ofName?]
  refine congrArg (fun p => List.find? p _) (funext fun b => ?_)
  rw [Bool.eq_iff_iff, beq_iff_eq, beq_iff_eq, hiff]

theorem Value.Mirrors.printed_map {l l' : List Value} (h : List.Forall₂ (Value.Mirrors ν κ) l l') :
    l'.map Value.printed = l.map Value.printed := by
  induction h with
  | nil => rfl
  | cons hv _ ih => rw [List.map_cons, List.map_cons, hv.printed, ih]

namespace Simulates

open Script

variable {n : Nat}

/-! ### Expressions and calls -/

theorem evaluate_succ (hν : ν.Faithful) (h : Simulates ν n) (e : Expr) :
    Lockstep ν κ o (Value.Mirrors ν) (perform (n + 1) (.evaluate e))
      (perform (n + 1) (.evaluate (e.rename (ν o)))) := by
  simp only [perform, Task.script]
  cases e with
  | int value => exact .pure (.int value)
  | text value => exact .pure (.text value)
  | truth value => exact .pure (.truth value)
  | nil => exact .pure .nil
  | «variable» name =>
      rw [Expr.rename, Script.evaluate, Script.evaluate, run_liftM, run_liftM]
      exact .readVariable hν name
  | field object name =>
      rw [Expr.rename, Script.evaluate, Script.evaluate, run_ask_bind, run_ask_bind]
      refine (h.evaluate object).bind fun κ₁ _ v v' hv => ?_
      rw [run_liftM, run_liftM]
      exact .readField name hv
  | call c =>
      rw [Expr.rename, Script.evaluate, Script.evaluate, run_ask, run_ask]
      exact h.call c
  | binary op left right =>
      rw [Expr.rename, Script.evaluate, Script.evaluate, run_ask_bind, run_ask_bind]
      refine (h.evaluate left).bind fun κ₁ _ v v' hv => ?_
      rw [run_ask_bind, run_ask_bind]
      refine (h.evaluate right).bind fun κ₂ h₂ w w' hw => ?_
      rw [run_liftM, run_liftM, (hv.mono h₂).binary hν op hw]
      exact .lift_self fun u hu => .of_literal (Operation.literal_of_binary hu)
  | unary op operand =>
      rw [Expr.rename, Script.evaluate, Script.evaluate, run_ask_bind, run_ask_bind]
      refine (h.evaluate operand).bind fun κ₁ _ v v' hv => ?_
      rw [run_liftM, run_liftM, hv.unary op]
      exact .lift_self fun u hu => .of_literal (Operation.literal_of_unary hu)
  | lambda r =>
      rw [Expr.rename, Script.evaluate, Script.evaluate, run_liftM_bind, run_liftM_bind]
      exact (Lockstep.capture hν r false).bind fun κ₁ _ c c' hc => .pure hc
  | newObject =>
      rw [Expr.rename, Script.evaluate, run_liftM]
      exact .newObject

theorem evaluateAll_succ (h : Simulates ν n) (l : List Expr) :
    Lockstep ν κ o (fun κ => List.Forall₂ (Value.Mirrors ν κ)) (perform (n + 1) (.evaluateAll l))
      (perform (n + 1) (.evaluateAll (Expr.renameAll (ν o) l))) := by
  simp only [perform, Task.script]
  cases l with
  | nil => exact .pure .nil
  | cons e l =>
      rw [Expr.renameAll, Script.evaluateAll, Script.evaluateAll, run_ask_bind, run_ask_bind]
      refine (h.evaluate e).bind fun κ₁ _ v v' hv => ?_
      rw [run_ask_bind, run_ask_bind]
      exact (h.evaluateAll l).bind fun κ₂ h₂ vs vs' hvs => .pure (.cons (hv.mono h₂) hvs)

theorem call_succ (hν : ν.Faithful) (h : Simulates ν n) (c : Call) :
    Lockstep ν κ o (Value.Mirrors ν) (perform (n + 1) (.call c))
      (perform (n + 1) (.call (c.rename (ν o)))) := by
  simp only [perform, Task.script]
  obtain ⟨callee, args⟩ := c
  cases callee with
  | name name =>
      rw [Call.rename, Callee.rename, evaluateCall, evaluateCall, Builtin.ofName?_naming hν,
        Expr.length_renameAll]
      cases Builtin.ofName? name with
      | some b =>
          simp only []
          rw [run_ask, run_ask]
          exact h.builtin b args
      | none =>
          simp only []
          rw [run_liftM_bind, run_liftM_bind]
          refine (Lockstep.resolve hν name args.length).bind fun κ₁ _ c c' hc => ?_
          obtain ⟨oc, hc⟩ := hc
          rw [run_ask, run_ask]
          exact h.invoke _ _ args none hc
  | method object name =>
      rw [Call.rename, Callee.rename, evaluateCall, evaluateCall, Expr.length_renameAll,
        run_ask_bind, run_ask_bind]
      refine (h.evaluate object).bind fun κ₁ _ v v' hv => ?_
      rw [run_liftM_bind, run_liftM_bind]
      refine (Lockstep.objectOf name hv).bind fun κ₂ _ a a' ha => ?_
      cases ha
      rw [run_liftM_bind, run_liftM_bind]
      refine (Lockstep.method a name args.length).bind fun κ₃ _ c c' hc => ?_
      obtain ⟨oc, hc⟩ := hc
      rw [run_ask, run_ask]
      exact h.invoke _ _ args (some a) hc

theorem prompt_mirrors (h : Simulates ν n) (b : Builtin) (args : List Expr) :
    Lockstep ν κ o (Value.Mirrors ν) ((prompt b args).run (perform n))
      ((prompt b (Expr.renameAll (ν o) args)).run (perform n)) := by
  rw [prompt, prompt, Expr.length_renameAll]
  split
  · rw [run_liftM]
    exact .raise rfl
  · rw [run_ask_bind, run_ask_bind]
    refine (h.evaluateAll args).bind fun κ₁ _ vs vs' hvs => ?_
    rw [Value.Mirrors.printed_map hvs, run_liftM_bind]
    refine (Lockstep.printAll _).bind fun κ₂ _ _ _ _ => ?_
    rw [run_liftM_bind]
    refine (Lockstep.readLine b).bind fun κ₃ _ line line' hline => ?_
    cases hline
    split
    · rw [run_liftM]
      exact .integerOf line
    · exact .pure (.text line)

theorem builtin_succ (h : Simulates ν n) (b : Builtin) (args : List Expr) :
    Lockstep ν κ o (Value.Mirrors ν) (perform (n + 1) (.builtin b args))
      (perform (n + 1) (.builtin b (Expr.renameAll (ν o) args))) := by
  simp only [perform, Task.script]
  cases b with
  | print =>
      rw [evaluateBuiltin, evaluateBuiltin, run_ask_bind, run_ask_bind]
      refine (h.evaluateAll args).bind fun κ₁ _ vs vs' hvs => ?_
      rw [run_liftM_bind, run_liftM_bind, Value.Mirrors.printed_map hvs]
      exact (Lockstep.print _).bind fun κ₂ _ _ _ _ => .pure .nil
  | readInteger => exact h.prompt_mirrors .readInteger args
  | readText => exact h.prompt_mirrors .readText args

theorem bindArgument_mirrors (hν : ν.Faithful) (h : Simulates ν n) {oc : Origin}
    {e : Environment} (he : κ.Covers oc e) (p : Param) (arg : Expr) :
    Lockstep ν κ o (fun _ _ _ => True) ((bindArgument e p arg).run (perform n))
      ((bindArgument e (p.rename (ν oc)) (arg.rename (ν o))).run (perform n)) := by
  -- An argument whose value is copied.
  have hcopied : ∀ arg : Expr, Lockstep ν κ o (fun _ _ _ => True)
      ((ask (.evaluate arg) >>= fun v => liftM (Eval.bindCopy e p.name v)).run (perform n))
      ((ask (.evaluate (arg.rename (ν o))) >>= fun v =>
        liftM (Eval.bindCopy e (ν oc p.name) v)).run (perform n)) := by
    intro arg
    rw [run_ask_bind, run_ask_bind]
    refine (h.evaluate arg).bind fun κ₁ h₁ v v' hv => ?_
    rw [run_liftM, run_liftM]
    exact .bindCopy hν (he.mono h₁) p.name hv
  cases arg with
  | lambda r =>
      rw [Expr.rename, bindArgument, bindArgument, run_liftM_bind, run_liftM_bind]
      refine (Lockstep.capture hν r p.byRef).bind fun κ₁ h₁ c c' hc => ?_
      rw [run_liftM, run_liftM]
      exact .bindValue hν (he.mono h₁) p.name hc
  | «variable» name =>
      have hcopy := hcopied (.variable name)
      rw [Expr.rename] at hcopy ⊢
      rw [bindArgument, bindArgument, Param.rename]
      by_cases hr : p.byRef = true
      · rw [if_pos hr, if_pos hr, run_liftM, run_liftM]
        exact .bindVariable hν he p.name name
      · rw [if_neg hr, if_neg hr]
        exact hcopy
  | _ => exact hcopied _

theorem bind_succ (hν : ν.Faithful) (h : Simulates ν n) {oc : Origin} {e : Environment}
    (l : List (Param × Expr)) (he : κ.Covers oc e) :
    Lockstep ν κ o (fun _ _ _ => True) (perform (n + 1) (.bind e l))
      (perform (n + 1)
        (.bind e (l.map (Prod.map (Param.rename (ν oc)) (Expr.rename (ν o)))))) := by
  simp only [perform, Task.script]
  match l with
  | [] => exact .pure trivial
  | (p, arg) :: l =>
      rw [List.map_cons, Prod.map, bindArguments, bindArguments, run_bind, run_bind]
      refine (h.bindArgument_mirrors hν he p arg).bind fun κ₁ h₁ _ _ _ => ?_
      rw [run_ask, run_ask]
      exact h.bind l (he.mono h₁)

theorem invoke_succ (hν : ν.Faithful) (h : Simulates ν n) {oc : Origin} {c c' : Callable}
    (label label' : String) (args : List Expr) (receiver : Option (Address .object))
    (hc : Callable.Mirrors ν κ oc c c') :
    Lockstep ν κ o (Value.Mirrors ν) (perform (n + 1) (.invoke label c args receiver))
      (perform (n + 1) (.invoke label' c' (Expr.renameAll (ν o) args) receiver)) := by
  simp only [perform, Task.script]
  rw [Script.invoke, Script.invoke, hc.routine, Routine.arity_rename, Expr.length_renameAll,
    Routine.params_rename, Routine.body_rename, Expr.renameAll_eq_map, List.zip_map]
  split
  · rw [run_liftM_bind, run_liftM_bind]
    refine (Lockstep.activate hc).bind fun κ₁ h₁ e e' he => ?_
    obtain ⟨rfl, he⟩ := he
    rw [run_liftM_bind, run_liftM_bind]
    refine (Lockstep.bindReceiver hν he receiver).bind fun κ₂ h₂ _ _ _ => ?_
    rw [run_ask_bind, run_ask_bind]
    refine (h.bind _ (he.mono h₂)).bind fun κ₃ h₃ _ _ _ => ?_
    rw [run_bind, run_bind, run_inside, run_inside]
    have he₃ := he.mono (h₂.trans h₃)
    refine (Lockstep.activation he₃ _ _ _ _ (h.executeAll c.routine.body)).bind ?_
    rintro κ₄ h₄ _ _ (_ | hv)
    · exact .pure .nil
    · exact .pure hv
  · rw [run_liftM, run_liftM]
    exact .raise rfl

/-! ### Statements -/

theorem execute_succ (hν : ν.Faithful) (h : Simulates ν n) (s : Stmt) :
    Lockstep ν κ o (Status.Mirrors ν) (perform (n + 1) (.execute s))
      (perform (n + 1) (.execute (s.rename (ν o)))) := by
  simp only [perform, Task.script, Script.execute, Stmt.label_rename]
  rw [run_liftM_bind, run_liftM_bind]
  refine (Lockstep.reportStatement _ _).bind fun κ₁ _ _ _ _ => ?_
  cases s with
  | assign target e =>
      cases target with
      | «variable» name =>
          rw [Stmt.rename, Target.rename, run_liftM_bind, run_liftM_bind]
          refine (Lockstep.report _ _).bind fun κ₂ _ _ _ _ => ?_
          rw [run_ask_bind, run_ask_bind]
          refine (h.evaluate e).bind fun κ₃ _ v v' hv => ?_
          rw [run_liftM_bind, run_liftM_bind]
          exact (Lockstep.assign hν name hv).bind fun κ₄ _ _ _ _ => .pure .proceed
      | field object name =>
          rw [Stmt.rename, Target.rename, run_liftM_bind, run_liftM_bind]
          refine (Lockstep.report _ _).bind fun κ₂ _ _ _ _ => ?_
          rw [run_ask_bind, run_ask_bind]
          refine (h.evaluate object).bind fun κ₃ _ v v' hv => ?_
          rw [run_ask_bind, run_ask_bind]
          refine (h.evaluate e).bind fun κ₄ h₄ w w' hw => ?_
          rw [run_liftM_bind, run_liftM_bind]
          refine (Lockstep.assignField name (hv.mono h₄) hw).bind fun κ₅ _ _ _ _ => ?_
          exact .pure .proceed
  | call c =>
      rw [Stmt.rename, run_ask_bind, run_ask_bind]
      exact (h.call c).bind fun κ₂ _ _ _ _ => .pure .proceed
  | branch condition yes no =>
      have hrename : (Stmt.branch condition yes no).rename (ν o)
          = .branch (condition.rename (ν o)) (Stmt.renameAll (ν o) yes)
              (no.map (Stmt.renameAll (ν o))) := by
        cases no <;> rfl
      rw [hrename, run_ask_bind, run_ask_bind]
      refine (h.evaluate condition).bind fun κ₂ _ v v' hv => ?_
      rw [run_liftM_bind, run_liftM_bind, hv.condition]
      refine (Lockstep.lift_self (R := fun _ b b' => b' = b) fun _ _ => rfl).bind
        fun κ₃ _ b b' hb => ?_
      subst hb
      cases b' with
      | true =>
          rw [if_pos rfl, if_pos rfl, run_ask, run_ask]
          exact h.block yes
      | false =>
          rw [if_neg (by simp), if_neg (by simp)]
          cases no with
          | some no =>
              rw [Option.map_some, run_ask, run_ask]
              exact h.block no
          | none => exact .pure .proceed
  | loop condition body =>
      rw [Stmt.rename, run_ask, run_ask]
      exact h.iterate condition body
  | «return» value =>
      cases value with
      | none => exact .pure (.returned .nil)
      | some e =>
          rw [Stmt.rename, run_ask_bind, run_ask_bind]
          refine (h.evaluate e).bind fun κ₂ _ v v' hv => ?_
          rw [run_liftM_bind, run_liftM_bind]
          exact (Lockstep.released hv).bind fun κ₃ _ w w' hw => .pure (.returned hw)

theorem executeAll_succ (h : Simulates ν n) (l : List Stmt) :
    Lockstep ν κ o (Status.Mirrors ν) (perform (n + 1) (.executeAll l))
      (perform (n + 1) (.executeAll (Stmt.renameAll (ν o) l))) := by
  simp only [perform, Task.script]
  cases l with
  | nil => exact .pure .proceed
  | cons s l =>
      rw [Stmt.renameAll, Script.executeAll, Script.executeAll, run_ask_bind, run_ask_bind]
      refine (h.execute s).bind ?_
      rintro κ₁ _ _ _ (_ | hv)
      · rw [run_ask, run_ask]
        exact h.executeAll l
      · exact .pure (.returned hv)

theorem block_succ (h : Simulates ν n) (l : List Stmt) :
    Lockstep ν κ o (Status.Mirrors ν) (perform (n + 1) (.block l))
      (perform (n + 1) (.block (Stmt.renameAll (ν o) l))) := by
  simp only [perform, Task.script]
  rw [run_inside, run_inside]
  exact .block (h.executeAll l)

theorem iterate_succ (h : Simulates ν n) (condition : Expr) (body : List Stmt) :
    Lockstep ν κ o (Status.Mirrors ν) (perform (n + 1) (.iterate condition body))
      (perform (n + 1)
        (.iterate (condition.rename (ν o)) (Stmt.renameAll (ν o) body))) := by
  simp only [perform, Task.script]
  rw [Script.iterate, Script.iterate, run_ask_bind, run_ask_bind]
  refine (h.evaluate condition).bind fun κ₁ _ v v' hv => ?_
  rw [run_liftM_bind, run_liftM_bind, hv.condition]
  refine (Lockstep.lift_self (R := fun _ b b' => b' = b) fun _ _ => rfl).bind
    fun κ₂ _ b b' hb => ?_
  subst hb
  cases b' with
  | true =>
      rw [if_pos rfl, if_pos rfl, run_ask_bind, run_ask_bind]
      refine (h.block body).bind ?_
      rintro κ₃ _ _ _ (_ | hv)
      · rw [run_ask, run_ask]
        exact h.iterate condition body
      · exact .pure (.returned hv)
  | false =>
      rw [if_neg (by simp), if_neg (by simp)]
      exact .pure .proceed

end Simulates

/-- **All tasks are performed in lockstep**, under every bound. -/
theorem simulates (hν : ν.Faithful) : ∀ n, Simulates ν n
  | 0 => by
      have hstop : ∀ {α : Type} {κ : Origins} {o : Origin} {R : Origins → α → α → Prop},
          Lockstep ν κ o R (Eval.stop : Eval α) Eval.stop :=
        fun _ _ hm => .error .unfinished hm.console
      constructor <;> intros <;> exact hstop
  | n + 1 => by
      have h := simulates hν n
      exact ⟨h.evaluate_succ hν, h.evaluateAll_succ, h.call_succ hν, h.builtin_succ,
        h.invoke_succ hν, h.bind_succ hν, h.execute_succ hν, h.executeAll_succ, h.block_succ,
        h.iterate_succ⟩

end ProtoScript
