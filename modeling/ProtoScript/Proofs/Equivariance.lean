import ProtoScript.Proofs.Past
import ProtoScript.Proofs.Simulation
/-!
# Tasks after a past

A task on a machine with a past is performed as it is on the machine without: the same
result with numbers moved by the closures of the past, on the same machine after the
past, or the same reason to halt.  The only task that holds a number itself is the
invocation of a closure, and it holds another one then (`Task.shift`).

This is true of each step.  It is true of the script of a task if it is true of the
tasks that the script calls for (`Script.shifts`), with one case for each form of
task, and so of every task under every bound (`perform_shifts`).
-/

namespace ProtoScript

namespace Task

/-- The task with another number if a closure is invoked. -/
def shift (n : Nat) : Task → Task
  | .invoke label callable args receiver => .invoke label (callable.shift n) args receiver
  | t => t

/-- What a task results in, with other numbers. -/
def shiftResult (n : Nat) : (t : Task) → t.Result → (t.shift n).Result
  | .evaluate _ | .call _ | .builtin .. | .invoke .. => Value.shift n
  | .evaluateAll _ => List.map (Value.shift n)
  | .bind .. => id
  | .execute _ | .executeAll _ | .block _ | .iterate .. => Status.shift n

end Task

/-- Every task is answered after a past as it is answered without one. -/
def Answers (π : Past) (answer : (t : Task) → Eval t.Result) : Prop :=
  ∀ t : Task, Eval.Shifts π (t.shiftResult π.closures) (answer t) (answer (t.shift π.closures))

namespace Script

open Eval (Shifts)

variable {π : Past} {α β γ δ : Type} {answer : (t : Task) → Eval t.Result}

theorem shifts_act {f : α → β} {g : γ → δ} {x : Eval α} {x' : Eval β} {k : α → Script γ}
    {k' : β → Script δ} (hx : Shifts π f x x')
    (hk : ∀ a, Shifts π g ((k a).run answer) ((k' (f a)).run answer)) :
    Shifts π g (((liftM x : Script α) >>= k).run answer)
      (((liftM x' : Script β) >>= k').run answer) := by
  rw [run_liftM_bind, run_liftM_bind]
  exact hx.bind hk

theorem shifts_ask {g : γ → δ} (h : Answers π answer) (t : Task) {k : t.Result → Script γ}
    {k' : (t.shift π.closures).Result → Script δ}
    (hk : ∀ r, Shifts π g ((k r).run answer) ((k' (t.shiftResult π.closures r)).run answer)) :
    Shifts π g ((ask t >>= k).run answer) ((ask (t.shift π.closures) >>= k').run answer) := by
  rw [run_ask_bind, run_ask_bind]
  exact (h t).bind hk

theorem shifts_evaluate (h : Answers π answer) (e : Expr) :
    Shifts π (Value.shift π.closures) ((evaluate e).run answer) ((evaluate e).run answer) := by
  cases e with
  | «variable» name =>
      rw [evaluate, run_liftM]
      exact .readVariable name
  | field object name =>
      refine shifts_ask h (.evaluate object) fun v => ?_
      rw [run_liftM, run_liftM]
      exact .readField v name
  | call c =>
      rw [evaluate, run_ask]
      exact h (.call c)
  | binary op left right =>
      refine shifts_ask h (.evaluate left) fun v => shifts_ask h (.evaluate right) fun w => ?_
      have hop := Operation.binary_shift π.closures op v w
      rw [run_liftM, run_liftM]
      show Shifts π _ _ (Eval.lift (Operation.binary op (v.shift π.closures) (w.shift π.closures)))
      rw [hop]
      exact .lift_self fun u hu => Value.shift_of_literal _ (Operation.literal_of_binary hu)
  | unary op operand =>
      refine shifts_ask h (.evaluate operand) fun v => ?_
      have hop := Operation.unary_shift π.closures op v
      rw [run_liftM, run_liftM]
      show Shifts π _ _ (Eval.lift (Operation.unary op (v.shift π.closures)))
      rw [hop]
      exact .lift_self fun u hu => Value.shift_of_literal _ (Operation.literal_of_unary hu)
  | lambda r => exact shifts_act (.capture r false) fun c => fun _ => rfl
  | newObject =>
      rw [evaluate, run_liftM]
      exact .newObject
  | _ => exact fun _ => rfl

theorem shifts_evaluateAll (h : Answers π answer) (l : List Expr) :
    Shifts π (List.map (Value.shift π.closures)) ((evaluateAll l).run answer)
      ((evaluateAll l).run answer) := by
  cases l with
  | nil => exact fun _ => rfl
  | cons e l =>
      refine shifts_ask h (.evaluate e) fun v => shifts_ask h (.evaluateAll l) fun vs => ?_
      exact fun _ => rfl

theorem shifts_evaluateCall (h : Answers π answer) (c : Call) :
    Shifts π (Value.shift π.closures) ((evaluateCall c).run answer)
      ((evaluateCall c).run answer) := by
  obtain ⟨callee, args⟩ := c
  cases callee with
  | name name =>
      rw [evaluateCall]
      cases Builtin.ofName? name with
      | some b =>
          show Shifts π _ ((ask (.builtin b args)).run answer) ((ask (.builtin b args)).run answer)
          rw [run_ask]
          exact h (.builtin b args)
      | none =>
          refine shifts_act (.resolve name args.length) fun callable => ?_
          rw [run_ask, run_ask]
          exact h (.invoke name callable args none)
  | method object name =>
      refine shifts_ask h (.evaluate object) fun v => ?_
      refine shifts_act (.objectOf name v) fun a => ?_
      refine shifts_act (.method a name args.length) fun callable => ?_
      rw [run_ask, run_ask]
      exact h (.invoke name callable args (some a))

theorem printed_shift_map (n : Nat) (l : List Value) :
    (l.map (Value.shift n)).map Value.printed = l.map Value.printed := by
  rw [List.map_map]
  exact List.map_congr_left fun v _ => v.printed_shift n

theorem shifts_prompt (h : Answers π answer) (b : Builtin) (args : List Expr) :
    Shifts π (Value.shift π.closures) ((prompt b args).run answer)
      ((prompt b args).run answer) := by
  rw [prompt]
  split
  · rw [run_liftM]
    exact .raise _
  · refine shifts_ask h (.evaluateAll args) fun vs => ?_
    refine shifts_act (f := id) ?_ fun _ => ?_
    · show Shifts π id _ (Eval.printAll ((vs.map (Value.shift π.closures)).map Value.printed))
      rw [printed_shift_map]
      exact .printAll _
    refine shifts_act (.readLine b) fun line => ?_
    by_cases hb : b = .readInteger
    · rw [if_pos hb, if_pos hb, run_liftM, run_liftM]
      exact .integerOf line
    · rw [if_neg hb, if_neg hb]
      exact fun _ => rfl

theorem shifts_evaluateBuiltin (h : Answers π answer) (b : Builtin) (args : List Expr) :
    Shifts π (Value.shift π.closures) ((evaluateBuiltin b args).run answer)
      ((evaluateBuiltin b args).run answer) := by
  cases b with
  | print =>
      refine shifts_ask h (.evaluateAll args) fun vs => ?_
      refine shifts_act (f := id) ?_ fun _ => fun _ => rfl
      show Shifts π id _ (Eval.print (String.join ((vs.map (Value.shift _)).map Value.printed)))
      rw [printed_shift_map]
      exact .print _
  | readInteger => exact shifts_prompt h .readInteger args
  | readText => exact shifts_prompt h .readText args

theorem shifts_invoke (h : Answers π answer) (label : String) (callable : Callable)
    (args : List Expr) (receiver : Option (Address .object)) :
    Shifts π (Value.shift π.closures) ((invoke label callable args receiver).run answer)
      ((invoke label (callable.shift π.closures) args receiver).run answer) := by
  rw [invoke, invoke, Callable.routine_shift]
  split
  · refine shifts_act (.activate callable) fun e => ?_
    refine shifts_act (.bindReceiver e receiver) fun _ => ?_
    refine shifts_ask h (.bind e _) fun _ => ?_
    rw [run_bind, run_bind, run_inside, run_inside]
    refine Shifts.bind (f := Status.shift π.closures) ?_ fun status => ?_
    · -- The frame of the activation has the arity of the routine, which holds no number.
      refine (h (.executeAll callable.routine.body)).inside _ _ (fun m => ?_) (fun _ _ => rfl)
        fun _ _ => rfl
      simp only [id, Surroundings.enter, Callable.routine_shift]
      rfl
    · cases status <;> exact fun _ => rfl
  · rw [run_liftM]
    exact .raise _

theorem shifts_bindArgument (h : Answers π answer) (e : Environment) (p : Param) (arg : Expr) :
    Shifts π id ((bindArgument e p arg).run answer) ((bindArgument e p arg).run answer) := by
  -- An argument whose value is copied.
  have hcopied : ∀ arg : Expr, Shifts π id
      ((ask (.evaluate arg) >>= fun v => liftM (Eval.bindCopy e p.name v)).run answer)
      ((ask (.evaluate arg) >>= fun v => liftM (Eval.bindCopy e p.name v)).run answer) := by
    intro arg
    refine shifts_ask h (.evaluate arg) fun v => ?_
    rw [run_liftM, run_liftM]
    exact .bindCopy e p.name v
  cases arg with
  | lambda r =>
      refine shifts_act (.capture r p.byRef) fun c => ?_
      rw [run_liftM, run_liftM]
      exact .bindValue e p.name (.closure c)
  | «variable» name =>
      rw [bindArgument]
      by_cases hr : p.byRef = true
      · rw [if_pos hr, run_liftM]
        exact .bindVariable e p.name name
      · rw [if_neg hr]
        exact hcopied (.variable name)
  | _ => exact hcopied _

theorem shifts_bindArguments (h : Answers π answer) (e : Environment)
    (l : List (Param × Expr)) :
    Shifts π id ((bindArguments e l).run answer) ((bindArguments e l).run answer) := by
  match l with
  | [] => exact fun _ => rfl
  | (p, arg) :: l =>
      rw [bindArguments, run_bind]
      refine (shifts_bindArgument h e p arg).bind fun _ => ?_
      rw [run_ask]
      exact h (.bind e l)

/-- A condition goes the way that it goes without a past. -/
theorem shifts_condition {α β : Type} {g : α → β} (statement : Conditional) (v : Value)
    {k : Bool → Script α} {k' : Bool → Script β}
    (hk : ∀ b, Shifts π g ((k b).run answer) ((k' b).run answer)) :
    Shifts π g
      (((liftM (Eval.lift (Operation.condition statement v)) : Script Bool) >>= k).run answer)
      (((liftM (Eval.lift (Operation.condition statement (v.shift π.closures))) : Script Bool)
        >>= k').run answer) := by
  rw [Operation.condition_shift]
  exact shifts_act (f := id) (.lift_self fun _ _ => rfl) hk

theorem shifts_execute (h : Answers π answer) (s : Stmt) :
    Shifts π (Status.shift π.closures) ((execute s).run answer) ((execute s).run answer) := by
  refine shifts_act (.reportStatement s.label) fun _ => ?_
  cases s with
  | assign target e =>
      cases target with
      | «variable» name =>
          refine shifts_act (.report (.assigned name)) fun _ => ?_
          refine shifts_ask h (.evaluate e) fun v => ?_
          exact shifts_act (.assign name v) fun _ => fun _ => rfl
      | field object name =>
          refine shifts_act (.report (.fieldAssigned name)) fun _ => ?_
          refine shifts_ask h (.evaluate object) fun v => shifts_ask h (.evaluate e) fun w => ?_
          exact shifts_act (.assignField v name w) fun _ => fun _ => rfl
  | call c => exact shifts_ask h (.call c) fun _ => fun _ => rfl
  | branch condition yes no =>
      refine shifts_ask h (.evaluate condition) fun v => shifts_condition .branch v fun b => ?_
      cases b with
      | true =>
          rw [if_pos rfl, run_ask]
          exact h (.block yes)
      | false =>
          rw [if_neg Bool.false_ne_true]
          cases no with
          | some no =>
              show Shifts π _ ((ask (.block no)).run answer) ((ask (.block no)).run answer)
              rw [run_ask]
              exact h (.block no)
          | none => exact fun _ => rfl
  | loop condition body =>
      show Shifts π _ ((ask (.iterate condition body)).run answer)
        ((ask (.iterate condition body)).run answer)
      rw [run_ask]
      exact h (.iterate condition body)
  | «return» value =>
      cases value with
      | none => exact fun _ => rfl
      | some e =>
          refine shifts_ask h (.evaluate e) fun v => ?_
          exact shifts_act (.released v) fun w => fun _ => rfl

theorem shifts_executeAll (h : Answers π answer) (l : List Stmt) :
    Shifts π (Status.shift π.closures) ((executeAll l).run answer)
      ((executeAll l).run answer) := by
  cases l with
  | nil => exact fun _ => rfl
  | cons s l =>
      refine shifts_ask h (.execute s) fun status => ?_
      cases status with
      | proceed =>
          show Shifts π _ ((ask (.executeAll l)).run answer) ((ask (.executeAll l)).run answer)
          rw [run_ask]
          exact h (.executeAll l)
      | returned v => exact fun _ => rfl

theorem shifts_iterate (h : Answers π answer) (condition : Expr) (body : List Stmt) :
    Shifts π (Status.shift π.closures) ((iterate condition body).run answer)
      ((iterate condition body).run answer) := by
  refine shifts_ask h (.evaluate condition) fun v => shifts_condition .loop v fun b => ?_
  cases b with
  | true =>
      rw [if_pos rfl]
      refine shifts_ask h (.block body) fun status => ?_
      cases status with
      | proceed =>
          show Shifts π _ ((ask (.iterate condition body)).run answer)
            ((ask (.iterate condition body)).run answer)
          rw [run_ask]
          exact h (.iterate condition body)
      | returned v => exact fun _ => rfl
  | false => exact fun _ => rfl

/-- **The script of a task does after a past what it does without one**, if the tasks that it calls
for do. -/
theorem shifts (h : Answers π answer) (t : Task) :
    Shifts π (t.shiftResult π.closures) (t.script.run answer)
      ((t.shift π.closures).script.run answer) := by
  cases t with
  | evaluate e => exact shifts_evaluate h e
  | evaluateAll l => exact shifts_evaluateAll h l
  | call c => exact shifts_evaluateCall h c
  | builtin b args => exact shifts_evaluateBuiltin h b args
  | invoke label callable args receiver => exact shifts_invoke h label callable args receiver
  | bind e l => exact shifts_bindArguments h e l
  | execute s => exact shifts_execute h s
  | executeAll l => exact shifts_executeAll h l
  | block l =>
      show Shifts π _ ((inside .block l done).run answer) ((inside .block l done).run answer)
      rw [run_inside]
      exact (h (.executeAll l)).inside .block .block (fun _ => rfl) (fun _ _ => rfl) fun _ _ => rfl
  | iterate condition body => exact shifts_iterate h condition body

end Script

/-- **Every task does after a past what it does without one**, under every bound. -/
theorem perform_shifts (π : Past) (n : Nat) : Answers π (perform n) := by
  induction n with
  | zero => exact fun t => .stop
  | succ n ih => exact fun t => Script.shifts ih t

end ProtoScript
