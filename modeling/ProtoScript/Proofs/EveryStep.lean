import ProtoScript.Proofs.Moment
import ProtoScript.Proofs.Steps
/-!
# What scripts are made of

The scripts of all tasks are made of the same few steps of the machine
(`Eval.Steps`), so a property of steps that these have belongs to every step of
every script.  Nor does a script call for just anything: a routine is invoked by
a call alone, under the name by which the call names it, and an activation is
entered by the invocation alone, to execute the body of the routine.

`Script.Every` says of a script what holds of its steps, of the tasks that it
calls for and of the statements that it executes elsewhere; `Script.every` says
it of the scripts of all tasks.
-/

namespace ProtoScript

/-- The name by which a call names what it calls. -/
def Callee.label : Callee → String
  | .name called | .method _ called => called

namespace Task

/-- Which tasks a task may call for: a routine is invoked by a call that names it. -/
def MayCall (t : Task) : Task → Prop
  | .invoke label _ args _ => ∃ callee, t = .call (.mk callee args) ∧ callee.label = label
  | _ => True

/-- Which statements a task may execute elsewhere: a block those of the block, the invocation of a
routine its body. -/
def MayEnter (t : Task) : Surroundings → List Stmt → Prop
  | .block, l => t = .block l
  | .activation label callable _, l => l = callable.routine.body ∧ ∃ args receiver,
      t = .invoke label callable args receiver ∧ callable.routine.arity = args.length

end Task

/-- The steps of which scripts are made have a property. -/
structure Eval.Steps (P : ∀ {β : Type}, Eval β → Prop) : Prop where
  raise : ∀ {β : Type} fault, P (Eval.raise fault : Eval β)
  lift : ∀ {β : Type} (r : Except Fault β), P (Eval.lift r)
  report : ∀ e, P (Eval.report e)
  reportStatement : ∀ label, P (Eval.reportStatement label)
  readVariable : ∀ name, P (Eval.readVariable name)
  resolve : ∀ name count, P (Eval.resolve name count)
  assign : ∀ name v, P (Eval.assign name v)
  objectOf : ∀ name v, P (Eval.objectOf name v)
  readField : ∀ v name, P (Eval.readField v name)
  method : ∀ a name count, P (Eval.method a name count)
  assignField : ∀ target name v, P (Eval.assignField target name v)
  newObject : P Eval.newObject
  capture : ∀ r byRef, P (Eval.capture r byRef)
  activate : ∀ callable, P (Eval.activate callable)
  bindValue : ∀ e name v, P (Eval.bindValue e name v)
  bindReceiver : ∀ e receiver, P (Eval.bindReceiver e receiver)
  bindCopy : ∀ e name v, P (Eval.bindCopy e name v)
  bindVariable : ∀ e name variableName, P (Eval.bindVariable e name variableName)
  released : ∀ v, P (Eval.released v)
  print : ∀ line, P (Eval.print line)
  printAll : ∀ lines, P (Eval.printAll lines)
  readLine : ∀ b, P (Eval.readLine b)
  integerOf : ∀ line, P (Eval.integerOf line)

namespace Script

variable {α β : Type} {P : ∀ {β : Type}, Eval β → Prop} {C : Task → Prop}
  {I : Surroundings → List Stmt → Prop}

/-- Every step of a script has a property, and so has every task that it calls for and everything
that it executes elsewhere. -/
def Every (P : ∀ {β : Type}, Eval β → Prop) (C : Task → Prop)
    (I : Surroundings → List Stmt → Prop) : Script α → Prop
  | done _ => True
  | act x next => P x ∧ ∀ b, (next b).Every P C I
  | call t next => C t ∧ ∀ r, (next r).Every P C I
  | inside p l next => I p l ∧ ∀ s, (next s).Every P C I

theorem Every.andThen {k : α → Script β} :
    ∀ {s : Script α}, s.Every P C I → (∀ a, (k a).Every P C I) → (s.andThen k).Every P C I
  | done a, _, hk => hk a
  | act _ _, h, hk => ⟨h.1, fun b => (h.2 b).andThen hk⟩
  | call _ _, h, hk => ⟨h.1, fun r => (h.2 r).andThen hk⟩
  | inside _ _ _, h, hk => ⟨h.1, fun s => (h.2 s).andThen hk⟩

/-- What holds of a script holds of what is left of it. -/
theorem Leads.every {answer : (t : Task) → Eval t.Result} {s s' : Script α} {m m' : Machine}
    (h : s.Leads answer m s' m') (hs : s.Every P C I) : s'.Every P C I := by
  induction h with
  | refl => exact hs
  | act _ _ ih => exact ih (hs.2 _)
  | call _ _ ih => exact ih (hs.2 _)
  | inside _ _ ih => exact ih (hs.2 _)

variable (hP : Eval.Steps P)
include hP

theorem every_evaluate (e : Expr) : (evaluate e).Every P (Task.MayCall (.evaluate e)) I := by
  cases e with
  | «variable» name => exact ⟨hP.readVariable name, fun _ => trivial⟩
  | field object name => exact ⟨trivial, fun v => ⟨hP.readField v name, fun _ => trivial⟩⟩
  | call c => exact ⟨trivial, fun _ => trivial⟩
  | binary op left right =>
      exact ⟨trivial, fun v => ⟨trivial, fun w => ⟨hP.lift _, fun _ => trivial⟩⟩⟩
  | unary op operand => exact ⟨trivial, fun v => ⟨hP.lift _, fun _ => trivial⟩⟩
  | lambda r => exact ⟨hP.capture r false, fun _ => trivial⟩
  | newObject => exact ⟨hP.newObject, fun _ => trivial⟩
  | _ => trivial

theorem every_evaluateCall (c : Call) : (evaluateCall c).Every P (Task.MayCall (.call c)) I := by
  obtain ⟨callee, args⟩ := c
  cases callee with
  | name name =>
      cases hb : Builtin.ofName? name with
      | some b =>
          rw [evaluateCall_of_builtin hb]
          exact ⟨trivial, fun _ => trivial⟩
      | none =>
          rw [evaluateCall_of_routine hb]
          exact ⟨hP.resolve _ _, fun callable => ⟨⟨_, rfl, rfl⟩, fun _ => trivial⟩⟩
  | method object name =>
      exact ⟨trivial, fun v => ⟨hP.objectOf _ _, fun a => ⟨hP.method _ _ _, fun callable =>
        ⟨⟨_, rfl, rfl⟩, fun _ => trivial⟩⟩⟩⟩

theorem every_prompt (b : Builtin) (args : List Expr) :
    (prompt b args).Every P (Task.MayCall (.builtin b args)) I := by
  rw [prompt_eq]
  split
  · exact ⟨hP.raise _, fun _ => trivial⟩
  · refine ⟨trivial, fun prompts => ⟨hP.printAll _, fun _ => ⟨hP.readLine _, fun line => ?_⟩⟩⟩
    split
    · exact ⟨hP.integerOf _, fun _ => trivial⟩
    · trivial

theorem every_invoke (label : String) (callable : Callable) (args : List Expr)
    (receiver : Option (Address .object)) :
    (invoke label callable args receiver).Every P
      (Task.MayCall (.invoke label callable args receiver))
      (Task.MayEnter (.invoke label callable args receiver)) := by
  rw [invoke_eq]
  split
  · next harity =>
      exact ⟨hP.activate _, fun e => ⟨hP.bindReceiver _ _, fun _ => ⟨trivial, fun _ =>
        ⟨⟨rfl, args, receiver, rfl, harity⟩, fun _ => trivial⟩⟩⟩⟩
  · exact ⟨hP.raise _, fun _ => trivial⟩

theorem every_bindArgument (e : Environment) (p : Param) (arg : Expr) {t : Task} :
    (bindArgument e p arg).Every P t.MayCall I := by
  have hcopy : ∀ arg : Expr, (call (.evaluate arg) fun v => act (Eval.bindCopy e p.name v)
      done).Every P t.MayCall I := fun arg =>
    ⟨trivial, fun v => ⟨hP.bindCopy _ _ _, fun _ => trivial⟩⟩
  cases arg with
  | lambda r => exact ⟨hP.capture _ _, fun c => ⟨hP.bindValue _ _ _, fun _ => trivial⟩⟩
  | «variable» name =>
      rw [bindArgument_variable]
      split
      · exact ⟨hP.bindVariable _ _ _, fun _ => trivial⟩
      · exact hcopy _
  | _ => exact hcopy _

theorem every_execute (s : Stmt) : (execute s).Every P (Task.MayCall (.execute s)) I := by
  refine ⟨hP.reportStatement _, fun _ => ?_⟩
  cases s with
  | assign target e =>
      cases target with
      | «variable» name =>
          exact ⟨hP.report _, fun _ => ⟨trivial, fun v => ⟨hP.assign _ _, fun _ => trivial⟩⟩⟩
      | field object name =>
          exact ⟨hP.report _, fun _ => ⟨trivial, fun target => ⟨trivial, fun v =>
            ⟨hP.assignField _ _ _, fun _ => trivial⟩⟩⟩⟩
  | call c => exact ⟨trivial, fun _ => trivial⟩
  | branch condition yes no =>
      refine ⟨trivial, fun v => ⟨hP.lift _, fun b => ?_⟩⟩
      cases b with
      | true => exact ⟨trivial, fun _ => trivial⟩
      | false =>
          cases no with
          | some no => exact ⟨trivial, fun _ => trivial⟩
          | none => trivial
  | loop condition body => exact ⟨trivial, fun _ => trivial⟩
  | «return» o =>
      cases o with
      | none => trivial
      | some e => exact ⟨trivial, fun v => ⟨hP.released _, fun _ => trivial⟩⟩

theorem every_iterate (condition : Expr) (body : List Stmt) :
    (iterate condition body).Every P (Task.MayCall (.iterate condition body)) I := by
  refine ⟨trivial, fun v => ⟨hP.lift _, fun b => ?_⟩⟩
  cases b with
  | false => trivial
  | true =>
      refine ⟨trivial, fun status => ?_⟩
      cases status with
      | proceed => exact ⟨trivial, fun _ => trivial⟩
      | returned v => trivial

/-- **What holds of the steps holds of every step of every script.** -/
theorem every (t : Task) : t.script.Every P t.MayCall t.MayEnter := by
  cases t with
  | evaluate e => exact every_evaluate hP e
  | evaluateAll l =>
      cases l with
      | nil => trivial
      | cons e l => exact ⟨trivial, fun _ => ⟨trivial, fun _ => trivial⟩⟩
  | call c => exact every_evaluateCall hP c
  | builtin b args =>
      cases b with
      | print => exact ⟨trivial, fun _ => ⟨hP.print _, fun _ => trivial⟩⟩
      | readInteger => exact every_prompt hP _ args
      | readText => exact every_prompt hP _ args
  | invoke label callable args receiver => exact every_invoke hP label callable args receiver
  | bind e l =>
      cases l with
      | nil => trivial
      | cons p l =>
          exact (every_bindArgument hP e p.1 p.2).andThen fun _ => ⟨trivial, fun _ => trivial⟩
  | execute s => exact every_execute hP s
  | executeAll l =>
      cases l with
      | nil => trivial
      | cons s l =>
          refine ⟨trivial, fun status => ?_⟩
          cases status with
          | proceed => exact ⟨trivial, fun _ => trivial⟩
          | returned v => trivial
  | block l => exact ⟨rfl, fun _ => trivial⟩
  | iterate condition body => exact every_iterate hP condition body

end Script
end ProtoScript
