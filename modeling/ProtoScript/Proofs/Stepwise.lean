import ProtoScript.Proofs.Contract
import ProtoScript.Proofs.Copying
import ProtoScript.Proofs.Creation
/-!
# Contracts, step by step

A contract is kept if every script keeps it, and the scripts of all tasks are made of
the same few steps, calls and surroundings.  `Contract.Stepwise` collects what each of
these must do to a contract, and `Contract.Stepwise.kept` shows that every script keeps
a contract for which they do it.  The scripts are walked through here and nowhere else:
where a form of the tree comes to do something else, its part of the walk changes, and
a contract is asked for a new step at most.

A contract may say something of the values that a script holds, such as that a closure
among them has been made since the moment.  Which values are `good` is therefore a
parameter, and it depends on where a value comes from (`Task.provenance`): the value of an
expression is about to be stored or handed on, those of several expressions are only
printed, and a value that a call gives has left its activation.
-/

namespace ProtoScript

/-- Where a value that a script holds comes from. -/
inductive Provenance where
  /-- From an expression. -/
  | operand
  /-- From one of several expressions that are evaluated in turn. -/
  | listed
  /-- From a call, or from statements that end an activation. -/
  | given

/-- The value with which an activation has ended. -/
def Status.values : Status → List Value
  | proceed => []
  | returned v => [v]

namespace Task

/-- The values that a result consists of. -/
def values : (t : Task) → t.Result → List Value
  | .evaluate _, v | .call _, v | .builtin .., v | .invoke .., v => [v]
  | .evaluateAll _, l => l
  | .bind .., _ => []
  | .execute _, status | .executeAll _, status | .block _, status | .iterate .., status =>
      status.values

/-- Where the values come from that a task gives. -/
def provenance : Task → Provenance
  | .evaluate _ => .operand
  | .evaluateAll _ => .listed
  | _ => .given

/-- Which tasks the script of a task calls for wherever it has come to, but for the invocation of a
routine and for what that one calls for itself. -/
inductive Asks : Task → Task → Prop where
  /-- An expression is evaluated. -/
  | evaluate (t : Task) (e : Expr) : Asks t (.evaluate e)
  /-- Expressions are evaluated. -/
  | evaluateAll (t : Task) (l : List Expr) : Asks t (.evaluateAll l)
  /-- A call is evaluated. -/
  | call (t : Task) (c : Call) : Asks t (.call c)
  /-- A routine of the language is called. -/
  | builtin (c : Call) (b : Builtin) (args : List Expr) : Asks (.call c) (.builtin b args)
  /-- The parameters after the first are bound. -/
  | parameters (e : Environment) (p : Param × Expr) (l : List (Param × Expr)) :
      Asks (.bind e (p :: l)) (.bind e l)
  /-- The first block of a branch is executed. -/
  | yes (e : Expr) (yes : List Stmt) (no : Option (List Stmt)) :
      Asks (.execute (.branch e yes no)) (.block yes)
  /-- The other block of a branch is executed. -/
  | no (e : Expr) (yes no : List Stmt) : Asks (.execute (.branch e yes (some no))) (.block no)
  /-- A loop is executed. -/
  | loop (e : Expr) (l : List Stmt) : Asks (.execute (.loop e l)) (.iterate e l)
  /-- The block of a loop is executed. -/
  | round (e : Expr) (l : List Stmt) : Asks (.iterate e l) (.block l)
  /-- The condition is due again. -/
  | again (e : Expr) (l : List Stmt) : Asks (.iterate e l) (.iterate e l)
  /-- The first of several statements is executed. -/
  | first (s : Stmt) (l : List Stmt) : Asks (.executeAll (s :: l)) (.execute s)
  /-- The other statements are executed. -/
  | rest (s : Stmt) (l : List Stmt) : Asks (.executeAll (s :: l)) (.executeAll l)

end Task

/-- The store on which the receiver is bound in the scopes of an activation, if there is one. -/
def Eval.storeWith (s : Store) (callable : Callable) : Option (Address .object) → Store
  | none => storeFor s callable
  | some o => (storeFor s callable).create (scopesFor s callable).innermost "this" (.object o)

namespace Store

variable {s : Store} {v : Value}

/-- A value is held somewhere, if it has an address at all. -/
def Contains (s : Store) (v : Value) : Prop :=
  ¬v.Plain → ∃ p, s.content? p = some v

theorem contains_of_read {e : Environment} {name : String} (h : s.read e name = some v) :
    s.Contains v := fun hv => by
  obtain ⟨b, -, hb⟩ := Option.map_eq_some_iff.1 h
  refine ⟨.slot b.slot, content?_slot_of_value hb ?_⟩
  rintro rfl
  exact hv trivial

theorem contains_of_member? {a : Address .object} {name : String} (h : s.member? a name = some v) :
    s.Contains v := fun _ => by
  obtain ⟨o, -, ho⟩ := List.exists_of_findSome?_eq_some h
  exact ⟨.field o name, ho⟩

/-- A closure that is held is held somewhere. -/
theorem Contains.closure {c : Closure} (h : s.Contains (.closure c)) :
    ∃ p, s.content? p = some (.closure c) :=
  h fun hv => hv

end Store

namespace Contract

variable {C : Contract} {P : Moment → Prop} {good : Provenance → Moment → Machine → Value → Prop}
  {a : Moment} {m m' : Machine}

/-- The script of a moment has come to a machine, and the contract has been kept so far. -/
structure At (C : Contract) (P : Moment → Prop) (a : Moment) (m : Machine) : Prop where
  within : P a
  before : C.before a
  fuel : 0 < a.fuel
  passes : a.Passes m
  during : C.during a m

/-- A task may be called for: it finds what it needs, and what it does is what the script may do. -/
def Allows (C : Contract) (P : Moment → Prop) (a : Moment) (t : Task) (m : Machine) : Prop :=
  a.Opens (a.call t m) → P (a.call t m) →
    C.before (a.call t m) ∧ ∀ m', C.during (a.call t m) m' → C.during a m'

/-- Statements may be executed elsewhere. -/
def AllowsInside (C : Contract) (P : Moment → Prop) (a : Moment) (p : Surroundings)
    (l : List Stmt) (m : Machine) : Prop :=
  a.Opens (a.inside p l m) → P (a.inside p l m) →
    C.before (a.inside p l m) ∧
      ∀ m', C.during (a.inside p l m) m' → C.during a (p.leave m.environment m')

/-- Good values are a result of the task of a moment. -/
def Accepts (C : Contract) (good : Provenance → Moment → Machine → Value → Prop) (a : Moment)
    (m : Machine) : Prop :=
  ∀ r, (∀ v ∈ a.task.values r, good a.task.provenance a m v) → C.result a r m

/-- What the steps of scripts must do to a contract, and what may be called for. -/
structure Stepwise (C : Contract) (P : Moment → Prop)
    (good : Provenance → Moment → Machine → Value → Prop) : Prop where
  /-- The class is not left. -/
  opens : ∀ {a b}, P a → a.Opens b → P b
  /-- The machine at a moment is one of those that it passes. -/
  start : ∀ a, P a → C.before a → C.during a a.machine
  /-- The cells may stay as they are. -/
  still : ∀ {a m m'}, C.At P a m → m'.store = m.store → m.closures ≤ m'.closures → C.during a m'
  /-- A value without an address is good. -/
  plain : ∀ {a m v}, v.Plain → ∀ o, good o a m v
  /-- A value that a call gives is the value of an expression. -/
  operand : ∀ {a m v}, good .given a m v → good .operand a m v
  /-- A value goes on while other expressions are evaluated. -/
  listed : ∀ {a l m m' v}, C.At P a m → good .operand a m v →
    C.during (a.call (.evaluateAll l) m) m' → good .listed a m' v
  /-- Good values are a result, where no variable is assigned to. -/
  result : ∀ {a m}, C.At P a m → (∀ name e, a.task ≠ .execute (.assign (.variable name) e)) →
    C.Accepts good a m
  /-- A task may be called for. -/
  asks : ∀ {a t m}, C.At P a m → a.task.Asks t → C.Allows P a t m
  /-- A routine may be invoked, or a closure that is held. -/
  invokes : ∀ {a label callable args receiver m}, C.At P a m →
    (∀ c, callable = .closure c → ∃ p, m.store.content? p = some (.closure c)) →
      (∀ o, receiver = some o → good .operand a m (.object o)) →
        C.Allows P a (.invoke label callable args receiver) m
  /-- What a task gives is good. -/
  answer : ∀ {a t r m m'}, C.At P a m → a.Opens (a.call t m) →
    perform (a.fuel - 1) t m = .ok r m' → C.during (a.call t m) m' →
      C.result (a.call t m) r m' → ∀ v ∈ t.values r, good t.provenance a m' v
  /-- What is held may be copied. -/
  copied : ∀ {a m m' v w}, C.At P a m → m.store.Contains v → Eval.copied v m = .ok w m' →
    C.during a m' ∧ good .operand a m' w
  /-- A prototype is good. -/
  prototype : ∀ {a m o p}, C.At P a m → (m.store.object o).proto = some p →
    good .operand a m (.object p)
  /-- A closure may be made. -/
  capture : ∀ {a c m}, C.At P a a.machine → a.Creates c m →
    C.during a m ∧ good .operand a m (.closure c)
  /-- An object may be made. -/
  newObject : ∀ {a m}, C.At P a m → C.during a (m.withStore Store.newObject) ∧
    good .operand a (m.withStore Store.newObject) (.object m.store.objects.fresh)
  /-- The scopes of an activation may be made. -/
  activate : ∀ {a label callable args receiver m}, C.At P a a.machine →
    a.task = .invoke label callable args receiver →
      m.store = Eval.storeFor a.machine.store callable → a.machine.closures ≤ m.closures →
        C.during a m
  /-- The receiver may be bound in them. -/
  receive : ∀ {a label callable args o m}, C.At P a m →
    a.task = .invoke label callable args (some o) →
      m.store = Eval.storeFor a.machine.store callable →
        C.during a (m.withStore fun s =>
          s.create (Eval.scopesFor a.machine.store callable).innermost "this" (.object o))
  /-- Parameters may be bound in them. -/
  parameters : ∀ {a label callable args receiver m}, C.At P a m →
    a.task = .invoke label callable args receiver →
      m.store = Eval.storeWith a.machine.store callable receiver →
        ∀ l, C.Allows P a (.bind (Eval.scopesFor a.machine.store callable) l) m
  /-- The body of a routine may be executed when its parameters have been bound. -/
  body : ∀ {a label callable args receiver l m m'}, C.At P a m →
    a.task = .invoke label callable args receiver →
      m.store = Eval.storeWith a.machine.store callable receiver → C.At P a m' →
        C.during (a.call (.bind (Eval.scopesFor a.machine.store callable) l) m) m' →
          C.AllowsInside P a (.activation label callable (Eval.scopesFor a.machine.store callable))
            callable.routine.body m'
  /-- The statements of a block may be executed. -/
  block : ∀ {a l}, C.At P a a.machine → a.task = .block l →
    C.AllowsInside P a .block l a.machine
  /-- What statements end with is good outside. -/
  outside : ∀ {a p l status m m'}, C.At P a m → a.Opens (a.inside p l m) →
    perform (a.fuel - 1) (.executeAll l) (p.enter m) = .ok status m' →
      C.during (a.inside p l m) m' → C.result (a.inside p l m) status m' →
        ∀ v ∈ status.values, good .given a (p.leave m.environment m') v
  /-- A parameter may be bound to a good value. -/
  bind : ∀ {a e p arg l m v}, C.At P a m → a.task = .bind e ((p, arg) :: l) →
    good .operand a m v → C.during a (m.withStore fun s => s.create e.innermost p.name v)
  /-- A parameter may be bound to the copy of a good value. -/
  bindCopy : ∀ {a e p arg l m m' v w}, C.At P a m → a.task = .bind e ((p, arg) :: l) →
    good .operand a m v → Eval.copied v m = .ok w m' →
      C.during a (m'.withStore fun s => s.create e.innermost p.name w)
  /-- A parameter may be bound to the slot of a variable. -/
  share : ∀ {a e p arg l m name b}, C.At P a m → a.task = .bind e ((p, arg) :: l) →
    m.store.lookup m.environment name = some b →
      C.during a (m.withStore fun s => s.share e.innermost p.name b.slot)
  /-- The value of the expression may be assigned to the variable. -/
  assign : ∀ {a name e m m' v}, C.At P a m → a.task = .execute (.assign (.variable name) e) →
    m.store = a.machine.store → a.Opens (a.call (.evaluate e) m) →
      perform (a.fuel - 1) (.evaluate e) m = .ok v m' → C.At P a m' → a.Assigns name v m' →
        good .operand a m' v →
          C.during a (m'.withStore fun s => s.assign m'.environment name v) ∧
            C.Accepts good a (m'.withStore fun s => s.assign m'.environment name v)
  /-- An object may be given a prototype that does not have the object on its chain, or none. -/
  setProto : ∀ {a m o p}, C.At P a m →
    (∀ q, p = some q → good .operand a m (.object q) ∧ o ∉ m.store.chain q) →
      C.during a (m.withStore fun s => s.setProto o p)
  /-- The copy of a good value may be stored in a field. -/
  setField : ∀ {a m m' o name v w}, C.At P a m → name ≠ Store.protoName →
    good .operand a m v → Eval.copied v m = .ok w m' →
      C.during a (m'.withStore fun s => s.setField o name w)
  /-- A good value may be released. -/
  released : ∀ {a m m' v w}, C.At P a m → good .operand a m v → Eval.released v m = .ok w m' →
    C.during a m' ∧ good .given a m' w

open Script

/-- A step may be made that the contract allows. -/
theorem At.meets_act {α β : Type} {Q : α → Machine → Prop} {x : Eval β} {next : β → Script α}
    (h : C.At P a m) (hx : ∀ b m', x m = .ok b m' → C.during a m')
    (hn : ∀ b m', C.At P a m' → x m = .ok b m' → (next b).Meets C P a Q m') :
    (act x next).Meets C P a Q m := by
  refine ⟨h.during, fun b m' hb hp => hn b m' ⟨h.within, h.before, h.fuel, hp, ?_⟩ hb⟩
  exact hx b m' hb

namespace Stepwise

variable (hC : C.Stepwise P good) {α β : Type} {Q : α → Machine → Prop}
include hC

/-! ### Steps and calls -/

/-- A step that leaves the cells alone may be made anywhere. -/
theorem meets_still {x : Eval β} [Eval.Storeless x] [Eval.Keeps Machine.Counts x]
    {next : β → Script α} (h : C.At P a m)
    (hn : ∀ b m', C.At P a m' → m'.store = m.store → x m = .ok b m' →
      (next b).Meets C P a Q m') : (act x next).Meets C P a Q m :=
  h.meets_act
    (fun _ _ hb => hC.still h (Eval.Storeless.ok hb) (Eval.Keeps.ok (R := Machine.Counts) hb))
    fun b m' h' hb => hn b m' h' (Eval.Storeless.ok hb) hb

/-- A task may be called for that the contract allows. -/
theorem meets_call {t : Task} {next : t.Result → Script α} (h : C.At P a m)
    (ht : C.Allows P a t m)
    (hn : ∀ r m', C.At P a m' → a.Opens (a.call t m) → perform (a.fuel - 1) t m = .ok r m' →
      C.during (a.call t m) m' → (∀ v ∈ t.values r, good t.provenance a m' v) →
        (next r).Meets C P a Q m') : (call t next).Meets C P a Q m := by
  refine ⟨h.during, fun ho hP => ?_⟩
  obtain ⟨hb, hd⟩ := ht ho hP
  refine ⟨hb, fun m' _ hm' => hd m' hm', fun r m' hr hp hm' hv => ?_⟩
  exact hn r m' ⟨h.within, h.before, h.fuel, hp, hd m' hm'⟩ ho hr hm' (hC.answer h ho hr hm' hv)

/-- An expression may be evaluated anywhere. -/
theorem meets_operand {e : Expr} {next : Value → Script α} (h : C.At P a m)
    (hn : ∀ v m', C.At P a m' → good .operand a m' v → (next v).Meets C P a Q m') :
    (call (.evaluate e) next).Meets C P a Q m :=
  hC.meets_call h (hC.asks h (.evaluate _ e)) fun v m' h' _ _ _ hv =>
    hn v m' h' (hv v List.mem_cons_self)

/-- Good values are a result. -/
theorem meets_done {r : a.task.Result} (h : C.At P a m)
    (ht : ∀ name e, a.task ≠ .execute (.assign (.variable name) e))
    (hv : ∀ v ∈ a.task.values r, good a.task.provenance a m v) :
    (done r).Meets C P a (C.result a) m :=
  ⟨h.during, hC.result h ht r hv⟩

theorem meets_end {r : a.task.Result} (h : C.At P a m)
    (ht : ∀ name e, a.task ≠ .execute (.assign (.variable name) e))
    (hr : a.task.values r = []) : (done r).Meets C P a (C.result a) m :=
  hC.meets_done h ht fun _ hv => absurd (hr ▸ hv) List.not_mem_nil

variable {n : Nat} {γ : Context}

/-! ### The walk -/

theorem meets_evaluate {e : Expr} (h : C.At P ⟨n, .evaluate e, m, γ⟩ m) :
    (evaluate e).Meets C P ⟨n, .evaluate e, m, γ⟩ (C.result ⟨n, .evaluate e, m, γ⟩) m := by
  have hdone : ∀ {v m'}, C.At P ⟨n, .evaluate e, m, γ⟩ m' →
      good .operand ⟨n, .evaluate e, m, γ⟩ m' v →
        (done v).Meets C P ⟨n, .evaluate e, m, γ⟩ (C.result ⟨n, .evaluate e, m, γ⟩) m' :=
    fun h hv => hC.meets_done h nofun (List.forall_mem_singleton.2 hv)
  cases e with
  | int i => exact hdone h (hC.plain (by trivial) _)
  | text s => exact hdone h (hC.plain (by trivial) _)
  | truth b => exact hdone h (hC.plain (by trivial) _)
  | nil => exact hdone h (hC.plain (by trivial) _)
  | «variable» name =>
      have hx : ∀ v m', Eval.readVariable name m = .ok v m' →
          C.during ⟨n, .evaluate (.variable name), m, γ⟩ m' ∧
            good .operand ⟨n, .evaluate (.variable name), m, γ⟩ m' v := fun v m' hx => by
        obtain ⟨u, hu, hv⟩ | ⟨rfl, -, r, rfl⟩ := Eval.readVariable_eq_ok hx
        · exact hC.copied h (Store.contains_of_read hu) hv
        · exact ⟨h.during, hC.plain (by trivial) _⟩
      exact h.meets_act (fun v m' hv => (hx v m' hv).1) fun v m' h' hv =>
        hdone h' (hx v m' hv).2
  | field object name =>
      refine hC.meets_operand h fun target m₁ h₁ _ => ?_
      have hx : ∀ v m', Eval.readField target name m₁ = .ok v m' →
          C.during ⟨n, .evaluate (.field object name), m, γ⟩ m' ∧
            good .operand ⟨n, .evaluate (.field object name), m, γ⟩ m' v := fun v m' hx => by
        obtain ⟨o, u, hu, hv⟩ | ⟨rfl, o, rfl⟩ := Eval.readField_cases hx
        · exact hC.copied h₁ (Store.contains_of_member? hu) hv
        · refine ⟨h₁.during, ?_⟩
          cases hq : (m'.store.object o).proto with
          | some q => exact hC.prototype h₁ hq
          | none => exact hC.plain (by trivial) _
      exact h₁.meets_act (fun v m' hv => (hx v m' hv).1) fun v m' h' hv =>
        hdone h' (hx v m' hv).2
  | call c =>
      refine hC.meets_call h (hC.asks h (.call _ c)) fun v m' h' _ _ _ hv => ?_
      exact hdone h' (hC.operand (hv v List.mem_cons_self))
  | binary op left right =>
      refine hC.meets_operand h fun v m₁ h₁ _ => ?_
      refine hC.meets_operand h₁ fun w m₂ h₂ _ => ?_
      refine hC.meets_still (x := Eval.lift _) h₂ fun u m' h' _ hx => hdone h' ?_
      exact hC.plain (Operation.plain_of_binary (Eval.lift_eq_ok hx).1) _
  | unary op operand =>
      refine hC.meets_operand h fun v m₁ h₁ _ => ?_
      refine hC.meets_still (x := Eval.lift _) h₁ fun u m' h' _ hx => hdone h' ?_
      exact hC.plain (Operation.plain_of_unary (Eval.lift_eq_ok hx).1) _
  | lambda r =>
      have hx : ∀ c m', Eval.capture r false m = .ok c m' →
          C.during ⟨n, .evaluate (.lambda r), m, γ⟩ m' ∧
            good .operand ⟨n, .evaluate (.lambda r), m, γ⟩ m' (.closure c) := fun c m' hx =>
        hC.capture h ⟨h.fuel, r, false, rfl, hx⟩
      exact h.meets_act (fun c m' hc => (hx c m' hc).1) fun c m' h' hc =>
        hdone h' (hx c m' hc).2
  | newObject =>
      refine h.meets_act (fun v m' hx => ?_) fun v m' h' hx => hdone h' ?_
      · obtain ⟨rfl, rfl⟩ := Eval.newObject_eq_ok hx
        exact (hC.newObject h).1
      · obtain ⟨rfl, rfl⟩ := Eval.newObject_eq_ok hx
        exact (hC.newObject h).2

theorem meets_evaluateAll {l : List Expr} (h : C.At P ⟨n, .evaluateAll l, m, γ⟩ m) :
    (evaluateAll l).Meets C P ⟨n, .evaluateAll l, m, γ⟩
      (C.result ⟨n, .evaluateAll l, m, γ⟩) m := by
  cases l with
  | nil => exact hC.meets_end h nofun rfl
  | cons e l =>
      refine hC.meets_operand h fun v m₁ h₁ hv => ?_
      refine hC.meets_call h₁ (hC.asks h₁ (.evaluateAll _ l)) fun r m₂ h₂ _ _ hd hr => ?_
      exact hC.meets_done h₂ nofun (List.forall_mem_cons.2 ⟨hC.listed h₁ hv hd, hr⟩)

theorem meets_evaluateCall {c : Call} (h : C.At P ⟨n, .call c, m, γ⟩ m) :
    (evaluateCall c).Meets C P ⟨n, .call c, m, γ⟩ (C.result ⟨n, .call c, m, γ⟩) m := by
  obtain ⟨callee, args⟩ := c
  cases callee with
  | name name =>
      cases hb : Builtin.ofName? name with
      | some b =>
          rw [evaluateCall_of_builtin hb]
          exact hC.meets_call h (hC.asks h (.builtin _ b args)) fun v m' h' _ _ _ hv =>
            hC.meets_done h' nofun hv
      | none =>
          rw [evaluateCall_of_routine hb]
          refine hC.meets_still h fun callable m₁ h₁ hs hx => ?_
          refine hC.meets_call h₁ (hC.invokes h₁ (fun c hc => ?_) (by rintro _ ⟨⟩))
            fun v m' h' _ _ _ hv => hC.meets_done h' nofun hv
          rw [hs]
          exact (Store.contains_of_read (Eval.resolve_eq_closure (hc ▸ hx))).closure
  | method object name =>
      refine hC.meets_operand h fun receiver m₁ h₁ hv₁ => ?_
      refine hC.meets_still (x := Eval.objectOf _ _) h₁ fun o m₂ h₂ _ ho => ?_
      obtain ⟨rfl, rfl⟩ := Eval.objectOf_eq_ok ho
      refine hC.meets_still (x := Eval.method _ _ _) h₂ fun callable m₃ h₃ _ hx => ?_
      obtain rfl := Eval.Quiet.ok (x := Eval.method _ _ _) hx
      refine hC.meets_call h₃ (hC.invokes h₃ (fun c hc => ?_) fun o' ho' => ?_)
        fun v m' h' _ _ _ hv => hC.meets_done h' nofun hv
      · exact (Store.contains_of_member? (Eval.method_eq_closure (hc ▸ hx))).closure
      · cases ho'
        exact hv₁

theorem meets_prompt {b : Builtin} {args : List Expr} (h : C.At P ⟨n, .builtin b args, m, γ⟩ m) :
    (prompt b args).Meets C P ⟨n, .builtin b args, m, γ⟩
      (C.result ⟨n, .builtin b args, m, γ⟩) m := by
  rw [prompt_eq]
  split
  · exact ⟨h.during, nofun⟩
  · refine hC.meets_call h (hC.asks h (.evaluateAll _ args)) fun prompts m₁ h₁ _ _ _ _ => ?_
    refine hC.meets_still h₁ fun _ m₂ h₂ _ _ => ?_
    refine hC.meets_still h₂ fun line m₃ h₃ _ _ => ?_
    split
    · refine hC.meets_still h₃ fun v m₄ h₄ _ hx => ?_
      obtain ⟨i, rfl, -⟩ := Eval.integerOf_eq_ok hx
      exact hC.meets_done h₄ nofun (List.forall_mem_singleton.2 (hC.plain (by trivial) _))
    · exact hC.meets_done h₃ nofun (List.forall_mem_singleton.2 (hC.plain (by trivial) _))

theorem meets_evaluateBuiltin {b : Builtin} {args : List Expr}
    (h : C.At P ⟨n, .builtin b args, m, γ⟩ m) :
    (evaluateBuiltin b args).Meets C P ⟨n, .builtin b args, m, γ⟩
      (C.result ⟨n, .builtin b args, m, γ⟩) m := by
  cases b with
  | print =>
      refine hC.meets_call h (hC.asks h (.evaluateAll _ args)) fun values m₁ h₁ _ _ _ _ => ?_
      refine hC.meets_still (x := Eval.print _) h₁ fun _ m₂ h₂ _ _ => ?_
      exact hC.meets_done h₂ nofun (List.forall_mem_singleton.2 (hC.plain (by trivial) _))
  | readInteger => exact hC.meets_prompt h
  | readText => exact hC.meets_prompt h

theorem meets_invoke {label : String} {callable : Callable} {args : List Expr}
    {receiver : Option (Address .object)}
    (h : C.At P ⟨n, .invoke label callable args receiver, m, γ⟩ m) :
    (invoke label callable args receiver).Meets C P
      ⟨n, .invoke label callable args receiver, m, γ⟩
      (C.result ⟨n, .invoke label callable args receiver, m, γ⟩) m := by
  rw [invoke_eq]
  split
  case isFalse => exact ⟨h.during, nofun⟩
  have hcount : ∀ e m₁, Eval.activate callable m = .ok e m₁ → m.closures ≤ m₁.closures :=
    fun _ _ hx => Eval.Keeps.ok (R := Machine.Counts) hx
  refine h.meets_act
    (fun e m₁ hx => hC.activate h rfl (Eval.activate_eq_ok hx).2 (hcount e m₁ hx))
    fun e m₁ h₁ hx => ?_
  obtain ⟨rfl, hs₁⟩ := Eval.activate_eq_ok hx
  -- The receiver is bound in the scopes that have been made.
  refine h₁.meets_act (fun _ m₂ hr => ?_) fun _ m₂ h₂ hr => ?_
  · cases receiver with
    | none =>
        cases hr
        exact h₁.during
    | some o =>
        obtain rfl := Eval.bindValue_eq_ok hr
        exact hC.receive h₁ rfl hs₁
  have hs₂ : m₂.store = Eval.storeWith m.store callable receiver := by
    cases receiver with
    | none =>
        cases hr
        exact hs₁
    | some o =>
        obtain rfl := Eval.bindValue_eq_ok hr
        exact congrArg (fun s : Store => s.create _ _ _) hs₁
  -- The parameters are bound, and the body is executed.
  refine hC.meets_call h₂ (hC.parameters h₂ rfl hs₂ _) fun _ m₃ h₃ _ _ hd _ => ?_
  refine ⟨h₃.during, fun ho hP => ?_⟩
  obtain ⟨hb, hout⟩ := hC.body h₂ rfl hs₂ h₃ hd ho hP
  refine ⟨hb, fun m' _ hm' => hout m' hm', fun status m' hr hp hm' hv => ?_⟩
  refine hC.meets_done ⟨h.within, h.before, h.fuel, hp, hout m' hm'⟩ nofun
    (List.forall_mem_singleton.2 ?_)
  cases status with
  | proceed => exact hC.plain (by trivial) _
  | returned v => exact hC.outside h₃ ho hr hm' hv v List.mem_cons_self

/-- A parameter may be bound to its argument. -/
theorem meets_bindArgument {e : Environment} {p : Param} {arg : Expr} {l : List (Param × Expr)}
    (h : C.At P ⟨n, .bind e ((p, arg) :: l), m, γ⟩ m) {Q : Unit → Machine → Prop}
    (hn : ∀ m', C.At P ⟨n, .bind e ((p, arg) :: l), m, γ⟩ m' → Q () m') :
    (bindArgument e p arg).Meets C P ⟨n, .bind e ((p, arg) :: l), m, γ⟩ Q m := by
  have hdone : ∀ m', C.At P ⟨n, .bind e ((p, arg) :: l), m, γ⟩ m' →
      (done ()).Meets C P ⟨n, .bind e ((p, arg) :: l), m, γ⟩ Q m' := fun m' h' =>
    ⟨h'.during, hn m' h'⟩
  -- An argument that is not treated apart is evaluated, and its copy is bound.
  have hcopy : ∀ arg' : Expr, (call (.evaluate arg') fun v => act (Eval.bindCopy e p.name v)
      done).Meets C P ⟨n, .bind e ((p, arg) :: l), m, γ⟩ Q m := by
    intro arg'
    refine hC.meets_operand h fun v m₁ h₁ hv => ?_
    refine h₁.meets_act (fun _ m₂ hx => ?_) fun _ m₂ h₂ _ => hdone m₂ h₂
    obtain ⟨w, m', hw, rfl⟩ := Eval.bindCopy_eq_ok hx
    exact hC.bindCopy h₁ rfl hv hw
  cases arg with
  | lambda r =>
      have hx : ∀ c m₁, Eval.capture r p.byRef m = .ok c m₁ →
          C.during ⟨n, .bind e ((p, .lambda r) :: l), m, γ⟩ m₁ ∧
            good .operand ⟨n, .bind e ((p, .lambda r) :: l), m, γ⟩ m₁ (.closure c) :=
        fun c m₁ hx => hC.capture h ⟨h.fuel, r, p.byRef, rfl, hx⟩
      refine h.meets_act (fun c m₁ hc => (hx c m₁ hc).1) fun c m₁ h₁ hc => ?_
      refine h₁.meets_act (x := Eval.bindValue _ _ _) (fun _ m₂ hy => ?_)
        fun _ m₂ h₂ _ => hdone m₂ h₂
      obtain rfl := Eval.bindValue_eq_ok hy
      exact hC.bind h₁ rfl (hx c m₁ hc).2
  | «variable» name =>
      rw [bindArgument_variable]
      split
      · refine h.meets_act (fun _ m₁ hx => ?_) fun _ m₁ h₁ _ => hdone m₁ h₁
        obtain ⟨b, hb, rfl⟩ | ⟨-, r, rfl⟩ := Eval.bindVariable_eq_ok hx
        · exact hC.share h rfl hb
        · exact hC.bind h rfl (hC.plain (v := .function 0 r) trivial _)
      · exact hcopy (.variable name)
  | _ => exact hcopy _

theorem meets_bindArguments {e : Environment} {l : List (Param × Expr)}
    (h : C.At P ⟨n, .bind e l, m, γ⟩ m) :
    (bindArguments e l).Meets C P ⟨n, .bind e l, m, γ⟩ (C.result ⟨n, .bind e l, m, γ⟩) m := by
  cases l with
  | nil => exact hC.meets_end h nofun rfl
  | cons p l =>
      obtain ⟨p, arg⟩ := p
      refine Meets.andThen (s := bindArgument e p arg) (hC.meets_bindArgument h fun m₁ h₁ => ?_)
      exact hC.meets_call h₁ (hC.asks h₁ (.parameters e (p, arg) l)) fun _ m₂ h₂ _ _ _ _ =>
        hC.meets_end h₂ nofun rfl

theorem meets_execute {s : Stmt} (h : C.At P ⟨n, .execute s, m, γ⟩ m) :
    (execute s).Meets C P ⟨n, .execute s, m, γ⟩ (C.result ⟨n, .execute s, m, γ⟩) m := by
  refine hC.meets_still (x := Eval.reportStatement s.label) h fun _ m₁ h₁ hs₁ hx₁ => ?_
  cases s with
  | assign target e =>
      cases target with
      | «variable» name =>
          refine hC.meets_still (x := Eval.report _) h₁ fun _ m₂ h₂ hs₂ hx₂ => ?_
          refine hC.meets_call h₂ (hC.asks h₂ (.evaluate _ e)) fun v m₃ h₃ ho hr _ hv => ?_
          have ha : Moment.Assigns ⟨n, .execute (.assign (.variable name) e), m, γ⟩ name v m₃ :=
            ⟨h.fuel, _, .act hx₁ (.act hx₂ (.call hr .refl))⟩
          have hassign := hC.assign h₂ rfl (hs₂.trans hs₁) ho hr h₃ ha (hv v List.mem_cons_self)
          refine h₃.meets_act (fun _ m₄ hx => ?_) fun _ m₄ h₄ hx => ⟨h₄.during, ?_⟩
          · obtain rfl := Eval.assign_eq_ok hx
            exact hassign.1
          · obtain rfl := Eval.assign_eq_ok hx
            exact hassign.2 Status.proceed nofun
      | field object name =>
          refine hC.meets_still (x := Eval.report _) h₁ fun _ m₂ h₂ _ _ => ?_
          refine hC.meets_operand h₂ fun target m₃ h₃ _ => ?_
          refine hC.meets_operand h₃ fun v m₄ h₄ hv => ?_
          refine h₄.meets_act (fun _ m₅ hx => ?_) fun _ m₅ h₅ _ => hC.meets_end h₅ nofun rfl
          obtain ⟨o, -, ⟨p, hq, rfl⟩ | ⟨hn, w, m', hw, rfl⟩⟩ := Eval.assignField_cases hx
          · refine hC.setProto h₄ fun q hpq => ?_
            obtain ⟨rfl, hc⟩ := hq q hpq
            exact ⟨hv, hc⟩
          · exact hC.setField h₄ hn hv hw
  | call c =>
      exact hC.meets_call h₁ (hC.asks h₁ (.call _ c)) fun _ m₂ h₂ _ _ _ _ =>
        hC.meets_end h₂ nofun rfl
  | branch condition yes no =>
      refine hC.meets_operand h₁ fun v m₂ h₂ _ => ?_
      refine hC.meets_still (x := Eval.lift _) h₂ fun b m₃ h₃ _ _ => ?_
      cases b with
      | true =>
          exact hC.meets_call h₃ (hC.asks h₃ (.yes condition yes no)) fun _ m₄ h₄ _ _ _ hv =>
            hC.meets_done h₄ nofun hv
      | false =>
          cases no with
          | some no =>
              exact hC.meets_call h₃ (hC.asks h₃ (.no condition yes no)) fun _ m₄ h₄ _ _ _ hv =>
                hC.meets_done h₄ nofun hv
          | none => exact hC.meets_end h₃ nofun rfl
  | loop condition body =>
      exact hC.meets_call h₁ (hC.asks h₁ (.loop condition body)) fun _ m₂ h₂ _ _ _ hv =>
        hC.meets_done h₂ nofun hv
  | «return» o =>
      cases o with
      | none =>
          exact hC.meets_done h₁ nofun (List.forall_mem_singleton.2 (hC.plain (by trivial) _))
      | some e =>
          refine hC.meets_operand h₁ fun v m₂ h₂ hv => ?_
          refine h₂.meets_act (fun w m₃ hx => (hC.released h₂ hv hx).1) fun w m₃ h₃ hx => ?_
          exact hC.meets_done h₃ nofun (List.forall_mem_singleton.2 (hC.released h₂ hv hx).2)

theorem meets_executeAll {l : List Stmt} (h : C.At P ⟨n, .executeAll l, m, γ⟩ m) :
    (executeAll l).Meets C P ⟨n, .executeAll l, m, γ⟩ (C.result ⟨n, .executeAll l, m, γ⟩) m := by
  cases l with
  | nil => exact hC.meets_end h nofun rfl
  | cons s l =>
      refine hC.meets_call h (hC.asks h (.first s l)) fun status m₁ h₁ _ _ _ hv => ?_
      cases status with
      | proceed =>
          exact hC.meets_call h₁ (hC.asks h₁ (.rest s l)) fun _ m₂ h₂ _ _ _ hv =>
            hC.meets_done h₂ nofun hv
      | returned v => exact hC.meets_done h₁ nofun hv

theorem meets_block {l : List Stmt} (h : C.At P ⟨n, .block l, m, γ⟩ m) :
    (Script.inside .block l done).Meets C P ⟨n, .block l, m, γ⟩
      (C.result ⟨n, .block l, m, γ⟩) m := by
  refine ⟨h.during, fun ho hP => ?_⟩
  obtain ⟨hb, hout⟩ := hC.block h rfl ho hP
  refine ⟨hb, fun m' _ hm' => hout m' hm', fun status m' hr hp hm' hv => ?_⟩
  exact hC.meets_done ⟨h.within, h.before, h.fuel, hp, hout m' hm'⟩ nofun
    (hC.outside h ho hr hm' hv)

theorem meets_iterate {condition : Expr} {body : List Stmt}
    (h : C.At P ⟨n, .iterate condition body, m, γ⟩ m) :
    (iterate condition body).Meets C P ⟨n, .iterate condition body, m, γ⟩
      (C.result ⟨n, .iterate condition body, m, γ⟩) m := by
  refine hC.meets_operand h fun v m₁ h₁ _ => ?_
  refine hC.meets_still (x := Eval.lift _) h₁ fun b m₂ h₂ _ _ => ?_
  cases b with
  | false => exact hC.meets_end h₂ nofun rfl
  | true =>
      refine hC.meets_call h₂ (hC.asks h₂ (.round condition body)) fun status m₃ h₃ _ _ _ hv => ?_
      cases status with
      | proceed =>
          exact hC.meets_call h₃ (hC.asks h₃ (.again condition body)) fun _ m₄ h₄ _ _ _ hv =>
            hC.meets_done h₄ nofun hv
      | returned v => exact hC.meets_done h₃ nofun hv

/-- **Every script keeps a contract that its steps keep.** -/
theorem kept : C.Kept P where
  opens := hC.opens
  start := hC.start
  meets a hP hb hn := by
    have h : C.At P a a.machine := ⟨hP, hb, hn, .here a, hC.start a hP hb⟩
    obtain ⟨n, t, m, γ⟩ := a
    cases t with
    | evaluate e => exact hC.meets_evaluate h
    | evaluateAll l => exact hC.meets_evaluateAll h
    | call c => exact hC.meets_evaluateCall h
    | builtin b args => exact hC.meets_evaluateBuiltin h
    | invoke label callable args receiver => exact hC.meets_invoke h
    | bind e l => exact hC.meets_bindArguments h
    | execute s => exact hC.meets_execute h
    | executeAll l => exact hC.meets_executeAll h
    | block l => exact hC.meets_block h
    | iterate condition body => exact hC.meets_iterate h

end Stepwise
end Contract
end ProtoScript
