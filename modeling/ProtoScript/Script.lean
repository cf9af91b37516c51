import ProtoScript.Machine
/-!
# Scripts

What a form of the tree does is written down as a script: steps of the machine,
and calls for the evaluation of other forms.  A script says in which order these
happen and how the results go on; it does not say how a call is answered.  So
the same script can be run, and it can be asked which machines a run comes
through.

A script may also execute statements elsewhere: inside a new scope, or in an
activation of its own.  There the machine is taken in and, on every way out,
taken back.  A failure on its way out of an activation is given the activations
that are running then, if it has none.

A script is the body of one function of the interpreter's evaluator, and a task is
a call of one of these functions.  `Surroundings.block` is `run_block`, and
`Surroundings.activation` the last part of `invoke`: the swap of the environment,
the entry on the call stack, and `attach_frames` before the entry is taken back.
-/

namespace ProtoScript

/-- How a statement ends. -/
inductive Status where
  /-- The next statement is due. -/
  | proceed
  /-- The activation is over and has a value. -/
  | returned (v : Value)

namespace Status

/-- The value of an activation whose body ends so. -/
def value : Status → Value
  | proceed => .nil
  | returned v => v

end Status

/-- What the evaluation of a program consists of. -/
inductive Task where
  /-- The value of an expression. -/
  | evaluate (e : Expr)
  /-- The values of expressions, from the left to the right. -/
  | evaluateAll (l : List Expr)
  /-- The value of a call. -/
  | call (c : Call)
  /-- The value of a call of a routine of the language. -/
  | builtin (b : Builtin) (args : List Expr)
  /-- Runs a routine or closure on arguments, as a method if there is a receiver. -/
  | invoke (label : String) (callable : Callable) (args : List Expr)
      (receiver : Option (Address .object))
  /-- Binds parameters to arguments, from the left to the right, in the environment of the routine.
  The arguments are evaluated in the environment of the caller. -/
  | bind (environment : Environment) (l : List (Param × Expr))
  /-- Executes a statement. -/
  | execute (s : Stmt)
  /-- Executes statements in turn, up to the first that ends the activation. -/
  | executeAll (l : List Stmt)
  /-- Executes statements inside a new scope. -/
  | block (l : List Stmt)
  /-- Executes the block of a loop as long as the condition holds. -/
  | iterate (condition : Expr) (body : List Stmt)

/-- What a task results in. -/
abbrev Task.Result : Task → Type
  | .evaluate _ | .call _ | .builtin .. | .invoke .. => Value
  | .evaluateAll _ => List Value
  | .bind .. => Unit
  | .execute _ | .executeAll _ | .block _ | .iterate .. => Status

/-- Where statements are executed. -/
inductive Surroundings where
  /-- Inside a new scope. -/
  | block
  /-- In an activation, called by a label, with an environment of its own. -/
  | activation (label : String) (callable : Callable) (environment : Environment)

namespace Surroundings

/-- The machine that has been taken in. -/
def enter : Surroundings → Machine → Machine
  | block, m => m.enterBlock
  | activation label callable environment, m =>
      m.enterActivation ⟨label, callable.routine.arity⟩ environment

/-- The machine taken back, where `outside` is the environment before. -/
def leave : Surroundings → (outside : Environment) → Machine → Machine
  | block, _, m => m.leaveBlock
  | activation .., outside, m => m.leaveActivation outside

/-- What a halt inside is outside, where the machine has not been taken back yet. -/
def halted : Surroundings → Machine → Halt → Halt
  | block, _, h => h
  | activation .., m, h => h.attach m.frames.reverse

/-- Runs a part of a program there. -/
def run {α : Type} (p : Surroundings) (body : Eval α) : Eval α := fun m =>
  let outside := m.environment
  match body (p.enter m) with
  | .ok a m => .ok a (p.leave outside m)
  | .error h m => .error (p.halted m h) (p.leave outside m)

end Surroundings

/-- Steps and calls with a result. -/
inductive Script (α : Type) : Type 1 where
  /-- Nothing is left to do. -/
  | done (a : α)
  /-- A step of the machine. -/
  | act {β : Type} (x : Eval β) (next : β → Script α)
  /-- A call for another task. -/
  | call (t : Task) (next : t.Result → Script α)
  /-- Statements that are executed elsewhere. -/
  | inside (p : Surroundings) (l : List Stmt) (next : Status → Script α)

namespace Script

variable {α β : Type}

/-- One script after another. -/
def andThen : Script α → (α → Script β) → Script β
  | done a, k => k a
  | act x next, k => act x fun b => (next b).andThen k
  | call t next, k => call t fun r => (next r).andThen k
  | inside p l next, k => inside p l fun s => (next s).andThen k

instance : Monad Script where
  pure := done
  bind := andThen

instance : MonadLift Eval Script where
  monadLift x := act x done

/-- The script that only calls for a task. -/
def ask (t : Task) : Script t.Result := call t done

@[simp] theorem pure_eq (a : α) : (pure a : Script α) = done a := rfl

@[simp] theorem bind_eq (s : Script α) (k : α → Script β) : s >>= k = s.andThen k := rfl

@[simp] theorem liftM_eq (x : Eval α) : (liftM x : Script α) = act x done := rfl

/-- Runs a script, where `answer` answers the calls. -/
def run (answer : (t : Task) → Eval t.Result) : Script α → Eval α
  | done a => fun m => .ok a m
  | act x next => fun m =>
      match x m with
      | .ok b m => (next b).run answer m
      | .error h m => .error h m
  | call t next => fun m =>
      match answer t m with
      | .ok r m => (next r).run answer m
      | .error h m => .error h m
  | inside p l next => fun m =>
      match p.run (answer (.executeAll l)) m with
      | .ok s m => (next s).run answer m
      | .error h m => .error h m

end Script
end ProtoScript
