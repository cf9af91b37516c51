import ProtoScript.Script
/-!
# Evaluation

What each form of the tree does to a machine.  Operands, arguments and
statements are evaluated from the left to the right, and the first fault ends
everything.  A statement either proceeds to the next one or ends its activation
with a value; blocks and loops pass an end on, and only a call takes it as the
value of the call.

A program need not come to an end, so a task is performed with a number that
bounds the depth of its calls, where every round of a loop counts as one; at
zero it stops unfinished.

These are the functions `exec_stmt`, `run_statements`, `eval_expr`, `eval_call`,
`invoke`, `bind_argument` and `call_builtin` of the interpreter (sections 4.3 and
4.4 of its specification, with B4 where these leave a choice).
-/

namespace ProtoScript

open Eval Script

namespace Script

/-- The value of an expression (`eval_expr`). -/
def evaluate : Expr → Script Value
  | .int i => return .int i
  | .text s => return .text s
  | .truth b => return .truth b
  | .nil => return .nil
  | .variable name => readVariable name
  | .field object name => do
      let target ← ask (.evaluate object)
      readField target name
  | .call c => ask (.call c)
  | .binary op left right => do
      let v ← ask (.evaluate left)
      let w ← ask (.evaluate right)
      lift (Operation.binary op v w)
  | .unary op operand => do
      let v ← ask (.evaluate operand)
      lift (Operation.unary op v)
  | .lambda r => do
      let c ← capture r false
      return .closure c
  | .newObject => newObject

/-- The values of expressions, from the left to the right. -/
def evaluateAll : List Expr → Script (List Value)
  | [] => return []
  | e :: l => do
      let v ← ask (.evaluate e)
      let rest ← ask (.evaluateAll l)
      return v :: rest

/-- The value of a call (`eval_call`). -/
def evaluateCall : Call → Script Value
  | .mk (.name name) args =>
      match Builtin.ofName? name with
      | some builtin => ask (.builtin builtin args)
      | none => do
          let callable ← resolve name args.length
          ask (.invoke name callable args none)
  | .mk (.method object name) args => do
      let receiver ← ask (.evaluate object)
      let a ← objectOf name receiver
      let callable ← method a name args.length
      ask (.invoke name callable args (some a))

/-- The line that is read after a prompt, or the integer that it holds (`inputs` and `inputi` of
`call_builtin`). -/
def prompt (builtin : Builtin) (args : List Expr) : Script Value :=
  if 1 < args.length then raise (.manyPrompts builtin)
  else do
    let prompts ← ask (.evaluateAll args)
    printAll (prompts.map Value.printed)
    let line ← readLine builtin
    if builtin = .readInteger then integerOf line else return .text line

/-- The value of a call of a routine of the language (`call_builtin`). -/
def evaluateBuiltin : Builtin → List Expr → Script Value
  | .print, args => do
      let values ← ask (.evaluateAll args)
      print (String.join (values.map Value.printed))
      return .nil
  | builtin, args => prompt builtin args

/-- Runs a routine or closure on arguments, as a method if there is a receiver (`invoke`). -/
def invoke (label : String) (callable : Callable) (args : List Expr)
    (receiver : Option (Address .object)) : Script Value :=
  if callable.routine.arity = args.length then do
    let environment ← activate callable
    bindReceiver environment receiver
    ask (.bind environment (callable.routine.params.zip args))
    let status ← inside (.activation label callable environment) callable.routine.body done
    return status.value
  else raise (.undefinedFunction label args.length)

/-- Binds a parameter to an argument in the environment of the routine (`bind_argument`). -/
def bindArgument (environment : Environment) (p : Param) : Expr → Script Unit
  | .lambda r => do
      let c ← capture r p.byRef
      bindValue environment p.name (.closure c)
  | .variable name =>
      if p.byRef then bindVariable environment p.name name
      else do
        let v ← ask (.evaluate (.variable name))
        bindCopy environment p.name v
  | arg => do
      let v ← ask (.evaluate arg)
      bindCopy environment p.name v

/-- Binds parameters to arguments, from the left to the right, in the environment of the routine. -/
def bindArguments (environment : Environment) : List (Param × Expr) → Script Unit
  | [] => return ()
  | (p, arg) :: rest => do
      bindArgument environment p arg
      ask (.bind environment rest)

/-- Executes a statement (`exec_stmt`). -/
def execute (s : Stmt) : Script Status := do
  reportStatement s.label
  match s with
  | .assign (.variable name) e => do
      report (.assigned name)
      let v ← ask (.evaluate e)
      assign name v
      return .proceed
  | .assign (.field object name) e => do
      report (.fieldAssigned name)
      let target ← ask (.evaluate object)
      let v ← ask (.evaluate e)
      assignField target name v
      return .proceed
  | .call c => do
      let _ ← ask (.call c)
      return .proceed
  | .branch condition yes no => do
      let v ← ask (.evaluate condition)
      if ← lift (Operation.condition .branch v) then ask (.block yes)
      else
        match no with
        | some no => ask (.block no)
        | none => return .proceed
  | .loop condition body => ask (.iterate condition body)
  | .return none => return .returned .nil
  | .return (some e) => do
      let v ← ask (.evaluate e)
      let v ← released v
      return .returned v

/-- Executes statements in turn, up to the first that ends the activation (`run_statements`). -/
def executeAll : List Stmt → Script Status
  | [] => return .proceed
  | s :: l => do
      match ← ask (.execute s) with
      | .proceed => ask (.executeAll l)
      | .returned v => return .returned v

/-- Executes the block of a loop as long as the condition holds (`while` of `exec_stmt`). -/
def iterate (condition : Expr) (body : List Stmt) : Script Status := do
  let v ← ask (.evaluate condition)
  if ← lift (Operation.condition .loop v) then
    match ← ask (.block body) with
    | .proceed => ask (.iterate condition body)
    | .returned v => return .returned v
  else return .proceed

end Script

/-- What a task consists of. -/
def Task.script : (t : Task) → Script t.Result
  | .evaluate e => Script.evaluate e
  | .evaluateAll l => Script.evaluateAll l
  | .call c => evaluateCall c
  | .builtin b args => evaluateBuiltin b args
  | .invoke label callable args receiver => Script.invoke label callable args receiver
  | .bind environment l => bindArguments environment l
  | .execute s => Script.execute s
  | .executeAll l => Script.executeAll l
  | .block l => inside .block l done
  | .iterate condition body => Script.iterate condition body

/-- Performs a task, with calls at most as deep as the first argument says. -/
def perform : Nat → (t : Task) → Eval t.Result
  | 0, _ => stop
  | n + 1, t => t.script.run (perform n)

end ProtoScript
