import ProtoScript.Proofs.Simulation
/-!
# Dialogues

A program says lines and is told lines by calls of three routines of the
language.  Each of them evaluates its arguments first and touches the console
afterwards, and nothing else of the machine: what is known of the arguments is
known of the call.

A question is printed before the answer to it is read.  So where no line is left
the question has been printed although the call fails (`perform_question_end`).
-/

namespace ProtoScript

theorem Builtin.ofName?_name (b : Builtin) : ofName? b.name = some b := by
  cases b <;> decide

theorem Console.foldl_print (lines : List String) (c : Console) :
    lines.foldl print c = { c with printed := c.printed ++ lines.toArray } := by
  induction lines generalizing c with
  | nil => simp
  | cons line lines ih => simp [ih, print]

/-- The machine after further lines were printed, with the given lines still to be read. -/
def Machine.said (m : Machine) (shown left : List String) : Machine :=
  { m with console := ⟨left, m.console.printed ++ shown.toArray⟩ }

@[simp] theorem Machine.pending_said (m : Machine) (shown left : List String) :
    (m.said shown left).console.pending = left := rfl

@[simp] theorem Machine.lines_said (m : Machine) (shown left : List String) :
    (m.said shown left).console.lines = m.console.lines ++ shown := by
  simp [said, Console.lines]

theorem Machine.said_said (m : Machine) (shown shown' left left' : List String) :
    (m.said shown left).said shown' left' = m.said (shown ++ shown') left' := by
  simp [said]

namespace Eval

theorem printAll_eq (lines : List String) (m : Machine) :
    printAll lines m = .ok () (m.said lines m.console.pending) := by
  rw [printAll, Console.foldl_print]
  rfl

theorem print_eq (line : String) (m : Machine) :
    print line m = .ok () (m.said [line] m.console.pending) :=
  printAll_eq [line] m

theorem readLine_eq_ok {m : Machine} {line : String} {rest : List String}
    (h : m.console.pending = line :: rest) (b : Builtin) :
    readLine b m = .ok line (m.said [] rest) := by
  have hsaid : m.said [] rest = { m with console := { m.console with pending := rest } } := by
    simp [Machine.said]
  rw [readLine, Console.read?, h, hsaid]

theorem readLine_eq_error {m : Machine} (h : m.console.pending = []) (b : Builtin) :
    readLine b m = .error (.failed ⟨.endOfInput b, []⟩) m := by
  rw [readLine, Console.read?, h]
  rfl

end Eval

/-! ### The arguments of a call -/

variable {k : Nat} {m m' : Machine} {e : Expr} {v : Value}

theorem perform_evaluate_call (n : Nat) (c : Call) :
    perform (n + 1) (.evaluate (.call c)) = perform n (.call c) :=
  Script.run_ask (perform n) (.call c)

theorem perform_call_builtin (n : Nat) (b : Builtin) (args : List Expr) :
    perform (n + 1) (.call (.mk (.name b.name) args)) = perform n (.builtin b args) := by
  show (Script.evaluateCall (.mk (.name b.name) args)).run (perform n) = _
  rw [Script.evaluateCall_of_builtin b.ofName?_name]
  exact Script.run_ask (perform n) (.builtin b args)

theorem perform_evaluateAll_singleton (h : perform k (.evaluate e) m = .ok v m') :
    perform (k + 1) (.evaluateAll [e]) m = .ok [v] m' := by
  -- The value shows that the bound is not zero, which the empty rest of the list needs.
  cases k with
  | zero => cases h
  | succ k =>
      show (Script.evaluateAll [e]).run (perform (k + 1)) m = _
      have hrest : perform (k + 1) (.evaluateAll []) m' = .ok [] m' := rfl
      simp only [Script.evaluateAll, Script.ask, Script.bind_eq, Script.andThen, Script.run, h,
        hrest]
      rfl

theorem perform_evaluateAll_singleton_error {halt : Halt}
    (h : perform k (.evaluate e) m = .error halt m') :
    perform (k + 1) (.evaluateAll [e]) m = .error halt m' := by
  show (Script.evaluateAll [e]).run (perform k) m = _
  simp only [Script.evaluateAll, Script.ask, Script.bind_eq, Script.andThen, Script.run, h]

/-! ### Printing -/

/-- A call that prints the value of an expression. -/
def Call.printing (e : Expr) : Call := .mk (.name Builtin.print.name) [e]

/-- **A value is printed in a line.** -/
theorem perform_printing (h : perform k (.evaluate e) m = .ok v m') :
    perform (k + 3) (.call (.printing e)) m
      = .ok .nil (m'.said [v.printed] m'.console.pending) := by
  have hargs := perform_evaluateAll_singleton h
  have hline : String.join ([v].map Value.printed) = v.printed := by simp [String.join]
  rw [Call.printing, perform_call_builtin]
  show (Script.evaluateBuiltin .print [e]).run (perform (k + 1)) m = _
  simp only [Script.evaluateBuiltin, Script.ask, Script.bind_eq, Script.andThen, Script.liftM_eq,
    Script.run, hargs, hline, Eval.print_eq]
  rfl

theorem perform_printing_error {halt : Halt} (h : perform k (.evaluate e) m = .error halt m') :
    perform (k + 3) (.call (.printing e)) m = .error halt m' := by
  have hargs := perform_evaluateAll_singleton_error h
  rw [Call.printing, perform_call_builtin]
  show (Script.evaluateBuiltin .print [e]).run (perform (k + 1)) m = _
  simp only [Script.evaluateBuiltin, Script.ask, Script.bind_eq, Script.andThen, Script.run, hargs]

/-! ### Questions -/

/-- A call of a routine that reads a line, with a prompt or without. -/
def Call.question (b : Builtin) (prompt : Option Expr) : Call := .mk (.name b.name) prompt.toList

/-- The prompt of a question has been evaluated, from `m` to `m'` and with calls at most as deep as
`k`; what is to be shown of it is a line, or none if there is no prompt. -/
inductive Prompts (k : Nat) (m : Machine) : Option Expr → List String → Machine → Prop where
  /-- There is no prompt. -/
  | silent : Prompts k m none [] m
  /-- The prompt has a value. -/
  | prompt {e : Expr} {v : Value} {m' : Machine} (h : perform k (.evaluate e) m = .ok v m') :
      Prompts k m (some e) [v.printed] m'

/-- What a routine that reads a line makes of it. -/
def Builtin.answer (b : Builtin) (line : String) : Eval Value :=
  if b = .readInteger then Eval.integerOf line else pure (.text line)

variable {b : Builtin} {prompt : Option Expr} {shown : List String}

theorem Prompts.perform_evaluateAll (h : Prompts k m prompt shown m') :
    ∃ vs, vs.map Value.printed = shown ∧
      perform (k + 1) (.evaluateAll prompt.toList) m = .ok vs m' := by
  cases h with
  | silent => exact ⟨[], rfl, rfl⟩
  | prompt h => exact ⟨[_], rfl, perform_evaluateAll_singleton h⟩

/-- **A question is printed, then a line is read.** -/
theorem perform_question (hb : b ≠ .print) (h : Prompts k m prompt shown m') :
    perform (k + 3) (.call (.question b prompt)) m
      = (Eval.readLine b >>= b.answer) (m'.said shown m'.console.pending) := by
  obtain ⟨vs, rfl, hargs⟩ := h.perform_evaluateAll
  have hlength : ¬1 < prompt.toList.length := by cases prompt <;> simp
  have hbuiltin : Task.script (.builtin b prompt.toList) = Script.prompt b prompt.toList := by
    cases b with
    | print => exact absurd rfl hb
    | readInteger => rfl
    | readText => rfl
  rw [Call.question, perform_call_builtin]
  show (Task.script (.builtin b prompt.toList)).run (perform (k + 1)) m = _
  rw [hbuiltin, Script.prompt_eq, if_neg hlength]
  simp only [Script.run, hargs, Eval.printAll_eq, bind, EStateM.bind]
  cases Eval.readLine b (m'.said (vs.map Value.printed) m'.console.pending) with
  | error e m => rfl
  | ok line m =>
      simp only [Builtin.answer]
      split
      · simp only [Script.run]
        cases Eval.integerOf line m <;> rfl
      · rfl

/-- **Exactly one line is read.** -/
theorem perform_question_answered (hb : b ≠ .print) (h : Prompts k m prompt shown m')
    {line : String} {rest : List String} (hp : m'.console.pending = line :: rest) :
    perform (k + 3) (.call (.question b prompt)) m = b.answer line (m'.said shown rest) := by
  rw [perform_question hb h, hp]
  simp only [bind, EStateM.bind,
    Eval.readLine_eq_ok (m'.pending_said shown (line :: rest)) b, Machine.said_said,
    List.append_nil]

/-- **Where no line is left the question has been printed.** -/
theorem perform_question_end (hb : b ≠ .print) (h : Prompts k m prompt shown m')
    (hp : m'.console.pending = []) :
    perform (k + 3) (.call (.question b prompt)) m
      = .error (.failed ⟨.endOfInput b, []⟩) (m'.said shown []) := by
  rw [perform_question hb h, hp]
  simp only [bind, EStateM.bind, Eval.readLine_eq_error (m'.pending_said shown []) b]

end ProtoScript
