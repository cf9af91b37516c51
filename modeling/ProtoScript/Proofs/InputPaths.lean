import Mathlib.Data.String.Basic
import ProtoScript.CommandLine
import ProtoScript.Proofs.Balance
import ProtoScript.Proofs.Dialogue
import ProtoScript.Proofs.GoldenRuns
import ProtoScript.Proofs.InputLines
/-!
# Two ways to give a program its input

A text reaches a program on the standard input of a run, or as the recorded input
of a golden case.  In both ways the program is the same and so is the machine; only
the lines may differ, and they do exactly if the text has a carriage return too many
(`Text.SurplusReturn`).

Where the lines are the same, everything is.  Where they are not, a program shows it
that prints every line it is told, until no line is left (`Relay.printed_outcome`).
-/

namespace ProtoScript

/-! ### Outcomes -/

/-- What comes of a text and the lines to be read: a diagnostic if the text is no program, and else
the end of the run. -/
abbrev Outcome := Except Diagnostic (EStateM.Result Halt Machine Value)

/-- What comes of a program that is given as a text. -/
def outcome (fuel : Nat) (source : String) (input : List String) : Outcome :=
  (Program.ofText source).map fun p => Machine.run fuel p (.initial { pending := input })

namespace Outcome

/-- The lines that were printed. -/
def printed : Outcome → List String
  | .error _ => []
  | .ok (.ok _ m) | .ok (.error _ m) => m.console.lines

/-- The report on a file. -/
def report (file : String) (colour : Bool) : Outcome → Report
  | .error d => .diagnosed "" file colour d
  | .ok result => .ofRun file colour result

/-- The transcript. -/
def transcript : Outcome → String
  | .error d => "error: " ++ d.kind.word
  | .ok (.ok _ m) => "\n".intercalate m.console.lines
  | .ok (.error h m) => "\n".intercalate (m.console.lines ++ [h.line])

end Outcome

theorem transcript_eq (fuel : Nat) (source : String) (input : List String) :
    transcript fuel source input = (outcome fuel source input).transcript := by
  unfold transcript outcome
  cases Program.ofText source with
  | error d => simp [Except.map, Outcome.transcript]
  | ok p =>
      simp only [Except.map, Outcome.transcript, Program.transcript]
      split <;> simp_all

/-- **A run reads the lines that a terminal delivers.** -/
theorem execute_run {files : Files} {file source : String} (h : files.read file = .ok source)
    (fuel : Nat) (text : String) (colour : Bool) :
    Command.execute fuel files text colour (.run file false)
      = ((outcome fuel source (Text.typedLines text)).report file colour, files) := by
  have hreport : Command.runText Refusal.plain fuel file false source (Text.typedLines text) colour
      = (outcome fuel source (Text.typedLines text)).report file colour := by
    unfold Command.runText outcome Program.ofFile
    cases Program.ofText source <;> rfl
  simp only [Command.execute, Command.executeWith, h, hreport]

/-- **A golden case reads the recorded lines.** -/
theorem actual_of_input {d : Directory} {c : Golden.Case} {source text : String}
    (hn : c.name ≠ ".") (hs : d.get? (c.name ++ ".br") = some (.file source))
    (hi : d.get? (c.name ++ ".in") = some (.file text)) (fuel : Nat) :
    Golden.actual fuel d c = .ok (outcome fuel source (Text.recordedLines text)).transcript :=
  Golden.actual_eq_ok_iff.2 ⟨hn, transcript_eq fuel source _ ▸ .input hs hi⟩

/-! ### An endless loop -/

theorem Eval.reportStatement_bind {α : Type} (label : String) (f : Unit → Eval α) (m : Machine) :
    (reportStatement label >>= f) m = f () (m.report (.executed label m.environment.depth)) := rfl

theorem perform_execute_call (n : Nat) (c : Call) : perform (n + 1) (.execute (.call c))
    = Eval.reportStatement (Stmt.call c).label >>= fun _ =>
        perform n (.call c) >>= fun _ => pure .proceed := by
  show (Script.execute (.call c)).run (perform n) = _
  rw [Script.execute, Script.run_liftM_bind]
  exact congrArg (_ >>= ·) (funext fun _ => Script.run_ask_bind (perform n) (.call c) _)

theorem perform_execute_loop (n : Nat) (condition : Expr) (l : List Stmt) :
    perform (n + 1) (.execute (.loop condition l))
      = Eval.reportStatement (Stmt.loop condition l).label >>= fun _ =>
          perform n (.iterate condition l) := by
  show (Script.execute (.loop condition l)).run (perform n) = _
  rw [Script.execute, Script.run_liftM_bind]
  exact congrArg (_ >>= ·) (funext fun _ => Script.run_ask (perform n) (.iterate condition l))

theorem perform_executeAll_singleton (n : Nat) (s : Stmt) :
    perform (n + 2) (.executeAll [s]) = perform (n + 1) (.execute s) := by
  show (Script.executeAll [s]).run (perform (n + 1)) = _
  rw [Script.executeAll, Script.run_ask_bind]
  refine (congrArg (_ >>= ·) (funext fun status => ?_)).trans (bind_pure _)
  cases status with
  | proceed => exact Script.run_ask (perform (n + 1)) (.executeAll [])
  | returned v => rfl

theorem perform_block (n : Nat) (l : List Stmt) :
    perform (n + 1) (.block l) = Surroundings.block.run (perform n (.executeAll l)) :=
  Script.run_inside (perform n) .block l

theorem perform_iterate_true (n : Nat) (l : List Stmt) :
    perform (n + 2) (.iterate (.truth true) l) = perform (n + 1) (.block l) >>= fun status =>
      match status with
      | .proceed => perform (n + 1) (.iterate (.truth true) l)
      | .returned v => pure (.returned v) := by
  have hcondition : perform (n + 1) (.evaluate (.truth true)) = pure (.truth true) := rfl
  have htrue : Eval.lift (Operation.condition .loop (.truth true)) = pure true := rfl
  show (Script.iterate (.truth true) l).run (perform (n + 1)) = _
  rw [Script.iterate, Script.run_ask_bind, hcondition, pure_bind, Script.run_liftM_bind, htrue,
    pure_bind, if_pos rfl, Script.run_ask_bind]
  refine congrArg (_ >>= ·) (funext fun status => ?_)
  cases status with
  | proceed => exact Script.run_ask (perform (n + 1)) (.iterate (.truth true) l)
  | returned v => rfl

/-- The machine inside a new scope, where a call is executed as a statement. -/
def Machine.atCall (m : Machine) (c : Call) : Machine :=
  m.enterBlock.report (.executed (Stmt.call c).label m.enterBlock.environment.depth)

/-- A block with one call ends as the call does. -/
theorem perform_block_call (n : Nat) (c : Call) (m : Machine) :
    perform (n + 3) (.block [.call c]) m
      = match perform n (.call c) (m.atCall c) with
        | .ok _ m' => .ok .proceed m'.leaveBlock
        | .error halt m' => .error halt m'.leaveBlock := by
  have hcall : (perform n (.call c) >>= fun _ => pure Status.proceed) (m.atCall c)
      = match perform n (.call c) (m.atCall c) with
        | .ok _ m' => .ok .proceed m'
        | .error halt m' => .error halt m' := by
    simp only [bind, EStateM.bind]
    cases perform n (.call c) (m.atCall c) <;> rfl
  have hentered : (Eval.reportStatement (Stmt.call c).label >>= fun _ =>
      perform n (.call c) >>= fun _ => pure Status.proceed) m.enterBlock
        = (perform n (.call c) >>= fun _ => pure Status.proceed) (m.atCall c) :=
    Eval.reportStatement_bind _ _ m.enterBlock
  rw [perform_block, perform_executeAll_singleton, perform_execute_call]
  simp only [Surroundings.run, Surroundings.enter, Surroundings.leave, hentered, hcall]
  cases perform n (.call c) (m.atCall c) <;> rfl

/-! ### A program that prints what it is told -/

namespace Relay

/-- Prints the next line. -/
def line : Call := .printing (.call (.question .readText none))

/-- The body of the loop. -/
def body : List Stmt := [.call line]

/-- Prints all lines. -/
def main : Routine := .mk "main" [] [.loop (.truth true) body]

/-- The program. -/
def source : String := "func main() \x7b while (true) \x7b print(inputs()); \x7d \x7d"

variable {m : Machine} {told : String} {rest : List String}

theorem perform_line (n : Nat) (h : m.console.pending = told :: rest) :
    perform (n + 7) (.call line) m = .ok .nil (m.said [told] rest) := by
  have hreader : Builtin.readText ≠ .print := nofun
  have hread : perform (n + 4) (.evaluate (.call (.question .readText none))) m
      = .ok (.text told) (m.said [] rest) := by
    rw [perform_evaluate_call, perform_question_answered hreader .silent h]
    rfl
  rw [line, perform_printing hread, Machine.said_said]
  rfl

theorem perform_line_end (n : Nat) (h : m.console.pending = []) :
    perform (n + 7) (.call line) m
      = .error (.failed ⟨.endOfInput .readText, []⟩) (m.said [] []) := by
  have hreader : Builtin.readText ≠ .print := nofun
  have hread : perform (n + 4) (.evaluate (.call (.question .readText none))) m
      = .error (.failed ⟨.endOfInput .readText, []⟩) (m.said [] []) := by
    rw [perform_evaluate_call, perform_question_end hreader .silent h]
  exact perform_printing_error hread

/-- The machine after a round. -/
def advanced (m : Machine) (told : String) (rest : List String) : Machine :=
  ((m.atCall line).said [told] rest).leaveBlock

/-- **A round takes a line from the input to the output.** -/
theorem perform_round (n : Nat) (h : m.console.pending = told :: rest) :
    perform (n + 11) (.iterate (.truth true) body) m
      = perform (n + 10) (.iterate (.truth true) body) (advanced m told rest) := by
  have hline : perform (n + 7) (.call line) (m.atCall line)
      = .ok .nil ((m.atCall line).said [told] rest) := perform_line n h
  have hblock : perform (n + 10) (.block body) m = .ok .proceed (advanced m told rest) := by
    rw [body, perform_block_call, hline]
    rfl
  rw [perform_iterate_true]
  simp only [bind, EStateM.bind, hblock]

/-- Where no line is left the loop fails, in the activation in which it runs. -/
theorem perform_round_end (n : Nat) (h : m.console.pending = []) :
    ∃ m', perform (n + 11) (.iterate (.truth true) body) m
        = .error (.failed ⟨.endOfInput .readText, []⟩) m' ∧
      m'.console.lines = m.console.lines := by
  have hline : perform (n + 7) (.call line) (m.atCall line)
      = .error (.failed ⟨.endOfInput .readText, []⟩) ((m.atCall line).said [] []) :=
    perform_line_end n h
  have hblock : perform (n + 10) (.block body) m
      = .error (.failed ⟨.endOfInput .readText, []⟩)
        ((m.atCall line).said [] []).leaveBlock := by
    rw [body, perform_block_call, hline]
  have hlines : ((m.atCall line).said [] []).leaveBlock.console.lines = m.console.lines ++ [] :=
    (m.atCall line).lines_said [] []
  refine ⟨((m.atCall line).said [] []).leaveBlock, ?_, by rw [hlines, List.append_nil]⟩
  rw [perform_iterate_true]
  simp only [bind, EStateM.bind, hblock]

/-- **The loop prints the lines that are left**, and fails when none is. -/
theorem perform_loop (lines : List String) (n : Nat) (m : Machine) (h : m.console.pending = lines) :
    ∃ m', perform (n + lines.length + 11) (.iterate (.truth true) body) m
        = .error (.failed ⟨.endOfInput .readText, []⟩) m' ∧
      m'.console.lines = m.console.lines ++ lines := by
  induction lines generalizing m with
  | nil =>
      obtain ⟨m', hm', hlines⟩ := perform_round_end n h
      exact ⟨m', hm', by rw [hlines, List.append_nil]⟩
  | cons told rest ih =>
      obtain ⟨m', hm', hlines⟩ := ih (advanced m told rest) rfl
      have hfrom : (advanced m told rest).console.lines = m.console.lines ++ [told] :=
        (m.atCall line).lines_said [told] rest
      refine ⟨m', ?_, ?_⟩
      · rw [List.length_cons, ← Nat.add_assoc, Nat.add_right_comm, perform_round _ h]
        exact hm'
      · rw [hlines, hfrom, List.append_assoc, List.singleton_append]

/-- **The program prints the lines that it is told**, and fails where the input ends. -/
theorem run_relay (lines : List String) (n : Nat) :
    ∃ m, Machine.run (n + lines.length + 13) ⟨[main]⟩ (.initial { pending := lines })
        = .error (.failed ⟨.endOfInput .readText, [⟨Machine.mainName, 0⟩]⟩) m ∧
      m.console.lines = lines := by
  obtain ⟨t, ht, hmain⟩ : ∃ t, RoutineTable.ofProgram ⟨[main]⟩ = .ok t ∧
      t.lookup? Machine.mainName 0 = some main := ⟨_, rfl, rfl⟩
  let started : Machine := ((Machine.initial { pending := lines }).load t).enterMain
  obtain ⟨m, hm, hlines⟩ := perform_loop lines n
    (started.report (.executed (Stmt.loop (.truth true) body).label started.environment.depth)) rfl
  have hbody : perform (n + lines.length + 13) (.executeAll main.body) started
      = .error (.failed ⟨.endOfInput .readText, []⟩) m := by
    show perform (n + lines.length + 11 + 2) (.executeAll [.loop (.truth true) body]) started = _
    rw [perform_executeAll_singleton, perform_execute_loop, Eval.reportStatement_bind]
    exact hm
  have hstart := Machine.start_eq_error_iff.2 ⟨_, hbody, rfl⟩
  exact ⟨_, (Machine.run_eq_start ht hmain).trans hstart, hlines⟩

theorem ofText_source : Program.ofText source = .ok ⟨[main]⟩ :=
  Golden.eq_ok_of_toOption (by decide +kernel)

/-- **What comes of the program shows the lines of the input.** -/
theorem printed_outcome (lines : List String) {fuel : Nat} (h : lines.length + 13 ≤ fuel) :
    (outcome fuel source lines).printed = lines := by
  obtain ⟨n, rfl⟩ := Nat.exists_eq_add_of_le h
  obtain ⟨m, hrun, hlines⟩ := run_relay lines n
  have hfuel : lines.length + 13 + n = n + lines.length + 13 := by omega
  rw [hfuel, outcome, ofText_source]
  simp only [Except.map, hrun, Outcome.printed, hlines]

end Relay

/-! ### Files by their names -/

/-- A text in which no `/` follows is not cut any more. -/
theorem splitOnAux_of_notMem {l : List Char} (h : '/' ∉ l) (before : List Char) :
    String.splitOnAux (.ofList (before ++ l)) "/" 0 ⟨String.utf8Len before⟩ 0 []
      = [.ofList (before ++ l)] := by
  induction l generalizing before with
  | nil =>
      have hend := (String.atEnd_of_valid before []).2 rfl
      have htext := String.extract_of_valid [] before []
      rw [List.nil_append, String.utf8Len_nil, Nat.zero_add] at htext
      rw [String.splitOnAux, if_pos hend]
      rw [List.append_nil] at htext ⊢
      exact congrArg (fun text => [text]) htext
  | cons c l ih =>
      have hend := mt (String.atEnd_of_valid before (c :: l)).1 (List.cons_ne_nil c l)
      have hc : c ≠ '/' := fun hc => h (hc ▸ List.mem_cons_self)
      have hslash : String.Pos.Raw.get "/" 0 = '/' := by decide
      have hlater := ih (fun hl => h (List.mem_cons_of_mem c hl)) (before ++ [c])
      rw [List.append_assoc, List.singleton_append] at hlater
      have hnext : String.Pos.Raw.next (.ofList (before ++ c :: l))
          (String.Pos.Raw.unoffsetBy ⟨String.utf8Len before⟩ 0)
            = ⟨String.utf8Len (before ++ [c])⟩ := by
        rw [String.utf8Len_append, String.utf8Len_cons, String.utf8Len_nil, Nat.zero_add]
        exact String.next_of_valid before c l
      rw [String.splitOnAux, if_neg hend, String.get_of_valid, hslash, if_neg (by simpa using hc),
        hnext, hlater]

theorem Path.steps_of_notMem {text : String} (h : '/' ∉ text.toList) : steps text = [text] := by
  have hsplit := splitOnAux_of_notMem h []
  rw [List.nil_append, String.ofList_toList] at hsplit
  exact hsplit

/-- **A file is found under the name under which it was written**, if the name is no step that stays
or goes back. -/
theorem Files.read_write {name : String} (hslash : '/' ∉ name.toList) (hempty : name ≠ "")
    (hdot : name ≠ ".") (haround : name ≠ Directory.around) (f : Files) (text : String) :
    (f.write [name] text).read name = .ok text := by
  have hstart : Path.start name = [] := if_neg fun h => hslash (List.mem_of_mem_head? h)
  have hnext : Path.next [] name = [name] := by
    rw [Path.next, if_neg (not_or_intro hempty hdot), if_neg haround, List.nil_append]
  have hname : ¬([name] = ["/"] ∨ [name].all (· = Directory.around) = true) := by
    rintro (h | h)
    · exact hslash (List.singleton_inj.1 h ▸ List.mem_cons_self)
    · exact haround (by simpa using h)
  have hget : (f.write [name] text).nodes.get? [name] = some (.file text) :=
    FiniteMap.get?_insert_self ..
  have hnode : (f.write [name] text).node [name] = .ok (.file text) := by
    rw [Files.node, if_neg hname, hget]
  have hlocate : (f.write [name] text).locate name = .ok [name] := by
    rw [Files.locate, Path.steps_of_notMem hslash, hstart]
    show Except.ok (Path.next [] name) = _
    rw [hnext]
  rw [Files.read, hlocate]
  show ((f.write [name] text).node [name] >>= _) = _
  rw [hnode]
  rfl

/-! ### The same input on both ways -/

/-- A program is given to a run as a file, and with an input as a golden case. -/
structure Offered (files : Files) (file : String) (d : Directory) (c : Golden.Case)
    (source text : String) : Prop where
  /-- The file holds the program. -/
  program : files.read file = .ok source
  /-- Files belong to the script. -/
  named : c.name ≠ "."
  /-- The script is the program. -/
  script : d.get? (c.name ++ ".br") = some (.file source)
  /-- The input is recorded. -/
  input : d.get? (c.name ++ ".in") = some (.file text)

/-- **What a text is to a program on both ways.**  Each reader delivers lines of its own, and of
these alone it depends what comes of the program.  The terminal drops the carriage returns at the
ends of the recorded lines; it finds none exactly if the text has no carriage return too many.  Then
everything is the same; in any case a program shows the lines. -/
theorem input_paths (text : String) :
    (Text.Delivers Text.withoutBreaks text.toList ((Text.typedLines text).map String.toList) ∧
      Text.Delivers Text.withoutBreak text.toList
        ((Text.recordedLines text).map String.toList)) ∧
    (∀ {files file d c source}, Offered files file d c source text → ∀ fuel colour,
      Command.execute fuel files text colour (.run file false)
          = ((outcome fuel source (Text.typedLines text)).report file colour, files) ∧
        Golden.actual fuel d c
          = .ok (outcome fuel source (Text.recordedLines text)).transcript) ∧
    Text.typedLines text = (Text.recordedLines text).map
      (fun line => String.ofList (Text.withoutReturns line.toList)) ∧
    (Text.typedLines text = Text.recordedLines text ↔ ¬Text.SurplusReturn text.toList) ∧
    (¬Text.SurplusReturn text.toList → ∀ fuel source,
      outcome fuel source (Text.typedLines text)
        = outcome fuel source (Text.recordedLines text)) ∧
    ∀ fuel, (Text.recordedLines text).length + 13 ≤ fuel →
      (outcome fuel Relay.source (Text.typedLines text)).printed = Text.typedLines text ∧
      (outcome fuel Relay.source (Text.recordedLines text)).printed = Text.recordedLines text := by
  have hlines : Text.typedLines text = Text.recordedLines text ↔ ¬Text.SurplusReturn text.toList :=
    Text.typedLines_eq_recordedLines_iff
  have hlength : (Text.typedLines text).length = (Text.recordedLines text).length := by
    rw [Text.typedLines_eq, List.length_map]
  refine ⟨⟨Text.delivers_typedLines text, Text.delivers_recordedLines text⟩, ?_,
    Text.typedLines_eq text, hlines, fun h fuel source => ?_, fun fuel h => ⟨?_, ?_⟩⟩
  · intro files file d c source h fuel colour
    exact ⟨execute_run h.program fuel text colour,
      actual_of_input h.named h.script h.input fuel⟩
  · rw [hlines.2 h]
  · exact Relay.printed_outcome _ (hlength ▸ h)
  · exact Relay.printed_outcome _ h

/-- The program that prints what it is told, in files. -/
def relayFiles : Files := Files.empty.write ["p.br"] Relay.source

/-- The program as a golden case with a recorded input. -/
def relayCase (text : String) : Directory :=
  .ofList [("p.br", .file Relay.source), ("p.in", .file text)]

theorem read_relayFiles : relayFiles.read "p.br" = .ok Relay.source :=
  Files.read_write (by decide) (by decide) (by decide) (by decide) .empty Relay.source

theorem offered_relay (text : String) :
    Offered relayFiles "p.br" (relayCase text) ⟨"p"⟩ Relay.source text where
  program := read_relayFiles
  named := by decide
  script := rfl
  input := rfl

/-- A carriage return that belongs to the end of a line, or stands at the start of one, makes no
difference. -/
theorem input_paths_harmless_returns : ∃ o : Outcome, o.printed = ["a", "\rb"] ∧
    Command.execute 20 relayFiles "a\r\n\rb" false (.run "p.br" false)
      = (o.report "p.br" false, relayFiles) ∧
    Golden.actual 20 (relayCase "a\r\n\rb") ⟨"p"⟩ = .ok o.transcript := by
  obtain ⟨-, hpaths, -, -, hsame, hshown⟩ := input_paths "a\r\n\rb"
  obtain ⟨hrun, hcase⟩ := hpaths (offered_relay _) 20 false
  refine ⟨_, (hshown 20 (by decide)).1.trans (by decide), hrun, ?_⟩
  rw [hcase, hsame (by decide)]

/-- **A carriage return too many is lost on a terminal**, and kept in a recorded input. -/
theorem surplus_return_lost :
    (Command.execute 20 relayFiles "a\r\r\n" false (.run "p.br" false)).1.stdout = "a\n" ∧
      Golden.actual 20 (relayCase "a\r\r\n") ⟨"p"⟩ = .ok "a\r\nerror: FaultError" ∧
      Text.typedLines "a\r\r\n" = ["a"] ∧ Text.recordedLines "a\r\r\n" = ["a\r"] := by
  refine ⟨?_, Golden.eq_ok_of_toOption (by decide +kernel), by decide, by decide⟩
  rw [execute_run read_relayFiles]
  decide +kernel

end ProtoScript
