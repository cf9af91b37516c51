import ProtoScript.Proofs.Balance
import ProtoScript.Proofs.Equivariance
/-!
# Runs and what came before them

A run does not depend on what the machine ran before.  Loading takes of the machine
its console and the number of closures created and nothing else, so a machine with a
program loaded is a new machine with this program loaded, after the past of the machine
(`Machine.load_eq_after`).  From there on everything happens after that past as it
happens without one (`Machine.run_eq_ending`).

Two machines with the same lines to be read differ in their pasts only, and so do
two runs of a program on them (`history_independence`): scopes left open, routines of
an earlier program and the activation of `main` that a failure has left running are
nowhere in them.
-/

namespace ProtoScript

/-! ### Lines that are read -/

/-- Lines have been read from the front, or none have. -/
abbrev Machine.Reads (m m' : Machine) : Prop := m'.console.pending <:+ m.console.pending

theorem Machine.Reads.of_eq {m m' : Machine} (h : m'.console.pending = m.console.pending) :
    m.Reads m' := ⟨[], h⟩

theorem Machine.lasting_reads : Lasting Reads where
  refl _ := List.suffix_rfl
  trans h h' := h'.trans h
  leave p _ _ h := by cases p <;> exact h

theorem Console.pending_foldl_print (lines : List String) (c : Console) :
    (lines.foldl print c).pending = c.pending := by
  induction lines generalizing c with
  | nil => rfl
  | cons line lines ih => rw [List.foldl_cons, ih, print]

/-- No step reads anything but the next line. -/
theorem Eval.steps_reads : Steps (Keeps Machine.Reads) := by
  refine steps_of_inward (fun h => ?_) (fun r byRef => ?_) (fun line => ?_) (fun lines => ?_)
    fun b => ?_
  · exact .of_eq (congrArg Console.pending h.console)
  · constructor
    · intro m m' c h
      unfold capture at h
      split at h <;> cases h
      exact .of_eq rfl
    · intro m m' e h
      unfold capture at h
      split at h <;> cases h
      exact .of_eq rfl
  · exact .of_ok (fun _ => rfl) fun _ => .of_eq rfl
  · exact .of_ok (fun _ => rfl) fun m => .of_eq (Console.pending_foldl_print lines m.console)
  · constructor
    · intro m m' line h
      unfold readLine Console.read? at h
      cases hpending : m.console.pending with
      | nil =>
          rw [hpending] at h
          cases h
      | cons next rest =>
          rw [hpending] at h
          cases h
          exact ⟨[_], hpending.symm⟩
    · intro m m' e h
      unfold readLine at h
      split at h <;> cases h
      exact .of_eq rfl

/-- **Lines are read in order**, and no task puts one back. -/
theorem perform_reads (n : Nat) (t : Task) : Eval.Keeps Machine.Reads (perform n t) :=
  perform_keeps Machine.lasting_reads Eval.steps_reads n t

/-! ### Runs -/

namespace Machine

/-- A new machine with the same lines to be read. -/
def renewed (m : Machine) : Machine := .initial { pending := m.console.pending }

/-- **Loading takes nothing of a machine** but the lines to be read and its past. -/
theorem load_eq_after (m : Machine) (t : RoutineTable) :
    m.load t = (m.renewed.load t).after m.past := by
  have hstore : ((∅ : Store).newScope ∅).shift m.closures = (∅ : Store).newScope ∅ := by
    rw [Store.shift_newScope, Store.shift_empty]
  have hprinted : m.console.printed ++ #[] = m.console.printed := Array.append_empty
  simp only [load, renewed, initial, after, past, Console.after, hstore, hprinted]
  rfl

theorem start_shifts (π : Past) (fuel : Nat) (main : Routine) :
    Eval.Shifts π (Value.shift π.closures) (start fuel main) (start fuel main) := by
  intro m
  have h : perform fuel (.executeAll main.body) (m.after π).enterMain
      = π.ending (Status.shift π.closures) (perform fuel (.executeAll main.body) m.enterMain) :=
    perform_shifts π fuel (.executeAll main.body) m.enterMain
  rw [start, start, h]
  cases perform fuel (.executeAll main.body) m.enterMain with
  | ok status m₁ => cases status <;> rfl
  | error e m₁ => rfl

/-- A program without `main` fails as soon as it is loaded. -/
theorem run_of_noMain {p : Program} {t : RoutineTable} (h : RoutineTable.ofProgram p = .ok t)
    (hmain : t.lookup? mainName 0 = none) (fuel : Nat) (m : Machine) :
    run fuel p m = .error (.failed ⟨.noMain, []⟩) (m.load t) := by
  simp only [run, h, hmain]

/-- **A program that is loaded runs after the past of a machine as it runs on a new one.** -/
theorem run_eq_ending {p : Program} {t : RoutineTable} (h : RoutineTable.ofProgram p = .ok t)
    (fuel : Nat) (m : Machine) :
    run fuel p m = m.past.ending (Value.shift m.closures) (run fuel p m.renewed) := by
  cases hmain : t.lookup? mainName 0 with
  | none =>
      rw [run_of_noMain h hmain, run_of_noMain h hmain, m.load_eq_after]
      rfl
  | some main =>
      rw [run_eq_start h hmain, run_eq_start h hmain, m.load_eq_after]
      exact start_shifts m.past fuel main _

/-- A program that is not loaded leaves the machine as it was. -/
theorem run_of_refused {p : Program} {fault : Fault} (h : RoutineTable.ofProgram p = .error fault)
    (fuel : Nat) (m : Machine) :
    run fuel p m = .error (.failed ⟨fault, []⟩) { m with events := [] } := by
  rw [run, h]

/-- What every task keeps is kept while `main` runs, if it does not look at the activations. -/
theorem start_keeps {R : Machine → Machine → Prop} {fuel : Nat}
    (h : ∀ t, Eval.Keeps R (perform fuel t))
    (hframes : ∀ {m m' : Machine} {l l'},
      R { m with frames := l } m' → R m { m' with frames := l' })
    (main : Routine) : Eval.Keeps R (start fuel main) := by
  have hbody := h (.executeAll main.body)
  constructor
  · intro m m' v hv
    obtain ⟨status, m₁, hx, -, rfl⟩ := start_eq_ok_iff.1 hv
    exact hframes (hbody.ok hx)
  · intro m m' e he
    obtain ⟨e', hx, -⟩ := start_eq_error_iff.1 he
    have hkept : R m { m' with frames := m'.frames } := hframes (hbody.error hx)
    exact hkept

/-- **The activation of `main` is left where `main` returns, and stays where it does not.** -/
theorem start_frames {fuel : Nat} {main : Routine} {m m' : Machine} :
    (∀ v, start fuel main m = .ok v m' → m'.frames = m.frames) ∧
      ∀ e, start fuel main m = .error e m' → m'.frames = ⟨mainName, 0⟩ :: m.frames := by
  constructor
  · intro v hv
    obtain ⟨status, m₁, -, -, rfl⟩ := start_eq_ok_iff.1 hv
    rfl
  · intro e he
    obtain ⟨e', hx, -⟩ := start_eq_error_iff.1 he
    exact (level_of_perform_eq_error hx).frames

/-- The machine after a run, however it ended. -/
def following (fuel : Nat) (p : Program) (m : Machine) : Machine :=
  match run fuel p m with
  | .ok _ m => m
  | .error _ m => m

/-- The activations that a run leaves which does not return: that of `main`, if the program has
one. -/
def stranded (t : RoutineTable) : List Frame :=
  if (t.lookup? mainName 0).isSome then [⟨mainName, 0⟩] else []

/-- A program that is loaded reads lines from the front, and its routines stay. -/
theorem following_of_loaded {p : Program} {t : RoutineTable}
    (h : RoutineTable.ofProgram p = .ok t) (fuel : Nat) (m : Machine) :
    m.Reads (m.following fuel p) ∧ (m.following fuel p).routines = t := by
  have hperform : ∀ task, Eval.Keeps (fun m m' => m.Reads m' ∧ m'.routines = m.routines)
      (perform fuel task) := fun task =>
    { ok := fun h => ⟨(perform_reads fuel task).ok h, (level_of_perform_eq_ok h).routines⟩
      error := fun h =>
        ⟨(perform_reads fuel task).error h, (level_of_perform_eq_error h).routines⟩ }
  rw [following]
  cases hmain : t.lookup? mainName 0 with
  | none =>
      rw [run_of_noMain h hmain]
      exact ⟨List.suffix_rfl, rfl⟩
  | some main =>
      have hstart := start_keeps hperform (fun h => h) main
      rw [run_eq_start h hmain]
      cases hrun : start fuel main (m.load t) with
      | ok v m' => exact hstart.ok hrun
      | error e m' => exact hstart.error hrun

/-- No activation is left of a run that returns. -/
theorem frames_of_run_eq_ok {p : Program} {t : RoutineTable} (h : RoutineTable.ofProgram p = .ok t)
    {fuel : Nat} {m m' : Machine} {v : Value} (hrun : run fuel p m = .ok v m') :
    m'.frames = [] := by
  cases hmain : t.lookup? mainName 0 with
  | none =>
      rw [run_of_noMain h hmain] at hrun
      cases hrun
  | some main =>
      rw [run_eq_start h hmain] at hrun
      exact start_frames.1 v hrun

/-- That of `main` is left of a run that does not. -/
theorem frames_of_run_eq_error {p : Program} {t : RoutineTable}
    (h : RoutineTable.ofProgram p = .ok t) {fuel : Nat} {m m' : Machine} {e : Halt}
    (hrun : run fuel p m = .error e m') : m'.frames = stranded t := by
  cases hmain : t.lookup? mainName 0 with
  | none =>
      rw [run_of_noMain h hmain] at hrun
      cases hrun
      rw [stranded, hmain]
      rfl
  | some main =>
      rw [run_eq_start h hmain] at hrun
      rw [stranded, hmain]
      exact start_frames.2 e hrun

/-- What runs of one program on `m₁` and on `m₂` leave of them, if `t` has the routines of the
program and `l` are the activations that are not left. -/
structure Leaves (t : RoutineTable) (l : List Frame) (m₁ m₂ m₁' m₂' : Machine) : Prop where
  /-- The same scopes are left, at the same addresses. -/
  environment : m₁'.environment = m₂'.environment
  /-- The same cells are left, but for the numbers of closures. -/
  store : ∃ s : Store, m₁'.store = s.shift m₁.closures ∧ m₂'.store = s.shift m₂.closures
  /-- The routines are those of the program. -/
  routines : m₁'.routines = t ∧ m₂'.routines = t
  /-- The same activations are running. -/
  frames : m₁'.frames = l ∧ m₂'.frames = l
  /-- The same lines were printed. -/
  printed : ∃ lines, m₁'.console.lines = m₁.console.lines ++ lines ∧
    m₂'.console.lines = m₂.console.lines ++ lines
  /-- The same lines were read. -/
  read : ∃ lines, m₁.console.pending = lines ++ m₁'.console.pending ∧
    m₂.console.pending = lines ++ m₂'.console.pending
  /-- The same number of closures was created. -/
  created : ∃ k, m₁'.closures = m₁.closures + k ∧ m₂'.closures = m₂.closures + k
  /-- The same was reported, but for the numbers of closures. -/
  reported : ∃ events : List Event, m₁'.events = events.map (Event.shift m₁.closures) ∧
    m₂'.events = events.map (Event.shift m₂.closures)

/-- How runs of a program on `m₁` and on `m₂` end. -/
inductive Parallel (p : Program) (m₁ m₂ : Machine) :
    EStateM.Result Halt Machine Value → EStateM.Result Halt Machine Value → Prop where
  /-- The program is refused, and both machines are as they were. -/
  | refused {fault : Fault} (h : RoutineTable.ofProgram p = .error fault) :
      Parallel p m₁ m₂ (.error (.failed ⟨fault, []⟩) { m₁ with events := [] })
        (.error (.failed ⟨fault, []⟩) { m₂ with events := [] })
  /-- Both runs have the same value, but for the number of a closure, and no activation is running
  any more. -/
  | returned {t : RoutineTable} (h : RoutineTable.ofProgram p = .ok t) (v : Value)
      {m₁' m₂' : Machine} (hm : Leaves t [] m₁ m₂ m₁' m₂') :
      Parallel p m₁ m₂ (.ok (v.shift m₁.closures) m₁') (.ok (v.shift m₂.closures) m₂')
  /-- Both runs halt, with the same failure if they fail, and `main` is left running if there is
  one. -/
  | halted {t : RoutineTable} (h : RoutineTable.ofProgram p = .ok t) (e : Halt)
      {m₁' m₂' : Machine} (hm : Leaves t (stranded t) m₁ m₂ m₁' m₂') :
      Parallel p m₁ m₂ (.error e m₁') (.error e m₂')

variable {m₁ m₂ : Machine}

/-- A machine after two pasts is what runs leave of two machines with these pasts. -/
theorem leaves_after {t : RoutineTable} {l : List Frame} {m : Machine}
    (h : m₁.console.pending = m₂.console.pending) (hreads : m₁.Reads (m.after m₁.past))
    (hroutines : m.routines = t) (hframes : m.frames = l) :
    Leaves t l m₁ m₂ (m.after m₁.past) (m.after m₂.past) := by
  have hlines : ∀ m' : Machine,
      (m.after m'.past).console.lines = m'.console.lines ++ m.console.lines := by
    intro m'
    show (m'.console.printed ++ m.console.printed).toList = _
    rw [Array.toList_append]
    rfl
  obtain ⟨read, hread⟩ := hreads
  exact
    { environment := rfl
      store := ⟨m.store, rfl, rfl⟩
      routines := ⟨hroutines, hroutines⟩
      frames := ⟨hframes, hframes⟩
      printed := ⟨m.console.lines, hlines m₁, hlines m₂⟩
      read := ⟨read, hread.symm, h.symm.trans hread.symm⟩
      created := ⟨m.closures, rfl, rfl⟩
      reported := ⟨m.events, rfl, rfl⟩ }

end Machine

open Machine in
/-- **A run does not depend on what the machine ran before.** -/
theorem history_independence {m₁ m₂ : Machine} (h : m₁.console.pending = m₂.console.pending)
    (fuel : Nat) (p : Program) :
    Parallel p m₁ m₂ (run fuel p m₁) (run fuel p m₂) := by
  cases hp : RoutineTable.ofProgram p with
  | error fault =>
      rw [run_of_refused hp, run_of_refused hp]
      exact .refused hp
  | ok t =>
      have hrenewed : m₂.renewed = m₁.renewed := by rw [renewed, renewed, h]
      have hleft := following_of_loaded hp fuel m₁
      rw [following, run_eq_ending hp] at hleft
      rw [run_eq_ending hp fuel m₁, run_eq_ending hp fuel m₂, hrenewed]
      cases hrun : run fuel p m₁.renewed with
      | ok v m =>
          rw [hrun] at hleft
          obtain ⟨hreads, hroutines⟩ := hleft
          exact .returned hp v (leaves_after h hreads hroutines (frames_of_run_eq_ok hp hrun))
      | error e m =>
          rw [hrun] at hleft
          obtain ⟨hreads, hroutines⟩ := hleft
          exact .halted hp e (leaves_after h hreads hroutines (frames_of_run_eq_error hp hrun))

/-- A program that reads a line, prints it and ends with a closure:

    func main() {
        print(inputs());
        return lambda() { };
    } -/
def Program.echo : Program :=
  ⟨[.mk "main" []
    [.call (.mk (.name "print") [.call (.mk (.name "inputs") [])]),
      .return (some (.lambda (.mk "lambda" [] [])))]]⟩

/-- On a machine that ran the program before it runs as on a new one, though its closure is the
second one there. -/
theorem history_independence_echo :
    Machine.Parallel .echo (.initial { pending := ["b"] })
      (Machine.following 20 .echo (.initial { pending := ["a", "b"] }))
      (Machine.run 20 .echo (.initial { pending := ["b"] }))
      (Machine.run 20 .echo (Machine.following 20 .echo (.initial { pending := ["a", "b"] }))) ∧
    (Machine.following 20 .echo (.initial { pending := ["a", "b"] })).past.closures = 1 ∧
    (Machine.following 20 .echo (.initial { pending := ["a", "b"] })).console.lines = ["a"] :=
  ⟨history_independence (by decide +kernel) 20 _, by decide +kernel, by decide +kernel⟩

end ProtoScript
