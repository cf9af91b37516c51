import ProtoScript.Proofs.CallStack
import ProtoScript.Proofs.StackDiscipline
/-!
# The course of an activation

A replay shows in which order a run opens its moments (`Moment.timeline`): a
moment, then all that is done for it, then the next one.  What other activations
do for an activation is part of it.  The course of an activation is what is left
without that: the moments for which no more activations wait
(`Moment.course`), which are those that follow its start (`mem_course_iff`).

The trail of an activation tells what it does in the language of the tree
(`Moment.trail`): which statements it executes and how they end, and which
conditions it evaluates and whether they hold.
-/

namespace ProtoScript

/-- A task that executes statements, not one that evaluates something. -/
def Task.Executes : Task → Prop
  | .execute _ | .executeAll _ | .block _ | .iterate .. => True
  | _ => False

/-- The status with which statements end, or none if they halt. -/
def Status.ofResult? : EStateM.Result Halt Machine Status → Option Status
  | .ok status _ => some status
  | .error _ _ => none

theorem Status.ofResult?_eq_some_iff {r : EStateM.Result Halt Machine Status} {status : Status} :
    ofResult? r = some status ↔ ∃ m, r = .ok status m := by
  cases r with
  | ok s m => simp [ofResult?]
  | error e m => simp [ofResult?]

/-- The status with which a task ends, if it executes statements and does not halt. -/
def Task.status? : (t : Task) → EStateM.Result Halt Machine t.Result → Option Status
  | .execute _, r => Status.ofResult? r
  | .executeAll _, r => Status.ofResult? r
  | .block _, r => Status.ofResult? r
  | .iterate .., r => Status.ofResult? r
  | _, _ => none

theorem Task.status?_error (t : Task) (e : Halt) (m : Machine) : t.status? (.error e m) = none := by
  cases t <;> rfl

/-- What an activation does on the way through its body. -/
inductive Mark where
  /-- It executes a statement, which ends with a status, unless it halts. -/
  | statement (s : Stmt) (status : Option Status)
  /-- It evaluates the condition of a branch or of a loop, which holds or not, unless it halts. -/
  | condition (e : Expr) (holds : Option Bool)

namespace Script

/-- **What evaluates something executes no statements but in an activation that it enters.** -/
theorem every_evaluating {t : Task} (ht : ¬t.Executes) :
    t.script.Every (fun _ => True) (fun t => ¬t.Executes) fun p _ => p ≠ .block := by
  cases t with
  | evaluate e => cases e <;> simp [Task.script, evaluate, ask, andThen, Every, Task.Executes]
  | evaluateAll l => cases l <;> simp [Task.script, evaluateAll, ask, andThen, Every, Task.Executes]
  | call c =>
      obtain ⟨callee, args⟩ := c
      cases callee with
      | name name =>
          simp only [Task.script, evaluateCall]
          cases Builtin.ofName? name <;> simp [ask, andThen, Every, Task.Executes]
      | method object name => simp [Task.script, evaluateCall, ask, andThen, Every, Task.Executes]
  | builtin b args =>
      have hprompt : (prompt b args).Every (fun _ => True) (fun t => ¬t.Executes)
          fun p _ => p ≠ .block := by
        rw [prompt_eq]
        split
        · simp [Every]
        · simp only [Every, Task.Executes, not_false_eq_true, true_and]
          intro prompts _ line
          split <;> simp [Every]
      cases b with
      | print => simp [Task.script, evaluateBuiltin, ask, andThen, Every, Task.Executes]
      | _ => exact hprompt
  | invoke label callable args receiver =>
      simp only [Task.script]
      rw [invoke_eq]
      split <;> simp [Every, Task.Executes]
  | bind e l =>
      cases l with
      | nil => trivial
      | cons p l =>
          have hargument : (bindArgument e p.1 p.2).Every (fun _ => True) (fun t => ¬t.Executes)
              fun p _ => p ≠ .block := by
            obtain ⟨p, arg⟩ := p
            cases arg with
            | «variable» name =>
                rw [bindArgument_variable]
                split <;> simp [Every, Task.Executes]
            | _ => simp [bindArgument, ask, andThen, Every, Task.Executes]
          exact hargument.andThen fun _ => ⟨not_false, fun _ => trivial⟩
  | execute s => exact absurd trivial ht
  | executeAll l => exact absurd trivial ht
  | block l => exact absurd trivial ht
  | iterate condition body => exact absurd trivial ht

end Script

namespace Moment

variable {a b c : Moment}

/-! ### The order of time -/

/-- The number of the activations that wait for that of a moment. -/
def waiting (a : Moment) : Nat := a.context.callers.length

theorem waiting_activation (label : String) (callable : Callable) (e : Environment)
    (l : List Stmt) (m : Machine) :
    (a.inside (.activation label callable e) l m).waiting = a.waiting + 1 := rfl

theorem Opens.fuel (h : a.Opens b) : 0 < a.fuel ∧ b.fuel = a.fuel - 1 := by
  cases h with
  | call ha _ => exact ⟨ha, rfl⟩
  | inside ha _ => exact ⟨ha, rfl⟩

theorem Opens.waiting_le (h : a.Opens b) : a.waiting ≤ b.waiting := by
  cases h with
  | call _ _ => exact Nat.le_refl _
  | @inside p l m next _ _ =>
      cases p with
      | block => exact Nat.le_refl _
      | activation label callable e => exact Nat.le_succ _

theorem Within.waiting_le (h : a.Within b) : a.waiting ≤ b.waiting := by
  induction h with
  | refl => exact Nat.le_refl _
  | tail _ ho ih => exact Nat.le_trans ih ho.waiting_le

/-- **The moments that follow the start of an activation are those within it for which no more
activations wait.** -/
theorem exists_follows_iff : (∃ d, a.Follows d b) ↔ a.Within b ∧ b.waiting = a.waiting := by
  constructor
  · rintro ⟨d, h⟩
    induction h with
    | start => exact ⟨.refl, rfl⟩
    | call _ ho ih => exact ⟨.tail ih.1 ho, ih.2⟩
    | block _ ho ih => exact ⟨.tail ih.1 ho, ih.2⟩
  · rintro ⟨h, hw⟩
    induction h with
    | refl => exact ⟨0, .start⟩
    | @tail b c hb ho ih =>
        have hle := Within.waiting_le hb
        have hle' := ho.waiting_le
        obtain ⟨d, hd⟩ := ih (by omega)
        cases ho with
        | call hn hl => exact ⟨d, .call hd (.call hn hl)⟩
        | @inside p l m next hn hl =>
            cases p with
            | block => exact ⟨d + 1, .block hd (.inside hn hl)⟩
            | activation label callable e =>
                rw [waiting_activation] at hw
                omega

/-- What is opened for a moment, through at most so many openings: each moment behind the one that
opens it, in the order of time. -/
def timelineTo : Nat → Moment → List (Moment × Moment)
  | 0, _ => []
  | n + 1, a => a.openings.flatMap fun b => (a, b) :: timelineTo n b

/-- All that is opened for a moment, in the order of time. -/
def timeline (a : Moment) : List (Moment × Moment) := timelineTo a.fuel a

theorem timeline_eq (a : Moment) :
    a.timeline = a.openings.flatMap fun b => (a, b) :: b.timeline := by
  obtain ⟨n, t, m, γ⟩ := a
  cases n with
  | zero => rfl
  | succ n =>
      refine List.flatMap_congr fun b hb => ?_
      have hfuel : b.fuel = n := (mem_openings_iff.1 hb).fuel.2
      rw [timeline, hfuel]

/-- **The timeline of a moment has every opening within it.** -/
theorem mem_timeline_iff : (b, c) ∈ a.timeline ↔ a.Within b ∧ b.Opens c := by
  constructor
  · suffices h : ∀ (n : Nat) (a : Moment), a.fuel = n → (b, c) ∈ a.timeline →
        a.Within b ∧ b.Opens c from h _ a rfl
    intro n
    induction n with
    | zero =>
        rintro ⟨_, t, m, γ⟩ rfl h
        cases h
    | succ n ih =>
        intro a ha h
        rw [timeline_eq, List.mem_flatMap] at h
        obtain ⟨d, hd, h⟩ := h
        have ho := mem_openings_iff.1 hd
        obtain ⟨⟩ | ⟨_, h⟩ := h
        · exact ⟨.refl, ho⟩
        · have hfuel := ho.fuel
          obtain ⟨hb, hc⟩ := ih d (by omega) h
          exact ⟨.head ho hb, hc⟩
  · rintro ⟨h, ho⟩
    induction h using Relation.ReflTransGen.head_induction_on with
    | refl =>
        rw [timeline_eq, List.mem_flatMap]
        exact ⟨c, mem_openings_iff.2 ho, List.mem_cons_self⟩
    | @head a d hd _ ih =>
        rw [timeline_eq, List.mem_flatMap]
        exact ⟨d, mem_openings_iff.2 hd, List.mem_cons_of_mem _ ih⟩

/-! ### What belongs to the activation -/

/-- What is opened for a moment by its own activation, in the order of time. -/
def course (a : Moment) : List (Moment × Moment) :=
  a.timeline.filter fun o => o.2.waiting = a.waiting

/-- Nothing within an activation that has been entered belongs to the one that waits for it. -/
theorem filter_timeline_of_lt {n : Nat} (h : n < a.waiting) :
    a.timeline.filter (fun o => o.2.waiting = n) = [] := by
  rw [List.filter_eq_nil_iff]
  rintro ⟨b, c⟩ hc
  obtain ⟨hb, ho⟩ := mem_timeline_iff.1 hc
  have hle := Within.waiting_le (hb.tail ho)
  have hne : c.waiting ≠ n := by omega
  exact fun hc => hne (of_decide_eq_true hc)

theorem course_eq (a : Moment) : a.course = a.openings.flatMap fun b =>
    if b.waiting = a.waiting then (a, b) :: b.course else [] := by
  rw [course, timeline_eq, List.filter_flatMap]
  refine List.flatMap_congr fun b hb => ?_
  have hle := (mem_openings_iff.1 hb).waiting_le
  split
  · next h => rw [List.filter_cons_of_pos (by simpa using h), course, h]
  · next h =>
      rw [List.filter_cons_of_neg (by simpa using h)]
      exact filter_timeline_of_lt (by omega)

/-- **The course of an activation has exactly the openings of moments that follow its start.** -/
theorem mem_course_iff :
    (b, c) ∈ a.course ↔ (∃ d, a.Follows d b) ∧ b.Opens c ∧ c.waiting = a.waiting := by
  rw [course, List.mem_filter, mem_timeline_iff, exists_follows_iff, decide_eq_true_iff]
  constructor
  · rintro ⟨⟨hb, ho⟩, hw⟩
    have hle := Within.waiting_le hb
    have hle' := ho.waiting_le
    have heq : b.waiting = a.waiting := Nat.le_antisymm (hle'.trans hw.le) hle
    exact ⟨⟨hb, heq⟩, ho, hw⟩
  · rintro ⟨⟨hb, -⟩, ho, hw⟩
    exact ⟨⟨hb, ho⟩, hw⟩

/-- The status with which the task of a moment ends, if it executes statements and does not halt. -/
def status? (a : Moment) : Option Status := a.task.status? (perform a.fuel a.task a.machine)

/-- Whether the value of an expression holds as a condition, if there is one. -/
def holds? (statement : Conditional) (n : Nat) (e : Expr) (m : Machine) : Option Bool :=
  match perform n (.evaluate e) m with
  | .ok v _ => (Operation.condition statement v).toOption
  | .error _ _ => none

/-- What the opening of a moment tells about the way through a body: the start of a statement, and
the evaluation of a condition for a branch or a loop. -/
def mark? (a b : Moment) : Option Mark :=
  match a.task, b.task with
  | _, .execute s => some (.statement s b.status?)
  | .execute (.branch ..), .evaluate e => some (.condition e (holds? .branch b.fuel e b.machine))
  | .iterate .., .evaluate e => some (.condition e (holds? .loop b.fuel e b.machine))
  | _, _ => none

/-- What the activation of a moment does on the way through its body, from the moment on until its
task ends, in the order of time. -/
def trail (a : Moment) : List Mark := a.course.filterMap fun o => mark? o.1 o.2

/-- What the opening of `b` contributes to the trail of `a`: nothing if it enters an activation. -/
def share (a b : Moment) : List Mark :=
  if b.waiting = a.waiting then (mark? a b).toList ++ b.trail else []

theorem share_call (a : Moment) (t : Task) (m : Machine) :
    share a (a.call t m) = (mark? a (a.call t m)).toList ++ (a.call t m).trail :=
  if_pos rfl

theorem share_block (a : Moment) (l : List Stmt) (m : Machine) :
    share a (a.inside .block l m) =
      (mark? a (a.inside .block l m)).toList ++ (a.inside .block l m).trail :=
  if_pos rfl

theorem trail_eq (a : Moment) : a.trail = a.openings.flatMap (share a) := by
  rw [trail, course_eq, List.filterMap_flatMap]
  refine List.flatMap_congr fun b _ => ?_
  unfold share
  split
  · rw [List.filterMap_cons]
    cases mark? a b <;> rfl
  · rfl

theorem mark?_of_not_executes (ha : ¬a.task.Executes) (hb : ¬b.task.Executes) :
    mark? a b = none := by
  unfold mark?
  split
  · next ht => exact absurd (ht ▸ trivial) hb
  · next ht _ => exact absurd (ht ▸ trivial) ha
  · next ht _ => exact absurd (ht ▸ trivial) ha
  · rfl

/-- What evaluates something opens no statements in its own activation. -/
theorem Opens.not_executes (h : a.Opens b) (hw : b.waiting = a.waiting) (ha : ¬a.task.Executes) :
    ¬b.task.Executes := by
  cases h with
  | call hn hl => exact (hl.every (Script.every_evaluating ha)).1
  | @inside p l m next hn hl =>
      have hp : p ≠ .block := (hl.every (Script.every_evaluating ha)).1
      cases p with
      | block => exact absurd rfl hp
      | activation label callable e =>
          rw [waiting_activation] at hw
          omega

/-- **The trail of a task that evaluates something has no statement and no condition.** -/
theorem trail_of_not_executes (h : ¬a.task.Executes) : a.trail = [] := by
  suffices hn : ∀ (n : Nat) (a : Moment), a.fuel = n → ¬a.task.Executes → a.trail = [] from
    hn _ a rfl h
  intro n
  induction n with
  | zero =>
      rintro ⟨_, t, m, γ⟩ rfl -
      rfl
  | succ n ih =>
      intro a ha ht
      rw [trail_eq, List.flatMap_eq_nil_iff]
      intro b hb
      have ho := mem_openings_iff.1 hb
      have hfuel := ho.fuel.2
      unfold share
      split
      · next hw =>
          have htb := ho.not_executes hw ht
          rw [mark?_of_not_executes ht htb, ih b (by omega) htb]
          rfl
      · rfl

/-- A statement is told where it is executed, with the status with which it ends. -/
theorem mark?_eq_statement {s : Stmt} {x : Option Status} (h : mark? a b = some (.statement s x)) :
    b.task = .execute s ∧ b.status? = x := by
  unfold mark? at h
  split at h
  · next ht =>
      cases h
      exact ⟨ht, rfl⟩
  · cases h
  · cases h
  · cases h

/-- **The trail of an activation has the marks of all openings of its own.** -/
theorem mem_trail_iff {k : Mark} : k ∈ a.trail ↔ ∃ b c, (∃ d, a.Follows d b) ∧ b.Opens c ∧
    c.waiting = a.waiting ∧ mark? b c = some k := by
  rw [trail, List.mem_filterMap]
  constructor
  · rintro ⟨⟨b, c⟩, ho, hk⟩
    obtain ⟨hb, ho, hw⟩ := mem_course_iff.1 ho
    exact ⟨b, c, hb, ho, hw, hk⟩
  · rintro ⟨b, c, hb, ho, hw, hk⟩
    exact ⟨(b, c), mem_course_iff.2 ⟨hb, ho, hw⟩, hk⟩

/-- What an opening contributes to a trail is a part of it. -/
theorem share_infix_trail (h : a.Opens b) : a.share b <:+: a.trail := by
  rw [trail_eq, List.flatMap_def]
  exact List.infix_of_mem_flatten (List.mem_map_of_mem (mem_openings_iff.2 h))

end Moment
end ProtoScript
