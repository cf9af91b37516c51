import ProtoScript.Proofs.Moment
/-!
# Replays

The moments of a run can be computed: a script that is run again shows for which
tasks it calls, in order (`Moment.openings`).  These are all tasks that it opens,
so a path of numbers leads from the start of `main` to any moment of the run.
-/

namespace ProtoScript

/-- The moments that a script of the moment `a` opens from a machine on, in order. -/
def Script.openings (a : Moment) {α : Type} : Script α → Machine → List Moment
  | .done _, _ => []
  | .act x next, m =>
      match x m with
      | .ok b m' => (next b).openings a m'
      | .error _ _ => []
  | .call t next, m => a.call t m ::
      match perform (a.fuel - 1) t m with
      | .ok r m' => (next r).openings a m'
      | .error _ _ => []
  | .inside p l next, m => a.inside p l m ::
      match p.run (perform (a.fuel - 1) (.executeAll l)) m with
      | .ok r m' => (next r).openings a m'
      | .error _ _ => []

namespace Moment

/-- The moments that a moment opens, in order. -/
def openings (a : Moment) : List Moment :=
  if 0 < a.fuel then a.task.script.openings a a.machine else []

/-- The moment at the end of a path: each number counts the moments that are opened before. -/
def follow : List Nat → Moment → Option Moment
  | [], a => some a
  | i :: path, a => a.openings[i]?.bind (follow path)

variable {a b : Moment}

/-- What a script shows from some machine on is opened, if the script comes so far. -/
theorem opens_of_mem_openings (hn : 0 < a.fuel) :
    ∀ {s : Script a.task.Result} {m : Machine},
      a.task.script.Leads (perform (a.fuel - 1)) a.machine s m → b ∈ s.openings a m → a.Opens b
  | .done _, _, _, h => by cases h
  | .act x next, m, hl, h => by
      simp only [Script.openings] at h
      cases hx : x m with
      | ok c m' =>
          rw [hx] at h
          exact opens_of_mem_openings hn (hl.trans (.act hx .refl)) h
      | error e m' => rw [hx] at h; cases h
  | .call t next, m, hl, h => by
      rw [Script.openings] at h
      obtain rfl | h := List.mem_cons.1 h
      · exact .call hn hl
      · cases hr : perform (a.fuel - 1) t m with
        | ok r m' =>
            rw [hr] at h
            exact opens_of_mem_openings hn (hl.trans (.call hr .refl)) h
        | error e m' => rw [hr] at h; cases h
  | .inside p l next, m, hl, h => by
      rw [Script.openings] at h
      obtain rfl | h := List.mem_cons.1 h
      · exact .inside hn hl
      · cases hr : p.run (perform (a.fuel - 1) (.executeAll l)) m with
        | ok r m' =>
            rw [hr] at h
            exact opens_of_mem_openings hn (hl.trans (.inside hr .refl)) h
        | error e m' => rw [hr] at h; cases h

/-- What is left of a script shows what the script shows. -/
theorem mem_openings_of_leads {α : Type} {s s' : Script α} {m m' : Machine}
    (h : s.Leads (perform (a.fuel - 1)) m s' m') (hb : b ∈ s'.openings a m') :
    b ∈ s.openings a m := by
  induction h with
  | refl => exact hb
  | act hx _ ih =>
      simp only [Script.openings, hx]
      exact ih hb
  | call hr _ ih =>
      simp only [Script.openings, hr]
      exact List.mem_cons_of_mem _ (ih hb)
  | inside hr _ ih =>
      simp only [Script.openings, hr]
      exact List.mem_cons_of_mem _ (ih hb)

/-- **A replay shows exactly the moments that are opened.** -/
theorem mem_openings_iff : b ∈ a.openings ↔ a.Opens b := by
  constructor
  · intro h
    unfold openings at h
    split at h
    · next hn => exact opens_of_mem_openings hn .refl h
    · cases h
  · intro h
    cases h with
    | call hn h =>
        rw [openings, if_pos hn]
        refine mem_openings_of_leads h ?_
        rw [Script.openings]
        exact List.mem_cons_self
    | inside hn h =>
        rw [openings, if_pos hn]
        refine mem_openings_of_leads h ?_
        rw [Script.openings]
        exact List.mem_cons_self

theorem within_of_follow : ∀ {path : List Nat} {a : Moment}, a.follow path = some b → a.Within b
  | [], _, h => by cases h; exact .refl
  | i :: path, a, h => by
      obtain ⟨c, hc, h⟩ := Option.bind_eq_some_iff.1 h
      exact .head (mem_openings_iff.1 (List.mem_of_getElem? hc)) (within_of_follow h)

/-- The kind of failure with which the task of a moment ends. -/
def failure? (a : Moment) : Option FailureKind :=
  match perform a.fuel a.task a.machine with
  | .error (.failed f) _ => some f.fault.kind
  | _ => none

/-- The machine on which the task of a moment ends with a result. -/
def final? (a : Moment) : Option Machine :=
  match perform a.fuel a.task a.machine with
  | .ok _ m => some m
  | .error _ _ => none

theorem ok_of_final? {m : Machine} (h : a.final? = some m) :
    ∃ r, perform a.fuel a.task a.machine = .ok r m := by
  unfold final? at h
  split at h
  · next r m₁ hr =>
      cases h
      exact ⟨r, hr⟩
  · cases h

end Moment

/-- What a task invokes, and the arguments. -/
def Task.invoked? : Task → Option (Callable × List Expr)
  | .invoke _ callable args _ => some (callable, args)
  | _ => none

theorem Task.eq_of_invoked? {t : Task} {callable : Callable} {args : List Expr}
    (h : t.invoked? = some (callable, args)) :
    ∃ label receiver, t = .invoke label callable args receiver := by
  cases t <;> cases h
  exact ⟨_, _, rfl⟩

namespace Machine

/-- The moment of the run of a program at the end of a path. -/
def replay (fuel : Nat) (p : Program) (m : Machine) (path : List Nat) : Option Moment :=
  match RoutineTable.ofProgram p with
  | .error _ => none
  | .ok routines =>
      match routines.lookup? mainName 0 with
      | none => none
      | some r => (Machine.main fuel r (m.load routines)).follow path

/-- **What a replay shows is reached.** -/
theorem reaches_of_replay {fuel : Nat} {p : Program} {m : Machine} {path : List Nat} {a : Moment}
    (h : replay fuel p m path = some a) : Reaches fuel p m a := by
  unfold replay at h
  split at h
  · cases h
  · next routines hr =>
      split at h
      · cases h
      · next r hl => exact (Reaches.main hr hl).within (Moment.within_of_follow h)

end Machine

namespace Program

/-- A program in which a routine calls again the closure that called it:

    func bump(ref p, o) { o.c(false); p = p + 10; print(p); }
    func main() {
        o = @;
        x = 1;
        o.c = lambda(first) {
            if (first) { bump(x, o); print(x); } else { x = 100; }
        };
        o.c(true);
    } -/
def reentry : Program where
  routines :=
    [.mk "bump" [⟨"p", true⟩, ⟨"o", false⟩]
      [.call (.mk (.method (.variable "o") "c") [.truth false]),
        .assign (.variable "p") (.binary .add (.variable "p") (.int 10)),
        .call (.mk (.name "print") [.variable "p"])],
    .mk "main" []
      [.assign (.variable "o") .newObject,
        .assign (.variable "x") (.int 1),
        .assign (.field (.variable "o") "c") (.lambda (.mk "lambda" [⟨"first", false⟩]
          [.branch (.variable "first")
            [.call (.mk (.name "bump") [.variable "x", .variable "o"]),
              .call (.mk (.name "print") [.variable "x"])]
            (some [.assign (.variable "x") (.int 100)])])),
        .call (.mk (.method (.variable "o") "c") [.truth true])]]

end Program
end ProtoScript
