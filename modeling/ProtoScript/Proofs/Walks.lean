import ProtoScript.Proofs.Trail
/-!
# Ways through a body

Where a body leads from a statement is a matter of the tree: an assignment leads to
the next statement, a condition to one block or another, and a return leads nowhere
(`Task.Walks`).  What an activation does is such a way (`Moment.walks`).  This is read
off the scripts, each of which tells the trail of what it opens and the status with
which it ends (`Script.Tells`), by induction on the bound.

On every way there is one return at most and nothing behind it, and there is one if
the way ends with a value (`Task.Walks.oneReturn`).
-/

namespace ProtoScript

/-! ### Ways through a body -/

/-- The ways through a task that executes statements: what is done on the way, and the status in the
end, or none where the run halts on the way. -/
inductive Task.Walks : Task → List Mark → Option Status → Prop where
  /-- The run may halt before anything is told. -/
  | halt {t : Task} : Walks t [] none
  /-- After an assignment the next statement is due. -/
  | assign {target : Target} {e : Expr} : Walks (.execute (.assign target e)) [] (some .proceed)
  /-- So it is after a call, whatever the routine returned. -/
  | call {c : Call} : Walks (.execute (.call c)) [] (some .proceed)
  /-- A return ends with a value. -/
  | return {o : Option Expr} {v : Value} : Walks (.execute (.return o)) [] (some (.returned v))
  /-- The condition of a branch halts. -/
  | undecided {e : Expr} {yes : List Stmt} {no : Option (List Stmt)} :
      Walks (.execute (.branch e yes no)) [.condition e none] none
  /-- The condition holds. -/
  | yes {e : Expr} {yes : List Stmt} {no : Option (List Stmt)} {l : List Mark}
      {x : Option Status} (h : Walks (.block yes) l x) :
      Walks (.execute (.branch e yes no)) (.condition e (some true) :: l) x
  /-- The condition does not hold, and there is another block. -/
  | no {e : Expr} {yes no : List Stmt} {l : List Mark} {x : Option Status}
      (h : Walks (.block no) l x) :
      Walks (.execute (.branch e yes (some no))) (.condition e (some false) :: l) x
  /-- The condition does not hold, and there is no other block. -/
  | skip {e : Expr} {yes : List Stmt} :
      Walks (.execute (.branch e yes none)) [.condition e (some false)] (some .proceed)
  /-- A loop goes through its rounds. -/
  | loop {e : Expr} {body : List Stmt} {l : List Mark} {x : Option Status}
      (h : Walks (.iterate e body) l x) : Walks (.execute (.loop e body)) l x
  /-- There are no statements left. -/
  | nil : Walks (.executeAll []) [] (some .proceed)
  /-- The first statement proceeds to the others. -/
  | next {s : Stmt} {rest : List Stmt} {l l' : List Mark} {x : Option Status}
      (h : Walks (.execute s) l (some .proceed)) (h' : Walks (.executeAll rest) l' x) :
      Walks (.executeAll (s :: rest)) (.statement s (some .proceed) :: (l ++ l')) x
  /-- The first statement does not proceed, so the others are not executed. -/
  | last {s : Stmt} {rest : List Stmt} {l : List Mark} {x : Option Status}
      (h : Walks (.execute s) l x) (hx : x ≠ some .proceed) :
      Walks (.executeAll (s :: rest)) (.statement s x :: l) x
  /-- A block is gone through as its statements. -/
  | block {body : List Stmt} {l : List Mark} {x : Option Status}
      (h : Walks (.executeAll body) l x) : Walks (.block body) l x
  /-- The condition of a loop halts. -/
  | stuck {e : Expr} {body : List Stmt} : Walks (.iterate e body) [.condition e none] none
  /-- The condition does not hold any more. -/
  | ended {e : Expr} {body : List Stmt} :
      Walks (.iterate e body) [.condition e (some false)] (some .proceed)
  /-- A round proceeds to the next one. -/
  | round {e : Expr} {body : List Stmt} {l l' : List Mark} {x : Option Status}
      (h : Walks (.block body) l (some .proceed)) (h' : Walks (.iterate e body) l' x) :
      Walks (.iterate e body) (.condition e (some true) :: (l ++ l')) x
  /-- A round does not proceed, so the condition is not evaluated again. -/
  | left {e : Expr} {body : List Stmt} {l : List Mark} {x : Option Status}
      (h : Walks (.block body) l x) (hx : x ≠ some .proceed) :
      Walks (.iterate e body) (.condition e (some true) :: l) x

namespace Script

/-- What a script of the moment `a` contributes to the trail from a machine on, and the status with
which it ends, or none if it halts. -/
inductive Tells (a : Moment) : Script Status → Machine → List Mark → Option Status → Prop where
  /-- Nothing is left to do. -/
  | done {r : Status} {m : Machine} : Tells a (.done r) m [] (some r)
  /-- A step succeeds. -/
  | act {β : Type} {x : Eval β} {next : β → Script Status} {b : β} {m m' : Machine}
      {l : List Mark} {y : Option Status} (hx : x m = .ok b m') (h : Tells a (next b) m' l y) :
      Tells a (.act x next) m l y
  /-- A step halts. -/
  | actHalt {β : Type} {x : Eval β} {next : β → Script Status} {e : Halt} {m m' : Machine}
      (hx : x m = .error e m') : Tells a (.act x next) m [] none
  /-- A call is answered. -/
  | call {t : Task} {next : t.Result → Script Status} {r : t.Result} {m m' : Machine}
      {l : List Mark} {y : Option Status} (hr : perform (a.fuel - 1) t m = .ok r m')
      (h : Tells a (next r) m' l y) : Tells a (.call t next) m (a.share (a.call t m) ++ l) y
  /-- A call halts. -/
  | callHalt {t : Task} {next : t.Result → Script Status} {e : Halt} {m m' : Machine}
      (hr : perform (a.fuel - 1) t m = .error e m') :
      Tells a (.call t next) m (a.share (a.call t m)) none
  /-- Statements have been executed elsewhere. -/
  | inside {p : Surroundings} {s : List Stmt} {next : Status → Script Status} {r : Status}
      {m m' : Machine} {l : List Mark} {y : Option Status}
      (hr : p.run (perform (a.fuel - 1) (.executeAll s)) m = .ok r m')
      (h : Tells a (next r) m' l y) :
      Tells a (.inside p s next) m (a.share (a.inside p s m) ++ l) y
  /-- Statements halt elsewhere. -/
  | insideHalt {p : Surroundings} {s : List Stmt} {next : Status → Script Status} {e : Halt}
      {m m' : Machine} (hr : p.run (perform (a.fuel - 1) (.executeAll s)) m = .error e m') :
      Tells a (.inside p s next) m (a.share (a.inside p s m)) none

/-- The status with which a script ends, or none if it halts. -/
def ending (a : Moment) (s : Script Status) (m : Machine) : Option Status :=
  Status.ofResult? (s.run (perform (a.fuel - 1)) m)

/-- **A script tells the trail of its openings and its status.** -/
theorem tells (a : Moment) : ∀ (s : Script Status) (m : Machine),
    Tells a s m ((s.openings a m).flatMap a.share) (s.ending a m)
  | .done r, m => .done
  | .act x next, m => by
      cases hx : x m with
      | ok b m' =>
          simp only [openings, ending, run, hx]
          exact .act hx (tells a (next b) m')
      | error e m' =>
          simp only [openings, ending, run, hx]
          exact .actHalt hx
  | .call t next, m => by
      cases hr : perform (a.fuel - 1) t m with
      | ok r m' =>
          simp only [openings, ending, run, hr, List.flatMap_cons]
          exact .call hr (tells a (next r) m')
      | error e m' =>
          simp only [openings, ending, run, hr, List.flatMap_cons, List.flatMap_nil,
            List.append_nil]
          exact .callHalt hr
  | .inside p l next, m => by
      cases hr : p.run (perform (a.fuel - 1) (.executeAll l)) m with
      | ok r m' =>
          simp only [openings, ending, run, hr, List.flatMap_cons]
          exact .inside hr (tells a (next r) m')
      | error e m' =>
          simp only [openings, ending, run, hr, List.flatMap_cons, List.flatMap_nil,
            List.append_nil]
          exact .insideHalt hr

/-- The script asks for values only, none of them that of a condition, and ends with one of certain
statuses. -/
def AsksForValues (a : Moment) (R : Status → Prop) : Script Status → Prop
  | .done r => R r
  | .act _ next => ∀ b, (next b).AsksForValues a R
  | .call t next =>
      ¬t.Executes ∧ (∀ m, a.mark? (a.call t m) = none) ∧ ∀ r, (next r).AsksForValues a R
  | .inside .. => False

variable {a : Moment} {m : Machine} {l : List Mark} {x : Option Status}

/-- The script of a task that executes statements tells the trail and the status of the task. -/
theorem tells_trail {s : Script Status} (hopenings : a.openings = s.openings a a.machine)
    (hstatus : a.status? = s.ending a a.machine) : Tells a s a.machine a.trail a.status? := by
  rw [Moment.trail_eq, hopenings, hstatus]
  exact tells a s a.machine

theorem status?_of_error {t : Task} {e : Halt} {m' : Machine}
    (hr : perform (a.fuel - 1) t m = .error e m') : (a.call t m).status? = none :=
  (congrArg t.status? hr).trans (t.status?_error e m')

namespace Tells

/-- A script that only calls for statements tells what these tell. -/
theorem of_ask {t : Task} {next : t.Result → Script Status} (h : Tells a (.call t next) m l x)
    (hnext : ∀ r m, ∃ status, next r = .done status ∧ t.status? (.ok r m) = some status) :
    l = a.share (a.call t m) ∧ x = (a.call t m).status? := by
  cases h with
  | @call _ _ r _ m' _ _ hr h =>
      obtain ⟨status, hnext, hstatus⟩ := hnext r m'
      rw [hnext] at h
      cases h
      rw [List.append_nil, ← hstatus, ← hr]
      exact ⟨rfl, rfl⟩
  | callHalt hr =>
      rw [status?_of_error hr]
      exact ⟨rfl, rfl⟩

/-- A step tells nothing, and the script halts or goes on. -/
theorem of_act {β : Type} {y : Eval β} {next : β → Script Status}
    (h : Tells a (.act y next) m l x) :
    l = [] ∧ x = none ∨ ∃ b m', y m = .ok b m' ∧ Tells a (next b) m' l x := by
  cases h with
  | act hy h => exact .inr ⟨_, _, hy, h⟩
  | actHalt _ => exact .inl ⟨rfl, rfl⟩

/-- **A script that only asks for values tells nothing.** -/
theorem of_asksForValues {s : Script Status} {R : Status → Prop} (h : Tells a s m l x)
    (hs : s.AsksForValues a R) : l = [] ∧ ∀ r, x = some r → R r := by
  have hshare : ∀ {t : Task} {next : t.Result → Script Status} {m : Machine},
      (Script.call t next).AsksForValues a R → a.share (a.call t m) = [] := by
    rintro t next m ⟨ht, hmark, -⟩
    have htrail : (a.call t m).trail = [] := Moment.trail_of_not_executes ht
    rw [Moment.share_call, hmark, htrail]
    rfl
  induction h with
  | done =>
      refine ⟨rfl, fun r hr => ?_⟩
      cases hr
      exact hs
  | act _ _ ih => exact ih (hs _)
  | actHalt _ => exact ⟨rfl, fun r hr => by cases hr⟩
  | call _ _ ih =>
      rw [hshare hs]
      exact ih (hs.2.2 _)
  | callHalt _ => exact ⟨hshare hs, fun r hr => by cases hr⟩
  | inside _ _ _ => exact hs.elim
  | insideHalt _ => exact hs.elim

/-- **A condition is told, and the script halts or goes on as it decides.** -/
theorem of_condition {k : Conditional} {e : Expr} {next : Bool → Script Status}
    (h : Tells a (.call (.evaluate e) fun v => .act (Eval.lift (Operation.condition k v)) next)
      m l x)
    (hmark : a.mark? (a.call (.evaluate e) m)
      = some (.condition e (Moment.holds? k (a.fuel - 1) e m))) :
    l = [.condition e none] ∧ x = none ∨
      ∃ b m' l', l = .condition e (some b) :: l' ∧ Tells a (next b) m' l' x := by
  have htrail : (a.call (.evaluate e) m).trail = [] := Moment.trail_of_not_executes not_false
  have hshare : a.share (a.call (.evaluate e) m)
      = [.condition e (Moment.holds? k (a.fuel - 1) e m)] := by
    rw [Moment.share_call, hmark, htrail]
    rfl
  cases h with
  | @call _ _ v _ m' l' _ hr h =>
      have hholds : Moment.holds? k (a.fuel - 1) e m = (Operation.condition k v).toOption := by
        simp only [Moment.holds?, hr]
      rw [hshare, hholds]
      cases h with
      | @act _ _ _ b _ m₂ _ _ hx h =>
          have hc : Operation.condition k v = .ok b := by
            cases hc : Operation.condition k v <;> rw [hc] at hx <;> cases hx
            rfl
          rw [hc]
          exact .inr ⟨b, m₂, l', rfl, h⟩
      | actHalt hx =>
          cases hc : Operation.condition k v with
          | ok b =>
              rw [hc] at hx
              cases hx
          | error f => exact .inl ⟨rfl, rfl⟩
  | callHalt hr =>
      have hholds : Moment.holds? k (a.fuel - 1) e m = none := by
        simp only [Moment.holds?, hr]
      rw [hshare, hholds]
      exact .inl ⟨rfl, rfl⟩

end Tells
end Script

/-! ### What is done is a way through the body -/

namespace Task.Walks

open Script

variable {a : Moment} {m : Machine} {l : List Mark} {x : Option Status}

theorem returned_ne_proceed (v : Value) : some (Status.returned v) ≠ some .proceed := by simp

theorem share_of_call {t : Task} (h : a.mark? (a.call t m) = none) :
    a.share (a.call t m) = (a.call t m).trail := by
  rw [Moment.share_call, h]
  rfl

theorem share_of_execute {s : Stmt} :
    a.share (a.call (.execute s) m)
      = .statement s (a.call (.execute s) m).status? :: (a.call (.execute s) m).trail := by
  have hmark : a.mark? (a.call (.execute s) m)
      = some (.statement s (a.call (.execute s) m).status?) := by
    unfold Moment.mark?
    rfl
  rw [Moment.share_call, hmark]
  rfl

section

variable (hcall : ∀ (t : Task) (m : Machine), t.Executes →
  t.Walks (a.call t m).trail (a.call t m).status?)
include hcall

theorem of_execute {s : Stmt} (ha : a.task = .execute s) (h : Tells a (Script.execute s) m l x) :
    Walks (.execute s) l x := by
  cases s with
  | assign target e =>
      have hmark : ∀ e m, a.mark? (a.call (.evaluate e) m) = none := fun e m => by
        simp only [Moment.mark?, ha, Moment.call]
      have hs : (Script.execute (.assign target e)).AsksForValues a (· = .proceed) := by
        cases target with
        | «variable» name => exact fun _ _ => ⟨not_false, hmark _, fun _ _ => rfl⟩
        | field object name =>
            exact fun _ _ => ⟨not_false, hmark _, fun _ => ⟨not_false, hmark _, fun _ _ => rfl⟩⟩
      obtain ⟨rfl, hx⟩ := h.of_asksForValues hs
      cases x with
      | none => exact .halt
      | some r =>
          obtain rfl := hx r rfl
          exact .assign
  | call c =>
      have hmark : ∀ m, a.mark? (a.call (.call c) m) = none := fun m => by
        simp only [Moment.mark?, ha, Moment.call]
      have hs : (Script.execute (.call c)).AsksForValues a (· = .proceed) :=
        fun _ => ⟨not_false, hmark, fun _ => rfl⟩
      obtain ⟨rfl, hx⟩ := h.of_asksForValues hs
      cases x with
      | none => exact .halt
      | some r =>
          obtain rfl := hx r rfl
          exact .call
  | «return» o =>
      have hmark : ∀ e m, a.mark? (a.call (.evaluate e) m) = none := fun e m => by
        simp only [Moment.mark?, ha, Moment.call]
      have hs : (Script.execute (.return o)).AsksForValues a (∃ v, · = .returned v) := by
        cases o with
        | none => exact fun _ => ⟨_, rfl⟩
        | some e => exact fun _ => ⟨not_false, hmark e, fun _ _ => ⟨_, rfl⟩⟩
      obtain ⟨rfl, hx⟩ := h.of_asksForValues hs
      cases x with
      | none => exact .halt
      | some r =>
          obtain ⟨v, rfl⟩ := hx r rfl
          exact .return
  | branch e yes no =>
      have hmark : ∀ m, a.mark? (a.call (.evaluate e) m)
          = some (.condition e (Moment.holds? .branch (a.fuel - 1) e m)) := fun m => by
        simp only [Moment.mark?, ha, Moment.call]
      have hblock : ∀ body m, a.mark? (a.call (.block body) m) = none := fun body m => by
        simp only [Moment.mark?, ha, Moment.call]
      obtain ⟨rfl, rfl⟩ | ⟨_, m₁, -, h₁⟩ := h.of_act
      · exact .halt
      obtain ⟨rfl, rfl⟩ | ⟨b, m₂, l', rfl, h₂⟩ := h₁.of_condition (hmark m₁)
      · exact .undecided
      cases b with
      | true =>
          obtain ⟨rfl, rfl⟩ := h₂.of_ask fun status _ => ⟨status, rfl, rfl⟩
          rw [share_of_call (hblock yes m₂)]
          exact .yes (hcall _ _ trivial)
      | false =>
          cases no with
          | some no =>
              obtain ⟨rfl, rfl⟩ := h₂.of_ask fun status _ => ⟨status, rfl, rfl⟩
              rw [share_of_call (hblock no m₂)]
              exact .no (hcall _ _ trivial)
          | none =>
              cases h₂
              exact .skip
  | loop e body =>
      have hmark : ∀ m, a.mark? (a.call (.iterate e body) m) = none := fun m => by
        simp only [Moment.mark?, ha, Moment.call]
      obtain ⟨rfl, rfl⟩ | ⟨_, m₁, -, h₁⟩ := h.of_act
      · exact .halt
      obtain ⟨rfl, rfl⟩ := h₁.of_ask fun status _ => ⟨status, rfl, rfl⟩
      rw [share_of_call (hmark m₁)]
      exact .loop (hcall _ _ trivial)

theorem of_executeAll {body : List Stmt} (ha : a.task = .executeAll body)
    (h : Tells a (Script.executeAll body) m l x) : Walks (.executeAll body) l x := by
  cases body with
  | nil =>
      cases h
      exact .nil
  | cons s rest =>
      have hwalks := hcall (.execute s) m trivial
      have hmark : ∀ m, a.mark? (a.call (.executeAll rest) m) = none := fun m => by
        simp only [Moment.mark?, ha, Moment.call]
      cases h with
      | @call _ _ status _ m₁ l' _ hr h =>
          have hstatus : (a.call (.execute s) m).status? = some status :=
            congrArg Status.ofResult? hr
          rw [share_of_execute, hstatus]
          rw [hstatus] at hwalks
          cases status with
          | proceed =>
              obtain ⟨rfl, rfl⟩ := h.of_ask fun status _ => ⟨status, rfl, rfl⟩
              rw [share_of_call (hmark m₁)]
              exact .next hwalks (hcall _ _ trivial)
          | returned v =>
              cases h
              rw [List.append_nil]
              exact .last hwalks (returned_ne_proceed v)
      | callHalt hr =>
          have hstatus : (a.call (.execute s) m).status? = none := status?_of_error hr
          rw [share_of_execute, hstatus]
          rw [hstatus] at hwalks
          exact .last hwalks (Option.some_ne_none _).symm

theorem of_iterate {e : Expr} {body : List Stmt} (ha : a.task = .iterate e body)
    (h : Tells a (Script.iterate e body) m l x) : Walks (.iterate e body) l x := by
  have hcondition : a.mark? (a.call (.evaluate e) m)
      = some (.condition e (Moment.holds? .loop (a.fuel - 1) e m)) := by
    simp only [Moment.mark?, ha, Moment.call]
  have hblock : ∀ m, a.mark? (a.call (.block body) m) = none := fun m => by
    simp only [Moment.mark?, ha, Moment.call]
  have hiterate : ∀ m, a.mark? (a.call (.iterate e body) m) = none := fun m => by
    simp only [Moment.mark?, ha, Moment.call]
  obtain ⟨rfl, rfl⟩ | ⟨b, m₁, l', rfl, h₁⟩ := h.of_condition hcondition
  · exact .stuck
  cases b with
  | false =>
      cases h₁
      exact .ended
  | true =>
      have hwalks := hcall (.block body) m₁ trivial
      cases h₁ with
      | @call _ _ status _ m₂ l' _ hr h₂ =>
          have hstatus : (a.call (.block body) m₁).status? = some status :=
            congrArg Status.ofResult? hr
          rw [share_of_call (hblock m₁)]
          rw [hstatus] at hwalks
          cases status with
          | proceed =>
              obtain ⟨rfl, rfl⟩ := h₂.of_ask fun status _ => ⟨status, rfl, rfl⟩
              rw [share_of_call (hiterate m₂)]
              exact .round hwalks (hcall _ _ trivial)
          | returned v =>
              cases h₂
              rw [List.append_nil]
              exact .left hwalks (returned_ne_proceed v)
      | callHalt hr =>
          have hstatus : (a.call (.block body) m₁).status? = none := status?_of_error hr
          rw [share_of_call (hblock m₁)]
          rw [hstatus] at hwalks
          exact .left hwalks (Option.some_ne_none _).symm

end

theorem of_block {body : List Stmt} (ha : a.task = .block body)
    (hinside : ∀ m, (Task.executeAll body).Walks (a.inside .block body m).trail
      (a.inside .block body m).status?)
    (h : Tells a (.inside .block body .done) m l x) : Walks (.block body) l x := by
  have hwalks := hinside m
  have hmark : a.mark? (a.inside .block body m) = none := by
    simp only [Moment.mark?, ha, Moment.inside]
  have hshare : a.share (a.inside .block body m) = (a.inside .block body m).trail := by
    rw [Moment.share_block, hmark]
    rfl
  cases h with
  | @inside _ _ _ status _ m' l' _ hr h =>
      cases h
      have hstatus : (a.inside .block body m).status? = some status := by
        obtain ⟨m₁, hb, -⟩ := Surroundings.run_eq_ok.1 hr
        exact congrArg Status.ofResult? hb
      rw [hshare, List.append_nil, ← hstatus]
      exact .block hwalks
  | insideHalt hr =>
      have hstatus : (a.inside .block body m).status? = none := by
        obtain ⟨e, m₁, hb, -⟩ := Surroundings.run_eq_error.1 hr
        exact congrArg Status.ofResult? hb
      rw [hshare, ← hstatus]
      exact .block hwalks

end Task.Walks

/-- **What statements do is a way through them**, told by the trail of the moment at which they
start, and it ends with their status. -/
theorem Moment.walks {a : Moment} (ha : a.task.Executes) : a.task.Walks a.trail a.status? := by
  obtain ⟨n, t, m, γ⟩ := a
  induction n generalizing t m γ with
  | zero =>
      have hstatus : Moment.status? ⟨0, t, m, γ⟩ = none := t.status?_error .unfinished m
      rw [hstatus]
      exact .halt
  | succ n ih =>
      have hcall : ∀ (t' : Task) (m' : Machine), t'.Executes →
          t'.Walks (Moment.trail (.call ⟨n + 1, t, m, γ⟩ t' m'))
            (Moment.status? (.call ⟨n + 1, t, m, γ⟩ t' m')) := fun t' m' => ih t' m' γ
      have hpos : 0 < n + 1 := n.succ_pos
      cases t with
      | execute s => exact .of_execute hcall rfl (Script.tells_trail (if_pos hpos) rfl)
      | executeAll l => exact .of_executeAll hcall rfl (Script.tells_trail (if_pos hpos) rfl)
      | block l =>
          have hinside : ∀ m', (Task.executeAll l).Walks
              (Moment.trail (.inside ⟨n + 1, .block l, m, γ⟩ .block l m'))
              (Moment.status? (.inside ⟨n + 1, .block l, m, γ⟩ .block l m')) := fun m' =>
            ih (.executeAll l) _ _ trivial
          exact .of_block rfl hinside (Script.tells_trail (if_pos hpos) rfl)
      | iterate e body => exact .of_iterate hcall rfl (Script.tells_trail (if_pos hpos) rfl)
      | _ => cases ha

/-! ### Where a return stands on a way -/

namespace Mark

/-- A return statement is executed. -/
def IsReturn : Mark → Prop
  | .statement (.return _) _ => True
  | _ => False

instance : DecidablePred IsReturn
  | .statement (.return _) _ => .isTrue trivial
  | .statement (.assign ..) _ | .statement (.call _) _ | .statement (.branch ..) _
  | .statement (.loop ..) _ | .condition .. => .isFalse not_false

/-- What may stand at the end of a way that ends with a status, or halts. -/
inductive Closes : Option Status → List Mark → Prop where
  /-- The way proceeds. -/
  | proceeds : Closes (some .proceed) []
  /-- The way has come to a return, which gives the value. -/
  | returned {o : Option Expr} {v : Value} :
      Closes (some (.returned v)) [.statement (.return o) (some (.returned v))]
  /-- The way halts before a return. -/
  | halts : Closes none []
  /-- The way halts in a return. -/
  | halted {o : Option Expr} : Closes none [.statement (.return o) none]

/-- No mark is a return but the last, and the last is one if the way has a value. -/
def OneReturn (x : Option Status) (l : List Mark) : Prop :=
  ∃ before after, l = before ++ after ∧ (∀ k ∈ before, ¬k.IsReturn) ∧ Closes x after

variable {l l' : List Mark} {x : Option Status}

theorem OneReturn.of_not (hl : ∀ k ∈ l, ¬k.IsReturn) (hx : Closes x []) : OneReturn x l :=
  ⟨l, [], (List.append_nil l).symm, hl, hx⟩

theorem OneReturn.append (hl : ∀ k ∈ l, ¬k.IsReturn) (h : OneReturn x l') :
    OneReturn x (l ++ l') := by
  obtain ⟨before, after, rfl, hb, hx⟩ := h
  refine ⟨l ++ before, after, (List.append_assoc l before after).symm, ?_, hx⟩
  exact List.forall_mem_append.2 ⟨hl, hb⟩

theorem OneReturn.cons {k : Mark} (hk : ¬k.IsReturn) (h : OneReturn x l) : OneReturn x (k :: l) :=
  .append (List.forall_mem_singleton.2 hk) h

/-- **What proceeds has come to no return.** -/
theorem OneReturn.not_isReturn (h : OneReturn (some .proceed) l) : ∀ k ∈ l, ¬k.IsReturn := by
  obtain ⟨before, after, rfl, hb, hx⟩ := h
  cases hx
  rwa [List.append_nil]

/-- **What has a value has come to the return that gives it.** -/
theorem OneReturn.exists_return {v : Value} (h : OneReturn (some (.returned v)) l) :
    ∃ o, [.statement (.return o) (some (.returned v))] <:+ l := by
  obtain ⟨before, after, rfl, -, hx⟩ := h
  cases hx with
  | returned => exact ⟨_, before, rfl⟩

/-- **A return is the last thing.** -/
theorem OneReturn.last (h : OneReturn x l) {before after : List Mark} {k : Mark}
    (hl : l = before ++ k :: after) (hk : k.IsReturn) : after = [] := by
  obtain ⟨before', after', rfl, hb, hx⟩ := h
  have hlength : after'.length ≤ 1 := by cases hx <;> simp
  obtain ⟨c, rfl, hc⟩ | ⟨c, rfl, hc⟩ := List.append_eq_append_iff.1 hl
  · rw [hc, List.length_append, List.length_cons] at hlength
    exact List.eq_nil_of_length_eq_zero (by omega)
  · cases c with
    | nil =>
        rw [← hc.trans (List.nil_append after'), List.length_cons] at hlength
        exact List.eq_nil_of_length_eq_zero (by omega)
    | cons k' c =>
        obtain ⟨rfl, -⟩ := List.cons.inj hc
        exact absurd hk (hb k (by simp))

/-- **A return that gives a value gives it to the whole way.** -/
theorem OneReturn.status_eq {o : Option Expr} {v : Value} (h : OneReturn x l)
    (hm : .statement (.return o) (some (.returned v)) ∈ l) : x = some (.returned v) := by
  obtain ⟨before, after, rfl, hb, hx⟩ := h
  obtain hm | hm := List.mem_append.1 hm
  · exact absurd trivial (hb _ hm)
  · cases hx with
    | returned =>
        cases List.mem_singleton.1 hm
        rfl
    | proceeds => cases hm
    | halts => cases hm
    | halted => cases List.mem_singleton.1 hm

end Mark

/-- What is told of a task where it is opened, if it ends so. -/
def Task.head : Task → Option Status → List Mark
  | .execute s, x => [.statement s x]
  | _, _ => []

/-- **On every way there is one return at most, at its end.** -/
theorem Task.Walks.oneReturn {t : Task} {l : List Mark} {x : Option Status} (h : t.Walks l x) :
    Mark.OneReturn x (t.head x ++ l) := by
  induction h with
  | @halt t =>
      rw [List.append_nil]
      cases t with
      | execute s =>
          cases s with
          | «return» o => exact ⟨[], _, rfl, List.forall_mem_nil _, .halted⟩
          | _ => exact .of_not (List.forall_mem_singleton.2 not_false) .halts
      | _ => exact .of_not (List.forall_mem_nil _) .halts
  | assign => exact .of_not (List.forall_mem_singleton.2 not_false) .proceeds
  | call => exact .of_not (List.forall_mem_singleton.2 not_false) .proceeds
  | «return» => exact ⟨[], _, rfl, List.forall_mem_nil _, .returned⟩
  | undecided => exact .cons not_false (.cons not_false (.of_not (List.forall_mem_nil _) .halts))
  | yes h ih => exact .cons not_false (.cons not_false ih)
  | no h ih => exact .cons not_false (.cons not_false ih)
  | skip => exact .cons not_false (.cons not_false (.of_not (List.forall_mem_nil _) .proceeds))
  | loop h ih => exact .cons not_false ih
  | nil => exact .of_not (List.forall_mem_nil _) .proceeds
  | next h h' ih ih' =>
      have happend := Mark.OneReturn.append ih.not_isReturn ih'
      exact happend
  | last h hx ih => exact ih
  | block h ih => exact ih
  | stuck => exact .cons not_false (.of_not (List.forall_mem_nil _) .halts)
  | ended => exact .cons not_false (.of_not (List.forall_mem_nil _) .proceeds)
  | round h h' ih ih' => exact .cons not_false (.append ih.not_isReturn ih')
  | left h hx ih => exact .cons not_false ih

namespace Moment

variable {a b : Moment} {d : Nat}

/-- The trail of a moment, behind what is told of its own task. -/
def marks (a : Moment) : List Mark := a.task.head a.status? ++ a.trail

theorem oneReturn (h : a.task.Executes) : Mark.OneReturn a.status? a.marks := (walks h).oneReturn

/-- The marks of statements are what their opening contributes to a trail. -/
theorem share_eq_marks (hw : b.waiting = a.waiting) (hb : b.task.Executes) :
    a.share b = b.marks := by
  obtain ⟨n, t, m, γ⟩ := b
  rw [share, if_pos hw]
  cases t <;> first | exact absurd hb not_false | (unfold mark?; rfl)

/-- The marks of statements that a moment executes in its own activation are a part of its own. -/
theorem Opens.marks_infix (h : a.Opens b) (hw : b.waiting = a.waiting) (hb : b.task.Executes) :
    b.marks <:+: a.trail := by
  rw [← share_eq_marks hw hb]
  exact share_infix_trail h

/-- **What an activation does in one of its statements is a part of all that it does.** -/
theorem marks_infix_trail (h : a.Follows d b) (hb : b.task.Executes) :
    b = a ∨ b.marks <:+: a.trail := by
  have hstep : ∀ {b c : Moment}, (b.task.Executes → b = a ∨ b.marks <:+: a.trail) → b.Opens c →
      c.waiting = b.waiting → c.task.Executes → c = a ∨ c.marks <:+: a.trail := by
    intro b c ih ho hw hc
    have hb : b.task.Executes := Classical.byContradiction fun hb => ho.not_executes hw hb hc
    have hpart := ho.marks_infix hw hc
    obtain rfl | hb := ih hb
    · exact .inr hpart
    · exact .inr (hpart.trans ((List.suffix_append _ _).isInfix.trans hb))
  induction h with
  | start => exact .inl rfl
  | call _ ho ih => exact hstep ih ho rfl hb
  | block _ ho ih => exact hstep ih ho rfl hb

end Moment
end ProtoScript
