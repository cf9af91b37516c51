import ProtoScript.Proofs.Balance
/-!
# Contracts

A contract says of every moment what holds before its task is performed, what
holds of every machine that the task passes up to its end, and what holds of its
result.  To keep a contract is a matter of one script at a time: each call in it
must find what it needs, and may then rely on what the contract says of its
result (`Script.Meets`).

`Contract.Kept.ends` and `Contract.Kept.within` draw the conclusion for all
moments: a task whose moment satisfies the contract ends as the contract says,
and so does every task that belongs to it.  A task that fails still passes its
last machine; a task that stops unfinished has no end, and nothing is said of it.

A contract may be kept among the moments of a class `P` only, if a moment of the
class opens moments of the class alone.  What another contract has established
can be such a class, and so can the moments of one evaluation.
-/

namespace ProtoScript

/-- What holds before, during and after the tasks of a run. -/
structure Contract where
  /-- What holds at the moment at which a task is about to be performed. -/
  before : Moment → Prop
  /-- What holds of every machine that the task of a moment passes, the last one included. -/
  during : Moment → Machine → Prop
  /-- What holds of the result and the machine with it. -/
  result : (a : Moment) → a.task.Result → Machine → Prop

namespace Script

variable {α β : Type} {C : Contract} {P : Moment → Prop} {a : Moment}
  {Q : α → Machine → Prop} {m : Machine}

/-- Whether a script that belongs to the moment `a` keeps a contract from a machine on: its calls
find what they need, and if they do as the contract says, it passes machines as it should and ends
with `Q`. -/
def Meets (C : Contract) (P : Moment → Prop) (a : Moment) (Q : α → Machine → Prop) :
    Script α → Machine → Prop
  | .done r, m => C.during a m ∧ Q r m
  | .act x next, m => C.during a m ∧
      ∀ b m', x m = .ok b m' → a.Passes m' → (next b).Meets C P a Q m'
  | .call t next, m => C.during a m ∧ (a.Opens (a.call t m) → P (a.call t m) →
      C.before (a.call t m) ∧
      (∀ m', a.machine.Level m' → C.during (a.call t m) m' → C.during a m') ∧
      ∀ r m', perform (a.fuel - 1) t m = .ok r m' → a.Passes m' →
        C.during (a.call t m) m' → C.result (a.call t m) r m' → (next r).Meets C P a Q m')
  | .inside p l next, m => C.during a m ∧ (a.Opens (a.inside p l m) → P (a.inside p l m) →
      C.before (a.inside p l m) ∧
      (∀ m', (p.enter m).Level m' → C.during (a.inside p l m) m' →
        C.during a (p.leave m.environment m')) ∧
      ∀ r m', perform (a.fuel - 1) (.executeAll l) (p.enter m) = .ok r m' →
        a.Passes (p.leave m.environment m') → C.during (a.inside p l m) m' →
          C.result (a.inside p l m) r m' →
            (next r).Meets C P a Q (p.leave m.environment m'))

theorem Meets.during {s : Script α} (h : s.Meets C P a Q m) : C.during a m := by
  cases s <;> exact h.1

/-- A script that goes on with another one keeps a contract if the other one does from there. -/
theorem Meets.andThen {R : β → Machine → Prop} {k : α → Script β} :
    ∀ {s : Script α} {m : Machine},
      s.Meets C P a (fun r m => (k r).Meets C P a R m) m → (s.andThen k).Meets C P a R m
  | .done _, _, h => h.2
  | .act _ _, _, h => ⟨h.1, fun b m' hx hl => (h.2 b m' hx hl).andThen⟩
  | .call _ _, _, h => ⟨h.1, fun ho hP => ⟨(h.2 ho hP).1, (h.2 ho hP).2.1,
      fun r m' hr hl hd ha => ((h.2 ho hP).2.2 r m' hr hl hd ha).andThen⟩⟩
  | .inside _ _ _, _, h => ⟨h.1, fun ho hP => ⟨(h.2 ho hP).1, (h.2 ho hP).2.1,
      fun r m' hr hl hd ha => ((h.2 ho hP).2.2 r m' hr hl hd ha).andThen⟩⟩

end Script

namespace Contract

/-- Whether a task that belongs to the moment `a` ends as a contract says, with `Q` if it has a
result. -/
def EndsWith (C : Contract) (a : Moment) {α : Type} (Q : α → Machine → Prop) :
    EStateM.Result Halt Machine α → Prop
  | .ok r m => C.during a m ∧ Q r m
  | .error (.failed _) m => C.during a m
  | .error .unfinished _ => True

/-- What a contract says of the end of the task of a moment. -/
def Ends (C : Contract) (a : Moment) : Prop :=
  C.EndsWith a (C.result a) (perform a.fuel a.task a.machine)

/-- A contract is kept among the moments of a class. -/
structure Kept (C : Contract) (P : Moment → Prop) : Prop where
  /-- The class is not left. -/
  opens : ∀ {a b : Moment}, P a → a.Opens b → P b
  /-- The machine at a moment is one of those that it passes. -/
  start : ∀ a : Moment, P a → C.before a → C.during a a.machine
  /-- Every script keeps the contract. -/
  meets : ∀ a : Moment, P a → C.before a → 0 < a.fuel →
    a.task.script.Meets C P a (C.result a) a.machine

namespace Kept

variable {C : Contract} {P : Moment → Prop} {a b : Moment} {m : Machine}

/-- A script that keeps a contract ends as it should, if the tasks it calls for end as the contract
says. -/
theorem run_of_meets (hC : C.Kept P) (hP : P a) (hn : 0 < a.fuel)
    (ih : ∀ b : Moment, b.fuel = a.fuel - 1 → P b → C.before b → C.Ends b)
    {Q : a.task.Result → Machine → Prop} :
    ∀ {s : Script a.task.Result} {m : Machine},
      a.task.script.Leads (perform (a.fuel - 1)) a.machine s m → s.Meets C P a Q m →
        C.EndsWith a Q (s.run (perform (a.fuel - 1)) m)
  | .done _, _, _, h => h
  | .act x next, m, hl, h => by
      have := (hl.level (Script.steady a.task)).2.1
      simp only [Script.run]
      cases hx : x m with
      | ok b m' =>
          have hl' := hl.trans (.act hx .refl)
          exact run_of_meets hC hP hn ih hl' (h.2 b m' hx (.later hn hl'))
      | error e m' =>
          cases e with
          | failed f => exact Eval.Tame.failed hx ▸ h.1
          | unfinished => trivial
  | .call t next, m, hl, h => by
      have ho : a.Opens (a.call t m) := .call hn hl
      have hP' := hC.opens hP ho
      obtain ⟨hb, hd, hok⟩ := h.2 ho hP'
      have he := ih (a.call t m) rfl hP' hb
      simp only [Contract.Ends, Moment.call] at he
      simp only [Script.run]
      cases hr : perform (a.fuel - 1) t m with
      | ok r m' =>
          rw [hr] at he
          have hl' := hl.trans (.call hr .refl)
          exact run_of_meets hC hP hn ih hl' (hok r m' hr (.later hn hl') he.1 he.2)
      | error e m' =>
          rw [hr] at he
          have hL := (hl.level (Script.steady a.task)).1.trans (level_of_perform_eq_error hr)
          cases e with
          | failed f => exact hd m' hL he
          | unfinished => trivial
  | .inside p l next, m, hl, h => by
      have ho : a.Opens (a.inside p l m) := .inside hn hl
      have hP' := hC.opens hP ho
      obtain ⟨hb, hd, hok⟩ := h.2 ho hP'
      have he := ih (a.inside p l m) rfl hP' hb
      simp only [Contract.Ends, Moment.inside] at he
      simp only [Script.run]
      cases hr : perform (a.fuel - 1) (.executeAll l) (p.enter m) with
      | ok r m' =>
          rw [hr] at he
          have hp : p.run (perform (a.fuel - 1) (.executeAll l)) m
              = .ok r (p.leave m.environment m') :=
            Surroundings.run_eq_ok.2 ⟨m', hr, rfl⟩
          have hl' := hl.trans (.inside hp .refl)
          rw [hp]
          exact run_of_meets hC hP hn ih hl' (hok r m' hr (.later hn hl') he.1 he.2)
      | error e m' =>
          rw [hr] at he
          have hp : p.run (perform (a.fuel - 1) (.executeAll l)) m
              = .error (p.halted m' e) (p.leave m.environment m') :=
            Surroundings.run_eq_error.2 ⟨e, m', hr, rfl, rfl⟩
          rw [hp]
          -- What is attached on the way out matters to no contract.
          cases e with
          | failed f => cases p <;> exact hd m' (level_of_perform_eq_error hr) he
          | unfinished => cases p <;> trivial

/-- **A task ends as the contract says.** -/
theorem ends (hC : C.Kept P) (hP : P a) (hb : C.before a) : C.Ends a := by
  obtain ⟨n, t, m, c⟩ := a
  induction n generalizing t m c with
  | zero => trivial
  | succ n ih =>
      have ih' : ∀ b : Moment, b.fuel = n → P b → C.before b → C.Ends b := by
        rintro ⟨_, t', m', c'⟩ rfl hPb hbb
        exact ih t' m' c' hPb hbb
      exact hC.run_of_meets hP n.succ_pos ih' .refl (hC.meets _ hP hb n.succ_pos)

/-- A result is as the contract says. -/
theorem of_ok (hC : C.Kept P) (hP : P a) (hb : C.before a) {r : a.task.Result}
    (h : perform a.fuel a.task a.machine = .ok r m) : C.during a m ∧ C.result a r m := by
  have he := hC.ends hP hb
  rwa [Contract.Ends, h] at he

/-- A failure leaves a machine as the contract says. -/
theorem of_failed (hC : C.Kept P) (hP : P a) (hb : C.before a) {f : Failure}
    (h : perform a.fuel a.task a.machine = .error (.failed f) m) : C.during a m := by
  have he := hC.ends hP hb
  rwa [Contract.Ends, h] at he

/-- Wherever the script of a moment leads, what is left of it keeps the contract. -/
theorem meets_of_leads (hC : C.Kept P) (hP : P a) (hn : 0 < a.fuel)
    {Q : a.task.Result → Machine → Prop} {s s' : Script a.task.Result} {m m' : Machine}
    (hl : a.task.script.Leads (perform (a.fuel - 1)) a.machine s m)
    (h : s.Leads (perform (a.fuel - 1)) m s' m') (hs : s.Meets C P a Q m) :
    s'.Meets C P a Q m' := by
  induction h with
  | refl => exact hs
  | act hx _ ih =>
      have hl' := hl.trans (.act hx .refl)
      exact ih hl' (hs.2 _ _ hx (.later hn hl'))
  | @call t next r s₁ m m₁ m' hr _ ih =>
      have ho : a.Opens (a.call t m) := .call hn hl
      have hP' := hC.opens hP ho
      obtain ⟨hb, -, hok⟩ := hs.2 ho hP'
      have hl' := hl.trans (.call hr .refl)
      obtain ⟨hd, ha⟩ := hC.of_ok hP' hb hr
      exact ih hl' (hok _ _ hr (.later hn hl') hd ha)
  | @inside p l next r s₁ m m₁ m' hr _ ih =>
      have ho : a.Opens (a.inside p l m) := .inside hn hl
      have hP' := hC.opens hP ho
      obtain ⟨hb, -, hok⟩ := hs.2 ho hP'
      have hl' := hl.trans (.inside hr .refl)
      obtain ⟨m₂, hr', rfl⟩ := Surroundings.run_eq_ok.1 hr
      obtain ⟨hd, ha⟩ := hC.of_ok hP' hb hr'
      exact ih hl' (hok _ _ hr' (.later hn hl') hd ha)

/-- A task that is called for finds what it needs. -/
theorem before_of_opens (hC : C.Kept P) (hP : P a) (ha : C.before a) (hb : a.Opens b) :
    C.before b := by
  cases hb with
  | call hn h =>
      have hs := hC.meets_of_leads hP hn .refl h (hC.meets a hP ha hn)
      exact (hs.2 (.call hn h) (hC.opens hP (.call hn h))).1
  | inside hn h =>
      have hs := hC.meets_of_leads hP hn .refl h (hC.meets a hP ha hn)
      exact (hs.2 (.inside hn h) (hC.opens hP (.inside hn h))).1

/-- **What a contract asks of a moment holds of all moments within.** -/
theorem within (hC : C.Kept P) (hP : P a) (ha : C.before a) (hb : a.Within b) :
    P b ∧ C.before b := by
  induction hb with
  | refl => exact ⟨hP, ha⟩
  | tail _ hb ih => exact ⟨hC.opens ih.1 hb, hC.before_of_opens ih.1 ih.2 hb⟩

/-- **What a contract says of the machines in between holds of every machine passed.** -/
theorem during_of_passes (hC : C.Kept P) (hP : P a) (ha : C.before a) (hm : a.Passes m) :
    C.during a m := by
  cases hm with
  | here => exact hC.start a hP ha
  | later hn h => exact (hC.meets_of_leads hP hn .refl h (hC.meets a hP ha hn)).during

end Kept
end Contract
end ProtoScript
