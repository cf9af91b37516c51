import ProtoScript.Proofs.Effects
import ProtoScript.Proofs.Replay
/-!
# The round trip of a reference parameter

A reference parameter is bound to the slot of the caller's variable, and this
binding stays as it is until the body ends.  So the caller reads what the body
has left in the parameter, unless its own variable has been bound to another
slot in the meantime.  This can happen: an owned variable is rebound when it is
assigned, and if the caller is a closure and its snapshot binds the variable,
then every other activation of the closure can assign to it.
-/

namespace ProtoScript

open Script Moment

variable {n : Nat} {m m₁ m' : Machine}

/-- On the way from `m` to `m'` the parameter `q` has been bound in the environment `e` to the slot
of the variable `x`: this has just happened on the machine `m₁`, where the variable has the binding
`b`. -/
structure Sharing (a : Moment) (e : Environment) (x q : String) (m m₁ m' : Machine) (b : Binding) :
    Prop where
  closed : m₁.store.Closed
  before : m.store.Evolves (fun y _ => y = e.innermost) a.Rebinds a.Writes m₁.store
  lent : m₁.store.lookup m.environment x = some b
  bound : m₁.store.binding? e.innermost q = some ⟨b.slot, true⟩
  after : m₁.store.Evolves (fun y name => y = e.innermost ∧ name ≠ q) a.Rebinds a.Writes m'.store

/-- The call detaches the variable `x` from its slot: the variable is found in the scope `y`, which
a closure brought into the activation that makes the call; it is owned there, and while the call is
performed an assignment gives it a new slot. -/
structure Moment.Detaches (a : Moment) (x : String) (y : Address .scope) : Prop where
  home : a.machine.store.home? a.machine.environment x = some y
  installed : y ∈ a.context.callable.installed
  owned : ∃ b, a.machine.store.binding? y x = some b ∧ b.byRef = false
  rebinds : a.Rebinds y x

/-- What evaluates an expression finds a name bound to a new slot only in a scope that a closure
brought in. -/
theorem mem_installed_of_rebound {a : Moment} (ha : isolation.before a)
    (hk : a.machine.store.Keeps [] m'.store) {x : String} {y : Address .scope} {b b' : Binding}
    (hy : y ∈ a.machine.environment.scopes) (hb : a.machine.store.binding? y x = some b)
    (hb' : m'.store.binding? y x = some b') (hle : a.machine.store.slots.size ≤ b'.slot.index) :
    y ∈ a.context.callable.installed := by
  refine Classical.byContradiction fun hi => ?_
  have hown := ha.2.1.own_innermost hy hi
  have hscope := hk.scope y (ha.2.1.there_innermost hy) List.not_mem_nil hown
  have heq : b' = b := by
    rw [Store.binding?, hscope] at hb'
    exact Option.some.inj (hb'.symm.trans hb)
  have hlt : b.slot.index < a.machine.store.slots.size := ha.1.binding y x b hb
  exact absurd hlt (Nat.not_lt_of_le (heq ▸ hle))

namespace Sharing

variable {a : Moment} {e : Environment} {x q : String} {s : Machine} {b : Binding}

/-- The parameter is bound, so it is not bound anew. -/
theorem trans (h : Sharing a e x q m s m₁ b)
    (h' : m₁.store.Evolves (fun y name => y = e.innermost ∧ m₁.store.lookup e name = none)
      a.Rebinds a.Writes m'.store) : Sharing a e x q m s m' b := by
  refine ⟨h.closed, h.before, h.lent, h.bound, h.after.trans h' ?_⟩
  rintro y _ _ ⟨hy, hn⟩
  refine ⟨hy, ?_⟩
  rintro rfl
  have hb := h.after.reference h.bound fun h => h.2 rfl
  exact nomatch hn.symm.trans (Store.lookup_of_innermost hb)

/-- The parameter stands for the slot. -/
theorem lookup_parameter (h : Sharing a e x q m s m' b) :
    m'.store.lookup e q = some ⟨b.slot, true⟩ :=
  Store.lookup_of_innermost (h.after.reference h.bound fun h => h.2 rfl)

/-- **The variable stands for the slot too**, or the call has detached it. -/
theorem lookup_variable (h : Sharing a e x q a.machine s m' b) (ha : isolation.before a)
    (hout : a.machine.store.scopes.size ≤ e.innermost.index)
    (hk : a.machine.store.Keeps [] m'.store) :
    ∃ b', m'.store.lookup a.machine.environment x = some b' ∧
      (b' = b ∨ b'.slot ≠ b.slot ∧ ∃ y, a.Detaches x y) := by
  have hthere : ∀ y ∈ a.machine.environment.scopes, y.index < a.machine.store.scopes.size :=
    fun y hy => ha.2.1.there_innermost hy
  have hne : ∀ y ∈ a.machine.environment.scopes, y ≠ e.innermost := by
    rintro y hy rfl
    exact absurd (hthere _ hy) (Nat.not_lt_of_le hout)
  obtain ⟨y, hhome, hb⟩ := Store.home?_of_lookup h.lent
  have hmem := Store.mem_of_home? hhome
  have hhome' : m'.store.home? a.machine.environment x = some y :=
    (h.after.home?_eq fun z hz => ⟨Nat.lt_of_lt_of_le (hthere z hz) h.before.scopes_le,
      fun hX => hne z hz hX.1⟩).trans hhome
  obtain ⟨b', hb', hcases⟩ := h.after.kept y x b hb
  refine ⟨b', (Store.lookup_eq_of_home? hhome').trans hb', ?_⟩
  obtain hX | rfl | ⟨hR, hr, -, hle⟩ := hcases
  · exact absurd hX.1 (hne y hmem)
  · exact .inl rfl
  · have hslot : b.slot.index < s.store.slots.size := h.closed.binding y x b hb
    refine .inr ⟨fun heq => absurd hslot (Nat.not_lt_of_le (heq ▸ hle)), y, ?_⟩
    have hhome₀ : a.machine.store.home? a.machine.environment x = some y :=
      (h.before.home?_eq fun z hz => ⟨hthere z hz, hne z hz⟩).symm.trans hhome
    obtain ⟨b₀, hb₀⟩ := Option.isSome_iff_exists.1 (Store.isSome_binding?_of_home? hhome₀)
    refine ⟨hhome₀, mem_installed_of_rebound ha hk hmem hb₀ hb'
      (Nat.le_trans h.before.slots_le hle), ⟨b₀, hb₀, ?_⟩, hR⟩
    obtain ⟨b₁, hb₁, hX | rfl | ⟨-, hr₀, -⟩⟩ := h.before.kept y x b₀ hb₀
    · exact absurd hX (hne y hmem)
    · obtain rfl : b₁ = b := Option.some.inj (hb₁.symm.trans hb)
      exact hr
    · exact hr₀

end Sharing

/-- A script that only calls for a task has the result of the task. -/
theorem perform_of_run_ask {t : Task} {r : t.Result}
    (h : (ask t).run (perform n) m = .ok r m') : perform n t m = .ok r m' := by
  simp only [ask, run] at h
  cases hr : perform n t m with
  | ok r₁ m₁ =>
      rw [hr] at h
      cases h
      rfl
  | error e m₁ => rw [hr] at h; cases h

/-- A reference parameter is bound to the slot of its variable at once. -/
theorem bound_of_leads {e : Environment} {x q : String} {l : List (Param × Expr)}
    (h : (bindArguments e ((⟨q, true⟩, .variable x) :: l)).Leads (perform n) m
      (ask (.bind e l)) m₁) (hx : m.store.lookup m.environment x ≠ none) :
    ∃ b, m.store.lookup m.environment x = some b ∧
      m₁ = m.withStore fun s => s.share e.innermost q b.slot := by
  cases h with
  | act hb h =>
      cases h with
      | call _ h => cases h
      | refl =>
          obtain h | ⟨hn, -⟩ := Eval.bindVariable_eq_ok hb
          · exact h
          · exact absurd hn hx

/-- **Binding the parameters binds each reference parameter to the slot of its variable.** -/
theorem exists_sharing {a : Moment} {e : Environment} {x q : String} {γ : Context} {u : Unit}
    {m' : Machine} : ∀ {l : List (Param × Expr)} {n : Nat} {m : Machine},
      a.Within ⟨n, .bind e l, m, γ⟩ → isolation.before ⟨n, .bind e l, m, γ⟩ →
        perform n (.bind e l) m = .ok u m' → (l.map fun p => p.1.name).Nodup →
          (⟨q, true⟩, .variable x) ∈ l → m.store.lookup m.environment x ≠ none →
            e.innermost.index < m.store.scopes.size → e.innermost ∉ m.environment.scopes →
              ∃ m₁ b, Sharing a e x q m m₁ m' b
  | [], _, _, _, _, _, _, hq, _, _, _ => nomatch hq
  | _ :: _, 0, _, _, _, hr, _, _, _, _, _ => nomatch hr
  | (p, arg) :: l, n + 1, m, hw, ha, hr, hnd, hq, hx, hlt, hout => by
      obtain ⟨_, m₁, hl, hr⟩ := leads_andThen (s := bindArgument e p arg) hr
      obtain ⟨hname, hnd⟩ := List.nodup_cons.1 hnd
      have hp : Passes ⟨n + 1, .bind e ((p, arg) :: l), m, γ⟩ m₁ := .later n.succ_pos hl
      have ho : Opens ⟨n + 1, .bind e ((p, arg) :: l), m, γ⟩ ⟨n, .bind e l, m₁, γ⟩ :=
        .call n.succ_pos hl
      have ha₁ := isolation_kept.before_of_opens trivial ha ho
      have hr' : perform n (.bind e l) m₁ = .ok u m' := perform_of_run_ask hr
      obtain hq | hq := List.mem_cons.1 hq
      · cases hq
        obtain ⟨b, hb, rfl⟩ := bound_of_leads hl hx
        have hafter := ((effects_kept a).of_ok ⟨hw.tail ho, ha₁⟩ trivial hr').1
        have hlent : (m.store.share e.innermost q b.slot).lookup m.environment x = some b := by
          refine (Store.lookup_congr fun y hy => ?_).trans hb
          rw [Store.binding?_share, if_neg]
          rintro ⟨rfl, -⟩
          exact hout hy
        have hbound : (m.store.share e.innermost q b.slot).binding? e.innermost q =
            some ⟨b.slot, true⟩ := by
          rw [Store.binding?_share, if_pos ⟨rfl, rfl, hlt⟩]
        refine ⟨_, b, ha₁.1, .share b.slot rfl, hlent, hbound, hafter.mono ?_⟩
        rintro y _ _ ⟨hy, p, hmem, rfl⟩
        refine ⟨hy, ?_⟩
        rintro rfl
        exact hname (List.mem_map.2 ⟨p, hmem, rfl⟩)
      · have hev := (effects_kept a).during_of_passes ⟨hw, ha⟩ trivial hp
        have he : m₁.environment = m.environment := hp.level.environment
        have hx₁ : m₁.store.lookup m₁.environment x ≠ none := fun hn =>
          hx (hev.lookup_eq_none (he ▸ hn))
        obtain ⟨m₂, b, h⟩ := exists_sharing (hw.tail ho) ha₁ hr' hnd hq hx₁
          (Nat.lt_of_lt_of_le hlt hev.scopes_le) (he ▸ hout)
        refine ⟨m₂, b, h.closed, ?_, he ▸ h.lent, h.bound, h.after⟩
        exact (hev.mono fun _ _ _ hy => hy.1).trans h.before fun _ _ _ hy => hy

/-- The course of a call up to the body: the environment is made, and the receiver and the
parameters are bound. -/
structure Course (n : Nat) (callable : Callable) (args : List Expr)
    (receiver : Option (Address .object)) (e : Environment) (m m₁ m₂ m₃ : Machine) : Prop where
  arity : callable.routine.arity = args.length
  activated : Eval.activate callable m = .ok e m₁
  received : Eval.bindReceiver e receiver m₁ = .ok () m₂
  bound : perform n (.bind e (callable.routine.params.zip args)) m₂ = .ok () m₃

/-- The script is at statements that are executed elsewhere, or at its end. -/
def Script.AtBody {α : Type} : Script α → Prop
  | .act .. | .call .. => False
  | .inside .. | .done _ => True

section

variable {label : String} {callable : Callable} {args : List Expr}
  {receiver : Option (Address .object)} {γ : Context} {e : Environment}

/-- A call comes to its body by its course alone. -/
theorem course_of_leads {s : Script Value}
    (h : (invoke label callable args receiver).Leads (perform n) m s m') (hs : s.AtBody) :
    ∃ e m₁ m₂ m₃, Course n callable args receiver e m m₁ m₂ m₃ ∧
      (inside (.activation label callable e) callable.routine.body fun status =>
        done status.value).Leads (perform n) m₃ s m' := by
  rw [invoke_eq] at h
  split at h
  · next harity =>
      cases h with
      | refl => exact hs.elim
      | act he h =>
          cases h with
          | refl => exact hs.elim
          | act hb h =>
              cases h with
              | refl => exact hs.elim
              | call hp h => exact ⟨_, _, _, _, ⟨harity, he, hb, hp⟩, h⟩
  · cases h with
    | refl => exact hs.elim
    | act hf _ => cases hf

/-- The innermost scope of the environment that is made is new. -/
theorem Course.innermost {m₂ m₃ : Machine} (h : Course n callable args receiver e m m₁ m₂ m₃) :
    m.store.scopes.size ≤ e.innermost.index ∧ e.innermost.index < m₂.store.scopes.size := by
  obtain ⟨rfl, hs⟩ := Eval.activate_eq_ok h.activated
  have hlt := Eval.innermost_lt_storeFor m.store callable
  rw [← hs] at hlt
  refine ⟨Eval.innermost_scopesFor m.store callable, ?_⟩
  obtain rfl | ⟨o, rfl⟩ := Eval.bindReceiver_eq_ok h.received
  · exact hlt
  · exact Nat.lt_of_lt_of_eq hlt (Store.size_scopes_create _ _ _ _).symm

/-- The course of a call leads to the binding of the parameters. -/
theorem Course.leads_bind {m₂ m₃ : Machine} (h : Course n callable args receiver e m m₁ m₂ m₃) :
    (invoke label callable args receiver).Leads (perform n) m
      (.call (.bind e (callable.routine.params.zip args)) fun _ =>
        .inside (.activation label callable e) callable.routine.body fun status =>
          .done status.value) m₂ := by
  rw [invoke_eq, if_pos h.arity]
  exact .act h.activated (.act h.received .refl)

/-- The course of a call leads to the body. -/
theorem Course.leads {m₂ m₃ : Machine} (h : Course n callable args receiver e m m₁ m₂ m₃) :
    (invoke label callable args receiver).Leads (perform n) m
      (.inside (.activation label callable e) callable.routine.body fun status =>
        .done status.value) m₃ :=
  h.leads_bind.trans (.call h.bound .refl)

/-- What a call results in is what the body leaves. -/
theorem Course.result {m₂ m₃ m₄ : Machine} {status : Status} {v : Value}
    (h : Course n callable args receiver e m m₁ m₂ m₃)
    (hb : perform n (.executeAll callable.routine.body)
      ((Surroundings.activation label callable e).enter m₃) = .ok status m₄)
    (hr : perform (n + 1) (.invoke label callable args receiver) m = .ok v m') :
    m' = m₄.leaveActivation m₃.environment := by
  have hl : (invoke label callable args receiver).Leads (perform n) m (.done status.value)
      (m₄.leaveActivation m₃.environment) :=
    h.leads.trans (.inside (Surroundings.run_eq_ok.2 ⟨m₄, hb, rfl⟩) .refl)
  cases hl.run_eq.symm.trans hr
  rfl

namespace Moment

/-- The body of what is invoked at a moment ends on the machine `m`: it is the task that the moment
opens in an activation of its own. -/
def BodyEnds (a : Moment) (m : Machine) : Prop :=
  ∃ b r, a.Opens b ∧ a.context.callers.length < b.context.callers.length ∧
    perform b.fuel b.task b.machine = .ok r m

theorem BodyEnds.course (h : BodyEnds ⟨n + 1, .invoke label callable args receiver, m, γ⟩ m') :
    ∃ e m₁ m₂ m₃ status, Course n callable args receiver e m m₁ m₂ m₃ ∧
      perform n (.executeAll callable.routine.body)
        ((Surroundings.activation label callable e).enter m₃) = .ok status m' := by
  obtain ⟨b, r, ho, hlt, hr⟩ := h
  cases ho with
  | call => exact absurd hlt (Nat.lt_irrefl _)
  | inside _ h =>
      obtain ⟨e, m₁, m₂, m₃, hc, h⟩ := course_of_leads h trivial
      cases h with
      | refl => exact ⟨e, m₁, m₂, _, r, hc, hr⟩
      | inside _ h => cases h

/-- The body of a call that returns has an end. -/
theorem exists_bodyEnds {v : Value}
    (h : perform (n + 1) (.invoke label callable args receiver) m = .ok v m') :
    ∃ m₁, BodyEnds ⟨n + 1, .invoke label callable args receiver, m, γ⟩ m₁ := by
  obtain ⟨e, m₁, m₂, m₃, hc, h⟩ := course_of_leads (leads_of_run h) trivial
  cases h with
  | inside hb _ =>
      obtain ⟨m₄, hb, -⟩ := Surroundings.run_eq_ok.1 hb
      exact ⟨m₄, _, _, .inside n.succ_pos hc.leads, Nat.lt_succ_self _, hb⟩

/-- The moment is a call that passes the variable `x` for the reference parameter `q`. -/
structure Lends (a : Moment) (callable : Callable) (args : List Expr) (x q : String) : Prop where
  /-- The routine or closure is called with the arguments. -/
  invokes : ∃ label receiver, a.task = .invoke label callable args receiver
  /-- The parameters have different names. -/
  distinct : (callable.routine.params.map Param.name).Nodup
  /-- The variable is the argument for the parameter. -/
  lent : (⟨q, true⟩, .variable x) ∈ callable.routine.params.zip args
  /-- The caller knows the variable. -/
  bound : a.machine.store.lookup a.machine.environment x ≠ none

theorem Lends.nodup {a : Moment} {x q : String} (h : a.Lends callable args x q)
    (harity : callable.routine.arity = args.length) :
    ((callable.routine.params.zip args).map fun p => p.1.name).Nodup := by
  have hzip : (callable.routine.params.zip args).map Prod.fst = callable.routine.params :=
    List.map_fst_zip (Nat.le_of_eq harity)
  have hname := h.distinct
  rw [← hzip, List.map_map] at hname
  exact hname

end Moment

/-- **When the parameters of a call have been bound, a reference parameter shares the slot of its
variable.** -/
theorem Course.sharing {x q : String} {m₂ m₃ : Machine}
    (hc : Course n callable args receiver e m m₁ m₂ m₃)
    (ha : isolation.before ⟨n + 1, .invoke label callable args receiver, m, γ⟩)
    (hl : Lends ⟨n + 1, .invoke label callable args receiver, m, γ⟩ callable args x q) :
    ∃ s b, Sharing ⟨n + 1, .invoke label callable args receiver, m, γ⟩ e x q m s m₃ b := by
  obtain ⟨hnew, hlt⟩ := hc.innermost
  have hp : Passes ⟨n + 1, .invoke label callable args receiver, m, γ⟩ m₂ :=
    .later n.succ_pos hc.leads_bind
  have ho : Opens ⟨n + 1, .invoke label callable args receiver, m, γ⟩
      ⟨n, .bind e (callable.routine.params.zip args), m₂, γ⟩ :=
    .call n.succ_pos hc.leads_bind
  have he : m₂.environment = m.environment := hp.level.environment
  have hev := hp.evolves ha
  have hx : m₂.store.lookup m₂.environment x ≠ none := fun hn =>
    hl.bound (hev.lookup_eq_none (he ▸ hn))
  have hout : e.innermost ∉ m₂.environment.scopes := fun hmem =>
    absurd (ha.2.1.there_innermost (he ▸ hmem)) (Nat.not_lt_of_le hnew)
  obtain ⟨s, b, hs⟩ := exists_sharing (.single ho)
    (isolation_kept.before_of_opens trivial ha ho) hc.bound (hl.nodup hc.arity) hl.lent hx hlt hout
  have hbefore := (hev.mono fun _ _ _ hy => hy.elim).trans hs.before fun _ _ _ hy => hy
  exact ⟨s, b, hs.closed, hbefore, he ▸ hs.lent, hs.bound, hs.after⟩

/-- **When the body ends, this is still so**, up to what the call has detached. -/
theorem Course.sharing_of_ended {x q : String} {m₂ m₃ m₄ : Machine} {status : Status}
    (hc : Course n callable args receiver e m m₁ m₂ m₃)
    (ha : isolation.before ⟨n + 1, .invoke label callable args receiver, m, γ⟩)
    (hl : Lends ⟨n + 1, .invoke label callable args receiver, m, γ⟩ callable args x q)
    (hb : perform n (.executeAll callable.routine.body)
      ((Surroundings.activation label callable e).enter m₃) = .ok status m₄) :
    ∃ s b, Sharing ⟨n + 1, .invoke label callable args receiver, m, γ⟩ e x q m s m₄ b := by
  obtain ⟨s, b, hs⟩ := hc.sharing ha hl
  have ho : Opens ⟨n + 1, .invoke label callable args receiver, m, γ⟩
      (Moment.inside ⟨n + 1, .invoke label callable args receiver, m, γ⟩
        (.activation label callable e) callable.routine.body m₃) :=
    .inside n.succ_pos hc.leads
  have hev := ((effects_kept ⟨n + 1, .invoke label callable args receiver, m, γ⟩).of_ok
    ⟨.single ho, isolation_kept.before_of_opens trivial ha ho⟩ trivial hb).1
  exact ⟨s, b, hs.trans (hev.mono fun _ _ _ hy => hy.2)⟩

end

/-- **The round trip of a reference parameter.**  After a call the caller reads from the variable
what the body has left in the parameter, as long as both stand for the same slot; and they do unless
the call detaches the variable. -/
theorem reference_round_trip {fuel : Nat} {p : Program} {m₀ : Machine} {a : Moment}
    (h : Machine.Reaches fuel p m₀ a) {callable : Callable} {args : List Expr} {x q : String}
    (hl : a.Lends callable args x q) {r : a.task.Result}
    (hr : perform a.fuel a.task a.machine = .ok r m') :
    (∃ m, a.BodyEnds m) ∧ ∀ m, a.BodyEnds m →
      ∃ b σ, m'.store.lookup m'.environment x = some b ∧
        m.store.lookup m.environment q = some ⟨σ, true⟩ ∧
          (b.slot = σ ∧ m'.store.read m'.environment x = m.store.read m.environment q ∨
            b.slot ≠ σ ∧ ∃ y, a.Detaches x y) := by
  have ha := h.isolated
  obtain ⟨n, t, m, γ⟩ := a
  obtain ⟨label, receiver, rfl⟩ := hl.invokes
  cases n with
  | zero => cases hr
  | succ n =>
      refine ⟨exists_bodyEnds hr, fun m₄ hm => ?_⟩
      obtain ⟨e, m₁, m₂, m₃, status, hc, hb⟩ := hm.course
      obtain ⟨s, b, hs⟩ := hc.sharing_of_ended ha hl hb
      have hkeeps := Ends.keeps (.inl ⟨r, hr⟩) ha
      have henv : m'.environment = m.environment := (level_of_perform_eq_ok hr).environment
      have he : m₄.environment = e := (level_of_perform_eq_ok hb).environment
      obtain rfl := hc.result hb hr
      obtain ⟨b', hx, hcases⟩ := hs.lookup_variable ha hc.innermost.1 hkeeps
      have hq := hs.lookup_parameter
      rw [← henv] at hx
      rw [← he] at hq
      refine ⟨b', b.slot, hx, hq, hcases.imp ?_ id⟩
      rintro rfl
      have hstore : (m₄.leaveActivation m₃.environment).store = m₄.store := rfl
      refine ⟨rfl, ?_⟩
      rw [Store.read, Store.read, hstore, hq]
      exact congrArg (Option.map fun b => m₄.store.value b.slot) hx

/-- In the program with the reentry the closure calls a routine that calls the closure again, and
there its variable gets another slot. -/
theorem exists_reentry : ∃ a callable args r m' m, Machine.Reaches 60 .reentry (.initial {}) a ∧
    a.Lends callable args "x" "p" ∧ perform a.fuel a.task a.machine = .ok r m' ∧ a.BodyEnds m ∧
      m'.store.read m'.environment "x" ≠ m.store.read m.environment "p" := by
  have hd : ((Machine.replay 60 .reentry (.initial {})
      [1, 1, 1, 0, 0, 1, 1, 0, 1, 0, 0, 0, 0]).any fun a =>
        (a.task.invoked?.any fun i => decide ((i.1.routine.params.map Param.name).Nodup ∧
          (⟨"p", true⟩, .variable "x") ∈ i.1.routine.params.zip i.2 ∧
            a.machine.store.lookup a.machine.environment "x" ≠ none)) &&
        a.final?.any fun m' => a.openings.any fun b =>
          decide (a.context.callers.length < b.context.callers.length) &&
            b.final?.any fun m => decide
              ((m'.store.read m'.environment "x").map Value.printed ≠
                (m.store.read m.environment "p").map Value.printed)) = true := by
    decide +kernel
  obtain ⟨a, ha, hc⟩ := (Option.any_eq_true _ _).1 hd
  obtain ⟨hl, hr⟩ := Bool.and_eq_true_iff.1 hc
  obtain ⟨⟨callable, args⟩, hi, hl⟩ := (Option.any_eq_true _ _).1 hl
  obtain ⟨hnd, hmem, hx⟩ := of_decide_eq_true hl
  obtain ⟨m', hm', hr⟩ := (Option.any_eq_true _ _).1 hr
  obtain ⟨b, hb, hr⟩ := List.any_eq_true.1 hr
  obtain ⟨hlt, hr⟩ := Bool.and_eq_true_iff.1 hr
  obtain ⟨m, hm, hne⟩ := (Option.any_eq_true _ _).1 hr
  obtain ⟨r, hr⟩ := ok_of_final? hm'
  obtain ⟨w, hw⟩ := ok_of_final? hm
  exact ⟨a, callable, args, r, m', m, Machine.reaches_of_replay ha,
    ⟨Task.eq_of_invoked? hi, hnd, hmem, hx⟩, hr,
    ⟨b, w, mem_openings_iff.1 hb, of_decide_eq_true hlt, hw⟩,
    fun heq => of_decide_eq_true hne (congrArg (Option.map Value.printed) heq)⟩

/-- Without the exception there is no round trip: another activation of the closure that makes the
call gives the variable a slot of its own. -/
theorem reference_round_trip_rebound :
    ¬∀ (fuel : Nat) (p : Program) (m₀ : Machine) (a : Moment) (callable : Callable)
      (args : List Expr) (x q : String) (r : a.task.Result) (m' m : Machine),
        Machine.Reaches fuel p m₀ a → a.Lends callable args x q →
          perform a.fuel a.task a.machine = .ok r m' → a.BodyEnds m →
            m'.store.read m'.environment x = m.store.read m.environment q := by
  intro h
  obtain ⟨a, callable, args, r, m', m, ha, hl, hr, hm, hne⟩ := exists_reentry
  exact hne (h 60 .reentry (.initial {}) a callable args "x" "p" r m' m ha hl hr hm)

/-- The call in question detaches the variable. -/
theorem reference_round_trip_reentry : ∃ a callable args r m' y,
    Machine.Reaches 60 .reentry (.initial {}) a ∧ a.Lends callable args "x" "p" ∧
      perform a.fuel a.task a.machine = .ok r m' ∧ a.Detaches "x" y := by
  obtain ⟨a, callable, args, r, m', m, ha, hl, hr, hm, hne⟩ := exists_reentry
  obtain ⟨b, σ, -, -, ⟨-, heq⟩ | ⟨-, y, hy⟩⟩ := (reference_round_trip ha hl hr).2 m hm
  · exact absurd heq hne
  · exact ⟨a, callable, args, r, m', y, ha, hl, hr, hy⟩

end ProtoScript
