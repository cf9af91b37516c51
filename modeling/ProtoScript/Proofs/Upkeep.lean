import ProtoScript.Proofs.Effects
/-!
# Upkeep

What a run keeps up in its store often has one form: every change of the store
keeps it if the values that are stored are good, and the values that a task gives
are good because they are read, copied or new.  Such an `Upkeep` is judged by the
changes of the store alone (`Upkeep.Lawful`); the steps of scripts make no other
changes, so every script keeps it (`Upkeep.Lawful.kept`).

Plain values are always good.  Whether an object is good depends on the store in
which it is looked at.  Whether a closure is good may depend on the store from
which on it has been made, for a closure that is stored is most often new.
-/

namespace ProtoScript

/-- What a run keeps up in its store. -/
structure Upkeep where
  /-- How a later store is related to the store at a moment. -/
  during : Store → Store → Prop
  /-- Which objects a store may be asked about. -/
  object : Store → Address .object → Prop
  /-- Which closures a task may give that started on the first store and ends on the second. -/
  closure : Store → Store → Closure → Prop

namespace Upkeep

/-- The values that a task may give that started on the first store and ends on the second. -/
def value (U : Upkeep) (s₀ s : Store) : Value → Prop
  | .object o => U.object s o
  | .closure c => U.closure s₀ s c
  | _ => True

/-- The tasks that may be performed on a store. -/
def Fits (U : Upkeep) (s : Store) : Task → Prop
  | .invoke _ _ _ (some o) => U.object s o
  | .bind e _ => e.innermost.index < s.scopes.size
  | _ => True

/-- An upkeep that every change of the store observes. -/
structure Lawful (U : Upkeep) : Prop where
  /-- A store that has been reached is good to go on from. -/
  refl : ∀ {s₀ s}, U.during s₀ s → U.during s s
  trans : ∀ {s₀ s s'}, U.during s₀ s → U.during s s' → U.during s₀ s'
  /-- An object stays good. -/
  object_mono : ∀ {s s' o}, U.during s s' → U.object s o → U.object s' o
  /-- A closure that is new is new for earlier stores. -/
  closure_since : ∀ {s₀ s s' c}, U.during s₀ s → U.closure s s' c → U.closure s₀ s' c
  /-- An object that is held is good. -/
  held : ∀ {s p o}, U.during s s → s.content? p = some (.object o) → U.object s o
  /-- An object that is a prototype is good. -/
  proto : ∀ {s o p}, U.during s s → (s.object o).proto = some p → U.object s p
  /-- A closure may be copied. -/
  copy : ∀ {s s' c w}, s.Closed → U.during s s → s.copy (.closure c) = some (w, s') →
    U.during s s' ∧ U.value s s' w
  /-- A closure may be released. -/
  release : ∀ {s s' c w}, s.Closed → U.during s s → s.release (.closure c) = some (w, s') →
    U.during s s' ∧ U.value s s' w
  /-- A closure may be made. -/
  capture : ∀ {s s' e x}, s.Closed → U.during s s → s.snapshot e = some (x, s') →
    U.during s s' ∧ ∀ id r byRef, U.closure s s' ⟨id, r, x, byRef⟩
  /-- A scope may be made. -/
  newScope : ∀ {s}, U.during s s → U.during s (s.newScope ∅)
  /-- An object may be made. -/
  newObject : ∀ {s}, U.during s s → U.during s s.newObject ∧ U.object s.newObject s.objects.fresh
  /-- A value may be bound in a scope that is older than the value. -/
  create : ∀ {s₀ s : Store} {x : Address .scope} {v}, s.Closed → U.during s₀ s →
    x.index < s₀.scopes.size → U.value s₀ s v → ∀ name, U.during s₀ (s.create x name v)
  /-- A slot may be referred to. -/
  share : ∀ {s}, U.during s s → ∀ x name slot, U.during s (s.share x name slot)
  /-- A value may be assigned in an environment that is older than the value. -/
  assign : ∀ {s₀ s : Store} {e : Environment} {v X W}, s₀.Closed → s.Closed → U.during s₀ s →
    (∀ x ∈ e.scopes, x.index < s₀.scopes.size) → s₀.Evolves (fun _ _ => False) X W s →
      U.value s₀ s v → ∀ name, U.during s₀ (s.assign e name v)
  /-- A value may be stored in a field. -/
  setField : ∀ {s₀ s : Store} {name : String} {v}, s.Closed → U.during s₀ s →
    name ≠ Store.protoName → U.value s₀ s v → ∀ o, U.during s₀ (s.setField o name v)
  /-- A prototype may be given that does not have the object on its chain, or taken away. -/
  setProto : ∀ {s o p}, U.during s s → (∀ q, p = some q → U.object s q ∧ o ∉ s.chain q) →
    U.during s (s.setProto o p)

/-- The contract of an upkeep: a task may be performed on a good store, and gives good values, but
for the values of several expressions, of which the first are old when the last is found. -/
def contract (U : Upkeep) : Contract where
  before a := U.during a.machine.store a.machine.store ∧ U.Fits a.machine.store a.task
  during a m := U.during a.machine.store m.store
  result a r m := (∀ l, a.task ≠ .evaluateAll l) →
    ∀ v ∈ a.task.values r, U.value a.machine.store m.store v

variable {U : Upkeep} {s₀ s s' : Store} {v w : Value}

theorem value_of_plain (h : v.Plain) : U.value s₀ s v := by
  cases v with
  | closure c => exact h.elim
  | object o => exact h.elim
  | _ => trivial

namespace Lawful

theorem value_since (hU : U.Lawful) (h : U.during s₀ s) (hv : U.value s s' v) :
    U.value s₀ s' v := by
  cases v with
  | closure c => exact hU.closure_since h hv
  | object o => exact hv
  | _ => trivial

theorem storeFor (hU : U.Lawful) (h : U.during s₀ s) (callable : Callable) :
    U.during s₀ (Eval.storeFor s callable) := by
  have h₁ := hU.trans h (hU.newScope (hU.refl h))
  cases callable with
  | function r => exact h₁
  | closure c => exact hU.trans h₁ (hU.newScope (hU.refl h₁))

/-- A machine may be taken in somewhere. -/
theorem during_enter (hU : U.Lawful) (p : Surroundings) {m : Machine} (h : U.during s₀ m.store) :
    U.during s₀ (p.enter m).store := by
  cases p with
  | block => exact hU.trans h (hU.newScope (hU.refl h))
  | activation => exact h

/-- A value that is good in the store may be copied. -/
theorem copied (hU : U.Lawful) {m m' : Machine} (hc : m.store.Closed)
    (h : U.during m.store m.store) (hv : ∀ o, v = .object o → U.object m.store o)
    (hx : Eval.copied v m = .ok w m') : U.during m.store m'.store ∧ U.value m.store m'.store w := by
  obtain ⟨s, hs, rfl⟩ := Eval.copied_eq_ok hx
  cases v with
  | closure c => exact hU.copy hc h hs
  | object o =>
      cases hs
      exact ⟨h, hv o rfl⟩
  | _ =>
      cases hs
      exact ⟨h, trivial⟩

theorem released (hU : U.Lawful) {m m' : Machine} (hc : m.store.Closed)
    (h : U.during m.store m.store) (hv : ∀ o, v = .object o → U.object m.store o)
    (hx : Eval.released v m = .ok w m') :
    U.during m.store m'.store ∧ U.value m.store m'.store w := by
  obtain ⟨s, hs, rfl⟩ := Eval.released_eq_ok hx
  cases v with
  | closure c => exact hU.release hc h hs
  | object o =>
      cases hs
      exact ⟨h, hv o rfl⟩
  | _ =>
      cases hs
      exact ⟨h, trivial⟩

/-- What is held is good where it is an object. -/
theorem object_of_contains (hU : U.Lawful) {o : Address .object} (h : U.during s s)
    (hv : s.Contains (.object o)) : U.object s o := by
  obtain ⟨p, hp⟩ := hv fun hplain => hplain
  exact hU.held h hp

variable {a : Moment} {m m' : Machine}

/-- What is known of the values that a script holds. -/
def Good (U : Upkeep) : Provenance → Moment → Machine → Value → Prop
  | .listed, _, _, _ => True
  | _, a, m, v => U.value a.machine.store m.store v

/-- Such values are a result. -/
theorem accepts (U : Upkeep) (a : Moment) (m : Machine) : U.contract.Accepts (Good U) a m := by
  intro r hv hne v hv'
  obtain ⟨n, t, m₀, γ⟩ := a
  cases t with
  | evaluateAll l => exact absurd rfl (hne l)
  | _ => exact hv v hv'

/-- Values that a task gives are such. -/
theorem good_of_result (hU : U.Lawful) {t : Task} {r : t.Result}
    (h : U.during a.machine.store m.store) (hv : U.contract.result (a.call t m) r m') :
    ∀ v ∈ t.values r, Good U t.provenance a m' v := by
  intro v hv'
  cases t with
  | evaluateAll l => trivial
  | _ => exact hU.value_since h (hv nofun v hv')

/-- A task may be called for that fits. -/
theorem allows (hU : U.Lawful) {P : Moment → Prop} {t : Task} (h : U.contract.At P a m)
    (ht : U.Fits m.store t) : U.contract.Allows P a t m :=
  fun _ _ => ⟨⟨hU.refl h.during, ht⟩, fun _ => hU.trans h.during⟩

/-- Statements may be executed elsewhere. -/
theorem allowsInside (hU : U.Lawful) {P : Moment → Prop} {p : Surroundings} {l : List Stmt}
    (h : U.contract.At P a m) : U.contract.AllowsInside P a p l m := by
  have hm := hU.during_enter p h.during
  refine fun _ _ => ⟨⟨hU.refl hm, trivial⟩, fun m' hm' => ?_⟩
  cases p <;> exact hU.trans hm hm'

/-- A good value may be copied. -/
theorem copied_of_value (hU : U.Lawful) (hc : m.store.Closed)
    (h : U.during a.machine.store m.store) (hv : U.value a.machine.store m.store v)
    (hw : Eval.copied v m = .ok w m') :
    U.during a.machine.store m'.store ∧ U.value a.machine.store m'.store w := by
  have ho : ∀ o, v = .object o → U.object m.store o := fun o ho => by
    rw [ho] at hv
    exact hv
  obtain ⟨hd, hw⟩ := hU.copied hc (hU.refl h) ho hw
  exact ⟨hU.trans h hd, hU.value_since h hw⟩

/-- What a task calls for fits. -/
theorem fits_of_asks {t : Task} (h : U.contract.At isolation.before a m) (ht : a.task.Asks t) :
    U.Fits m.store t := by
  have hfits := h.before.2
  generalize he : a.task = t' at ht hfits
  cases ht with
  | parameters e q l => exact Nat.lt_of_lt_of_le hfits (h.passes.keeps h.within).scopes_le
  | _ => trivial

/-- **The steps of scripts keep up a lawful upkeep.** -/
theorem stepwise (hU : U.Lawful) : U.contract.Stepwise isolation.before (Good U) where
  opens ha hb := isolation_kept.before_of_opens trivial ha hb
  start _ _ ha := ha.1
  still {a m m'} h hs _ := by
    change U.during a.machine.store m'.store
    rw [hs]
    exact h.during
  plain hv o := by
    cases o with
    | listed => trivial
    | _ => exact value_of_plain hv
  operand hv := hv
  listed _ _ _ := trivial
  result _ _ := accepts _ _ _
  asks h ht := hU.allows h (fits_of_asks h ht)
  invokes {a label callable args receiver m} h _ hr := by
    refine hU.allows h ?_
    cases receiver with
    | none => trivial
    | some o => exact hr o rfl
  answer h _ _ _ hv := hU.good_of_result h.during hv
  copied {a m m' v w} h hv hw := by
    have hr := hU.refl h.during
    obtain ⟨hd, hw⟩ := hU.copied (h.passes.keeps h.within).closed hr
      (fun o ho => hU.object_of_contains hr (ho ▸ hv)) hw
    exact ⟨hU.trans h.during hd, hU.value_since h.during hw⟩
  prototype h hq := hU.proto (hU.refl h.during) hq
  capture h hc := by
    obtain ⟨hd, hv⟩ := hU.capture h.within.1 h.before.1 hc.snapshot
    exact ⟨hd, hv _ _ _⟩
  newObject h := by
    obtain ⟨hd, ho⟩ := hU.newObject (hU.refl h.during)
    exact ⟨hU.trans h.during hd, ho⟩
  activate {a label callable args receiver m} h _ hs _ := by
    change U.during a.machine.store m.store
    rw [hs]
    exact hU.storeFor h.before.1 callable
  receive {a label callable args o m} h ht hs := by
    have hin := Eval.innermost_lt_storeFor a.machine.store callable
    rw [← hs] at hin
    have ho := h.before.2
    rw [ht] at ho
    exact hU.trans h.during (hU.create (v := .object o) (h.passes.keeps h.within).closed
      (hU.refl h.during) hin (hU.object_mono h.during ho) _)
  parameters {a label callable args receiver m} h _ hs _ := by
    have hk := Isolation.keeps_storeWith h.within.1 callable receiver
    refine hU.allows h (Nat.lt_of_lt_of_le (Eval.innermost_lt_storeFor _ _) ?_)
    rw [hs]
    exact hk.scopes_le
  body _ _ _ h' _ := hU.allowsInside h'
  block h _ := hU.allowsInside h
  outside {a p l status m m'} h _ _ _ hv v hv' := by
    have hgood := hU.value_since (hU.during_enter p h.during) (hv nofun v hv')
    cases p <;> exact hgood
  bind {a e p arg l m v} h ht hv := by
    have hin := h.before.2
    rw [ht] at hin
    exact hU.create (h.passes.keeps h.within).closed h.during hin hv _
  bindCopy {a e p arg l m m' v w} h ht hv hw := by
    have hin := h.before.2
    rw [ht] at hin
    have hc := (h.passes.keeps h.within).closed
    obtain ⟨hd, hw'⟩ := hU.copied_of_value hc h.during hv hw
    exact hU.create (Eval.closed_of_copied hc hw) hd hin hw' _
  share h _ _ := hU.trans h.during (hU.share (hU.refl h.during) _ _ _)
  assign {a name e m m' v} h₁ ht hs ho hr h _ hv := by
    refine ⟨?_, accepts _ _ _⟩
    have hi := isolation_kept.before_of_opens trivial h₁.within ho
    have hev := Moment.Ends.evolves (.inl ⟨v, hr⟩) hi
    rw [show (a.call (.evaluate e) m).machine.store = a.machine.store from hs] at hev
    refine hU.assign h.within.1 (h.passes.keeps h.within).closed h.during (fun x hx => ?_) hev hv
      name
    rw [h.passes.level.environment] at hx
    exact h.within.2.1.there_innermost hx
  setProto h hp := hU.trans h.during (hU.setProto (hU.refl h.during) hp)
  setField {a m m' o name v w} h hn hv hw := by
    have hc := (h.passes.keeps h.within).closed
    obtain ⟨hd, hw'⟩ := hU.copied_of_value hc h.during hv hw
    exact hU.setField (Eval.closed_of_copied hc hw) hd hn hw' o
  released {a m m' v w} h hv hw := by
    obtain ⟨hd, hw⟩ := hU.released (h.passes.keeps h.within).closed (hU.refl h.during)
      (fun o ho => by
        rw [ho] at hv
        exact hv) hw
    exact ⟨hU.trans h.during hd, hU.value_since h.during hw⟩

/-- **Every script keeps a lawful upkeep.** -/
theorem kept (hU : U.Lawful) : U.contract.Kept isolation.before :=
  hU.stepwise.kept

/-- **A lawful upkeep that holds of the store with one empty scope holds at every moment.** -/
theorem before_of_reaches (hU : U.Lawful)
    (h₀ : U.during ((∅ : Store).newScope ∅) ((∅ : Store).newScope ∅)) {fuel : Nat} {p : Program}
    {m : Machine} {a : Moment} (h : Machine.Reaches fuel p m a) : U.contract.before a := by
  induction h with
  | main _ _ => exact ⟨h₀, trivial⟩
  | opens h hb ih => exact hU.kept.before_of_opens h.isolated ih hb

/-- What a task has kept up when it ends. -/
theorem during_of_ends (hU : U.Lawful) (hi : isolation.before a) (ha : U.contract.before a)
    (hm : a.Ends m) : U.during a.machine.store m.store := by
  obtain ⟨r, hr⟩ | ⟨f, hf⟩ := hm
  · exact (hU.kept.of_ok hi ha hr).1
  · exact hU.kept.of_failed hi ha hf

end Lawful
end Upkeep
end ProtoScript
