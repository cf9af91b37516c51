import ProtoScript.Golden
/-!
# Golden runs

A check of a directory writes records and nothing else, and no check of a case
reads the record of another one: the names of scripts, inputs and records end
differently.  So each case is judged as if it were the only one (`Settles`),
although the records of earlier cases have been written by then.

A record that has just been written is the transcript and a line feed, and a
comparison overlooks blanks at the end.  So a second check finds nothing to
change and judges every case as before, be it to renew the records or to
compare them.
-/

namespace ProtoScript
namespace Golden

/-! ### Names of files -/

/-- Two names that end in different characters. -/
theorem append_ne_append {s t : String} {x y : Char} (hs : s.toList.getLast? = some x)
    (ht : t.toList.getLast? = some y) (hxy : x ≠ y) (a b : String) : a ++ s ≠ b ++ t := by
  intro h
  have hlast := congrArg (fun name : String => name.toList.getLast?) h
  simp only [String.toList_append, List.getLast?_append, hs, ht, Option.some_or] at hlast
  exact hxy (Option.some.inj hlast)

theorem record_ne_script (a b : String) : a ++ ".out" ≠ b ++ ".br" :=
  append_ne_append (x := 't') (y := 'r') rfl rfl (by decide) a b

theorem record_ne_input (a b : String) : a ++ ".out" ≠ b ++ ".in" :=
  append_ne_append (x := 't') (y := 'n') rfl rfl (by decide) a b

/-- What stands under a name that does not end with a point. -/
theorem node?_append (d : Directory) (a : String) {s : String} {x : Char}
    (hs : s.toList.getLast? = some x) (hx : x ≠ '.') : d.node? (a ++ s) = d.get? (a ++ s) := by
  have hne : a ++ s ≠ Directory.around :=
    append_ne_append (t := "..") (y := '.') hs rfl hx a ""
  rw [Directory.node?, if_neg hne]

namespace Case

variable (d : Directory) (c : Case)

theorem node?_script : d.node? c.script = d.get? (c.name ++ ".br") :=
  node?_append d c.name (x := 'r') rfl (by decide)

variable {c} (h : c.name ≠ ".")
include h

theorem expected_eq : c.expected = c.name ++ ".out" := if_neg h

theorem node?_expected : d.node? c.expected = d.get? (c.name ++ ".out") := by
  rw [c.expected_eq h]
  exact node?_append d c.name (x := 't') rfl (by decide)

theorem node?_input : d.node? c.input = d.get? (c.name ++ ".in") := by
  have hinput : c.input = c.name ++ ".in" := if_neg h
  rw [hinput]
  exact node?_append d c.name (x := 'n') rfl (by decide)

end Case

/-- **A script is a name before the suffix.** -/
theorem stem?_eq_some_iff {file name : String} :
    stem? file = some name ↔ name ≠ "" ∧ file = name ++ ".br" := by
  unfold stem?
  constructor
  · intro h
    obtain ⟨⟨hlength, stem, hstem⟩, hname⟩ := Option.ite_none_right_eq_some.1 h
    rw [← hstem, List.length_append, Nat.add_sub_cancel, List.take_left] at hname
    obtain rfl := Option.some.inj hname
    rw [← hstem, List.length_append] at hlength
    refine ⟨fun hempty => ?_, String.toList_injective ?_⟩
    · have hnil : stem = [] := by simpa using congrArg String.toList hempty
      rw [hnil] at hlength
      exact absurd hlength (by decide)
    · rw [String.toList_append, String.toList_ofList, ← hstem]
      rfl
  · rintro ⟨hname, rfl⟩
    have htext : (name ++ ".br").toList = name.toList ++ scriptSuffix := String.toList_append
    have hpos : 0 < name.toList.length :=
      List.length_pos_iff.2 fun h => hname (String.toList_injective h)
    simp only [htext, List.length_append, Nat.add_sub_cancel, List.take_left]
    rw [if_pos ⟨by omega, List.suffix_append _ _⟩, String.ofList_toList]

/-! ### The cases of a directory -/

theorem mem_cases_iff {d : Directory} {c : Case} :
    c ∈ cases d ↔ c.name ≠ "" ∧ (d.get? (c.name ++ ".br")).isSome := by
  simp only [cases, List.mem_filterMap, List.mem_mergeSort, Option.map_eq_some_iff]
  constructor
  · rintro ⟨file, hfile, name, hname, rfl⟩
    obtain ⟨hne, rfl⟩ := stem?_eq_some_iff.1 hname
    exact ⟨hne, (d.mem_keys_iff _).1 hfile⟩
  · rintro ⟨hne, hsome⟩
    exact ⟨c.name ++ ".br", (d.mem_keys_iff _).2 hsome, c.name, stem?_eq_some_iff.2 ⟨hne, rfl⟩, rfl⟩

/-- The scripts of the cases are the files that are scripts. -/
theorem map_script_filterMap (l : List String) :
    (l.filterMap fun file => (stem? file).map Case.mk).map Case.script
      = l.filter fun file => (stem? file).isSome := by
  induction l with
  | nil => rfl
  | cons file l ih =>
      cases h : stem? file with
      | none => simp [h, ih]
      | some name =>
          have hscript : Case.script ⟨name⟩ = file := (stem?_eq_some_iff.1 h).2.symm
          simp [h, ih, hscript]

/-- **The cases come in the order of the names of their scripts.** -/
theorem sorted_cases (d : Directory) : ((cases d).map Case.script).Pairwise (· < ·) := by
  have hle : (d.keys.mergeSort fun a b => decide (a ≤ b)).Pairwise (· ≤ ·) := by
    have htrans : ∀ a b c : String, decide (a ≤ b) = true → decide (b ≤ c) = true →
        decide (a ≤ c) = true := fun a b c hab hbc =>
      decide_eq_true (String.le_trans (of_decide_eq_true hab) (of_decide_eq_true hbc))
    have htotal : ∀ a b : String, (decide (a ≤ b) || decide (b ≤ a)) = true := fun a b => by
      simpa using String.le_total a b
    exact (List.pairwise_mergeSort htrans htotal d.keys).imp of_decide_eq_true
  have hne : (d.keys.mergeSort fun a b => decide (a ≤ b)).Pairwise (· ≠ ·) :=
    (List.mergeSort_perm _ _).nodup_iff.2 d.nodup_keys
  rw [cases, map_script_filterMap]
  refine List.Pairwise.filter _ ((hle.and hne).imp fun {a b} h => ?_)
  exact String.not_le.1 fun hba => h.2 (String.le_antisymm h.1 hba)

theorem nodup_cases (d : Directory) : ((cases d).map Case.name).Nodup := by
  have h := List.pairwise_map.1 (sorted_cases d)
  refine List.pairwise_map.2 (h.imp fun {a b} hab hname => ?_)
  have hscript : a.script = b.script := congrArg (· ++ ".br") hname
  exact absurd hab (hscript ▸ String.lt_irrefl _)

/-- Directories with the same scripts have the same cases. -/
theorem cases_congr {d d' : Directory}
    (h : ∀ name, (d'.get? (name ++ ".br")).isSome = (d.get? (name ++ ".br")).isSome) :
    cases d' = cases d := by
  have hmem : ∀ c, c ∈ cases d' ↔ c ∈ cases d := fun c => by
    rw [mem_cases_iff, mem_cases_iff, h]
  have hscript : ∀ a b : Case, a.script = b.script → a = b := fun ⟨a⟩ ⟨b⟩ hab =>
    congrArg Case.mk ((String.append_left_inj ".br").1 hab)
  have hnodup : ∀ e : Directory, ((cases e).map Case.script).Nodup := fun e =>
    (sorted_cases e).imp String.ne_of_lt
  have hperm : ((cases d').map Case.script).Perm ((cases d).map Case.script) := by
    refine (List.perm_ext_iff_of_nodup (hnodup d') (hnodup d)).2 fun file => ?_
    simp only [List.mem_map, hmem]
  have hmap : (cases d').map Case.script = (cases d).map Case.script :=
    hperm.eq_of_pairwise
      (fun a b _ _ hab hba => absurd (String.lt_trans hab hba) (String.lt_irrefl _))
      (sorted_cases d') (sorted_cases d)
  exact (List.map_inj_right hscript).1 hmap

/-! ### The check of a case -/

/-- What the script of a case prints, on the lines of its input or on none. -/
inductive Yields (fuel : Nat) (d : Directory) (c : Case) : String → Prop where
  /-- There is an input. -/
  | input {source input : String} (hs : d.get? (c.name ++ ".br") = some (.file source))
      (hi : d.get? (c.name ++ ".in") = some (.file input)) :
      Yields fuel d c (transcript fuel source (Text.recordedLines input))
  /-- There is no input. -/
  | silent {source : String} (hs : d.get? (c.name ++ ".br") = some (.file source))
      (hi : d.get? (c.name ++ ".in") = none) : Yields fuel d c (transcript fuel source [])

/-- What a transcript does to the record of a case, and how it differs from it. -/
inductive Judged (update : Bool) (text : String) :
    (before after : Option Node) → (message : Option String) → Prop where
  /-- The record is compared. -/
  | compared {record : String} (hu : update = false) :
      Judged update text (some (.file record)) (some (.file record)) (difference record text)
  /-- The transcript is recorded. -/
  | recorded {before : Option Node} (hb : update = true ∨ before = none)
      (hf : before ≠ some .folder) :
      Judged update text before (some (.file (text ++ "\n"))) none

variable {fuel : Nat} {update : Bool} {d d' : Directory} {c : Case} {text : String}

theorem Yields.congr (h : Yields fuel d c text)
    (hs : d'.get? (c.name ++ ".br") = d.get? (c.name ++ ".br"))
    (hi : d'.get? (c.name ++ ".in") = d.get? (c.name ++ ".in")) : Yields fuel d' c text := by
  cases h with
  | input hs' hi' => exact .input (hs.trans hs') (hi.trans hi')
  | silent hs' hi' => exact .silent (hs.trans hs') (hi.trans hi')

/-- A script prints one text. -/
theorem Yields.unique {other : String} (h : Yields fuel d c text) (h' : Yields fuel d c other) :
    text = other := by
  cases h with
  | input hs hi =>
      cases h' with
      | input hs' hi' => cases hs.symm.trans hs'; cases hi.symm.trans hi'; rfl
      | silent hs' hi' => cases hi.symm.trans hi'
  | silent hs hi =>
      cases h' with
      | input hs' hi' => cases hi.symm.trans hi'
      | silent hs' hi' => cases hs.symm.trans hs'; rfl

theorem find?_eq_ok_iff {name : String} {o : Option String} :
    d.find? name = .ok o ↔ d.node? name = o.map Node.file := by
  unfold Directory.find?
  split
  · next t h => cases o <;> simp [h]
  · next h => cases o <;> simp [h]
  · next h => cases o <;> simp [h]

theorem read_eq_ok_iff {name source : String} :
    d.read name = .ok source ↔ d.node? name = some (.file source) := by
  unfold Directory.read
  cases h : d.find? name with
  | error e =>
      constructor
      · intro hs
        cases hs
      · intro hs
        have hfind : d.find? name = .ok (some source) := find?_eq_ok_iff.2 hs
        rw [hfind] at h
        cases h
  | ok o =>
      rw [find?_eq_ok_iff.1 h]
      cases o <;> simp [bind, Except.bind, pure, Except.pure]

/-- **The transcript of a case.**  Nothing belongs to the script `..br`. -/
theorem actual_eq_ok_iff :
    actual fuel d c = .ok text ↔ c.name ≠ "." ∧ Yields fuel d c text := by
  have hactual : actual fuel d c = (d.read c.script).bind fun source =>
      (d.find? c.input).bind fun input =>
        .ok (transcript fuel source ((input.map Text.recordedLines).getD [])) := rfl
  have hscript := c.node?_script d
  rw [hactual]
  by_cases hn : c.name = "."
  · have hinput : d.find? c.input = .error .isAFolder := by
      rw [Case.input, Case.companion, if_pos hn]
      rfl
    rw [hinput]
    refine ⟨fun h => ?_, fun h => absurd hn h.1⟩
    cases hs : d.read c.script <;> rw [hs] at h <;> cases h
  · have hinput := Case.node?_input d hn
    constructor
    · intro h
      refine ⟨hn, ?_⟩
      cases hs : d.read c.script with
      | error e => rw [hs] at h; cases h
      | ok source =>
          cases hi : d.find? c.input with
          | error e => rw [hs, hi] at h; cases h
          | ok input =>
              have hs' := hscript.symm.trans (read_eq_ok_iff.1 hs)
              have hi' := hinput.symm.trans (find?_eq_ok_iff.1 hi)
              rw [hs, hi] at h
              cases h
              cases input with
              | some input => exact .input hs' hi'
              | none => exact .silent hs' hi'
    · rintro ⟨-, h⟩
      cases h with
      | input hs hi =>
          rw [read_eq_ok_iff.2 (hscript.trans hs),
            (find?_eq_ok_iff (o := some _)).2 (hinput.trans hi)]
          rfl
      | silent hs hi =>
          rw [read_eq_ok_iff.2 (hscript.trans hs),
            (find?_eq_ok_iff (o := none)).2 (hinput.trans hi)]
          rfl

/-- The line feed after a record makes no difference. -/
theorem settled_append_lineFeed (text : String) : settled (text ++ "\n") = settled text := by
  have hblank : ∀ c ∈ ['\n'], Text.isBlank c = true :=
    List.forall_mem_singleton.2 (by decide)
  have htext : (text ++ "\n").toList = text.toList ++ ['\n'] := String.toList_append
  rw [settled, htext, Text.trimEnd_append_blank _ hblank, settled]

/-- A transcript does not differ from a record that was written for it. -/
theorem difference_written (text : String) : difference (text ++ "\n") text = none := by
  rw [difference, settled_append_lineFeed, if_pos rfl]

namespace Judged

variable {before after : Option Node} {message : Option String}

/-- A record that is not renewed is compared. -/
theorem message_eq {record : String} (h : Judged update text (some (.file record)) after message)
    (hu : update = false) : message = difference record text := by
  cases h with
  | compared _ => rfl
  | recorded hb _ => simp [hu] at hb

/-- A record that is new or renewed is the transcript and a line feed. -/
theorem after_eq (h : Judged update text before after message)
    (hnew : update = true ∨ before = none) :
    message = none ∧ after = some (.file (text ++ "\n")) := by
  cases h with
  | compared hu => simp [hu] at hnew
  | recorded _ _ => exact ⟨rfl, rfl⟩

theorem after_eq_or (h : Judged update text before after message) :
    after = before ∨ update = true ∨ before = none := by
  cases h with
  | compared _ => exact .inl rfl
  | recorded hb _ => exact .inr hb

/-- **A record that has been judged is judged as before**, and it stays. -/
theorem again {renew : Bool} (h : Judged update text before after message)
    (hrenew : renew = true → update = true) : Judged renew text after after message := by
  cases h with
  | compared hu =>
      have hcompare : renew = false := by
        cases renew with
        | true => exact absurd (hrenew rfl) (by simp [hu])
        | false => rfl
      exact .compared hcompare
  | recorded hb hf =>
      cases renew with
      | true => exact .recorded (.inl rfl) (by simp)
      | false =>
          have hcompared : Judged false text (some (.file (text ++ "\n")))
              (some (.file (text ++ "\n"))) (difference (text ++ "\n") text) := .compared rfl
          rwa [difference_written] at hcompared

end Judged

theorem recorded?_eq_ok_iff {record : Option String} : recorded? update d c = .ok record ↔
    update = true ∧ record = none ∨ update = false ∧ d.node? c.expected = record.map Node.file := by
  unfold recorded?
  cases update with
  | true => simp [eq_comm]
  | false => simp [find?_eq_ok_iff]

theorem write_eq_ok_iff {name : String} : d.write name text = .ok d' ↔
    d.node? name ≠ some .folder ∧ d' = d.insert name (.file text) := by
  unfold Directory.write
  split
  · next h => simp [h]
  · next h =>
      have hfolder : d.node? name ≠ some .folder := h
      simp [hfolder, eq_comm]

theorem check_eq_bind : check fuel update d c = (actual fuel d c).bind fun text =>
    (recorded? update d c).bind fun record => match record with
      | some expected => .ok (⟨c.name, difference expected text⟩, d)
      | none => (d.write c.expected (text ++ "\n")).bind fun d' => .ok (⟨c.name, none⟩, d') := rfl

theorem bind_eq_ok_iff {α β : Type} {x : Except FileProblem α} {f : α → Except FileProblem β}
    {b : β} : x.bind f = .ok b ↔ ∃ a, x = .ok a ∧ f a = .ok b := by
  cases x with
  | ok a => simp [Except.bind]
  | error e => simp [Except.bind]

theorem eq_ok_of_toOption {ε α : Type} {x : Except ε α} {a : α}
    (h : x.toOption = some a) : x = .ok a := by
  cases x with
  | ok b => exact congrArg Except.ok (Option.some.inj h)
  | error e => cases h

/-- **What the check of a case does**: it judges the transcript, and it touches the record alone. -/
theorem check_eq_ok {r : Result} (h : check fuel update d c = .ok (r, d')) :
    c.name ≠ "." ∧ r.name = c.name ∧ (∃ text, Yields fuel d c text ∧
      Judged update text (d.get? (c.name ++ ".out")) (d'.get? (c.name ++ ".out")) r.message) ∧
      ∀ name, name ≠ c.name ++ ".out" → d'.get? name = d.get? name := by
  rw [check_eq_bind] at h
  obtain ⟨text, hactual, h⟩ := bind_eq_ok_iff.1 h
  obtain ⟨record, hrecord, h⟩ := bind_eq_ok_iff.1 h
  obtain ⟨hn, hyields⟩ := actual_eq_ok_iff.1 hactual
  have hnode := Case.node?_expected d hn
  rw [recorded?_eq_ok_iff, hnode] at hrecord
  cases record with
  | some expected =>
      obtain ⟨-, hnone⟩ | ⟨hu, hrecord⟩ := hrecord
      · cases hnone
      · cases h
        rw [hrecord]
        exact ⟨hn, rfl, ⟨text, hyields, .compared hu⟩, fun _ _ => rfl⟩
  | none =>
      obtain ⟨e, hwrite, h⟩ := bind_eq_ok_iff.1 h
      rw [write_eq_ok_iff, hnode, Case.expected_eq hn] at hwrite
      obtain ⟨hfolder, rfl⟩ := hwrite
      cases h
      have hfresh : update = true ∨ d.get? (c.name ++ ".out") = none :=
        hrecord.imp And.left And.right
      refine ⟨hn, rfl, ⟨text, hyields, ?_⟩, fun name hname => FiniteMap.get?_insert_of_ne d hname _⟩
      rw [FiniteMap.get?_insert_self]
      exact .recorded hfresh hfolder

/-- A transcript is compared with a record that exists. -/
theorem check_of_record {record : String} (hn : c.name ≠ ".") (hy : Yields fuel d c text)
    (hr : d.get? (c.name ++ ".out") = some (.file record)) :
    check fuel false d c = .ok (⟨c.name, difference record text⟩, d) := by
  have hactual := actual_eq_ok_iff.2 ⟨hn, hy⟩
  have hnode := (Case.node?_expected d hn).trans hr
  have hrecord : recorded? false d c = .ok (some record) :=
    recorded?_eq_ok_iff.2 (.inr ⟨rfl, hnode⟩)
  rw [check_eq_bind, hactual]
  show (recorded? false d c).bind _ = _
  rw [hrecord]
  rfl

/-- A case is checked without a change if its record is already what it is to become. -/
theorem check_of_judged {message : Option String} (hn : c.name ≠ ".") (hy : Yields fuel d c text)
    (hj : Judged update text (d.get? (c.name ++ ".out")) (d.get? (c.name ++ ".out")) message) :
    ∃ d', check fuel update d c = .ok (⟨c.name, message⟩, d') ∧
      ∀ name, d'.get? name = d.get? name := by
  generalize hbefore : d.get? (c.name ++ ".out") = before at hj
  cases hj with
  | @compared record hu =>
      rw [hu]
      exact ⟨d, check_of_record hn hy hbefore, fun _ => rfl⟩
  | recorded hb hf =>
      have hu : update = true := hb.resolve_right (by simp)
      have hactual := actual_eq_ok_iff.2 ⟨hn, hy⟩
      have hrecord : recorded? update d c = .ok none := recorded?_eq_ok_iff.2 (.inl ⟨hu, rfl⟩)
      have hnode := Case.node?_expected d hn
      have hwrite : d.write c.expected (text ++ "\n")
          = .ok (d.insert c.expected (.file (text ++ "\n"))) := by
        refine write_eq_ok_iff.2 ⟨?_, rfl⟩
        rw [hnode, hbefore]
        exact hf
      rw [check_eq_bind, hactual, hrecord]
      refine ⟨d.insert c.expected (.file (text ++ "\n")), ?_, fun name => ?_⟩
      · show (d.write c.expected (text ++ "\n")).bind _ = _
        rw [hwrite]
        rfl
      · rw [FiniteMap.get?_insert]
        split
        · next hname => rw [hname, Case.expected_eq hn, hbefore]
        · rfl

/-! ### The check of all cases -/

/-- **Each case is judged by the directory before**, and what becomes of its record is found in the
directory afterwards, which holds everything else as it was. -/
structure Settles (fuel : Nat) (update : Bool) (l : List Case) (d : Directory)
    (results : List Result) (d' : Directory) : Prop where
  /-- Every case has files of its own. -/
  plain : ∀ c ∈ l, c.name ≠ "."
  /-- There is a verdict on each case. -/
  names : results.map Result.name = l.map Case.name
  /-- The verdict and the record of a case. -/
  judged : ∀ c r, (c, r) ∈ l.zip results → ∃ text, Yields fuel d c text ∧
    Judged update text (d.get? (c.name ++ ".out")) (d'.get? (c.name ++ ".out")) r.message
  /-- What is no record stays. -/
  kept : ∀ name, (∀ c ∈ l, name ≠ c.name ++ ".out") → d'.get? name = d.get? name

/-- **The check of a case does not matter to the cases after it.** -/
theorem Settles.cons {l : List Case} {results : List Result} {r : Result} {d₁ : Directory}
    (h : Settles fuel update l d₁ results d') (hc : check fuel update d c = .ok (r, d₁))
    (hnew : c.name ∉ l.map Case.name) : Settles fuel update (c :: l) d (r :: results) d' := by
  obtain ⟨hn, hr, ⟨text, hyields, hjudged⟩, hsame⟩ := check_eq_ok hc
  have hother : ∀ c' ∈ l, c'.name ++ ".out" ≠ c.name ++ ".out" := fun c' hc' he =>
    hnew ((String.append_left_inj ".out").1 he ▸ List.mem_map_of_mem hc')
  refine ⟨?_, ?_, ?_, ?_⟩
  · intro c' hc'
    rcases List.mem_cons.1 hc' with rfl | hc'
    · exact hn
    · exact h.plain c' hc'
  · rw [List.map_cons, List.map_cons, hr, h.names]
  · intro c' r' hp
    rw [List.zip_cons_cons] at hp
    rcases List.mem_cons.1 hp with he | hp
    · cases he
      refine ⟨text, hyields, ?_⟩
      rw [h.kept _ fun c' hc' he => hother c' hc' he.symm]
      exact hjudged
    · obtain ⟨text', hyields', hjudged'⟩ := h.judged c' r' hp
      have hrecord := hsame _ (hother c' (List.of_mem_zip hp).1)
      have hscript := hsame _ (record_ne_script c.name c'.name).symm
      have hinput := hsame _ (record_ne_input c.name c'.name).symm
      exact ⟨text', hyields'.congr hscript.symm hinput.symm, hrecord ▸ hjudged'⟩
  · intro name hname
    rw [h.kept name fun c' hc' => hname c' (List.mem_cons_of_mem _ hc')]
    exact hsame name (hname c List.mem_cons_self)

theorem settles_of_checkAll {l : List Case} {results : List Result}
    (hl : (l.map Case.name).Nodup) (h : checkAll fuel update l d = (.ok results, d')) :
    Settles fuel update l d results d' := by
  induction l generalizing d results with
  | nil =>
      cases h
      exact ⟨nofun, rfl, nofun, fun _ _ => rfl⟩
  | cons c l ih =>
      rw [checkAll] at h
      cases hc : check fuel update d c with
      | error e => rw [hc] at h; cases h
      | ok p =>
          obtain ⟨r, d₁⟩ := p
          cases hrest : checkAll fuel update l d₁ with
          | mk rest d₂ =>
              simp only [hc, hrest] at h
              cases rest with
              | error e => cases h
              | ok rest =>
                  cases h
                  obtain ⟨hnew, hl⟩ := List.nodup_cons.1 hl
                  exact (ih hl hrest).cons hc hnew

/-- **A check that finds every record as it is to become changes nothing.** -/
theorem checkAll_of_settles {l : List Case} {results : List Result}
    (h : Settles fuel update l d results d') (hd : ∀ name, d'.get? name = d.get? name)
    {e : Directory} (he : ∀ name, e.get? name = d.get? name) :
    ∃ e', checkAll fuel update l e = (.ok results, e') ∧ ∀ name, e'.get? name = d.get? name := by
  induction l generalizing results e with
  | nil =>
      obtain rfl : results = [] := List.map_eq_nil_iff.1 h.names
      exact ⟨e, rfl, he⟩
  | cons c l ih =>
      cases results with
      | nil => cases h.names
      | cons r results =>
          obtain ⟨hr, hnames⟩ := List.cons.inj h.names
          obtain ⟨text, hyields, hjudged⟩ := h.judged c r List.mem_cons_self
          rw [hd, ← he] at hjudged
          obtain ⟨e₁, hc, he₁⟩ := check_of_judged (h.plain c List.mem_cons_self)
            (hyields.congr (he _) (he _)) hjudged
          have hrest : Settles fuel update l d results d' :=
            ⟨fun c' hc' => h.plain c' (List.mem_cons_of_mem _ hc'), hnames,
              fun c' r' hp => h.judged c' r' (List.mem_cons_of_mem _ hp), fun name _ => hd name⟩
          obtain ⟨e', hl, he'⟩ := ih hrest fun name => (he₁ name).trans (he name)
          refine ⟨e', ?_, he'⟩
          have hresult : (⟨c.name, r.message⟩ : Result) = r := by rw [← hr]
          rw [checkAll, hc]
          simp only [hl, hresult]
          rfl

/-- **What a check leaves is settled**: with the same verdicts nothing remains to be changed, be it
to compare the records or, if they have been renewed, to renew them again. -/
theorem Settles.again {l : List Case} {results : List Result} {renew : Bool}
    (h : Settles fuel update l d results d') (hrenew : renew = true → update = true) :
    Settles fuel renew l d' results d' := by
  refine ⟨h.plain, h.names, fun c r hp => ?_, fun _ _ => rfl⟩
  obtain ⟨text, hyields, hjudged⟩ := h.judged c r hp
  have hscript : d'.get? (c.name ++ ".br") = d.get? (c.name ++ ".br") :=
    h.kept _ fun c' _ => (record_ne_script c'.name c.name).symm
  have hinput : d'.get? (c.name ++ ".in") = d.get? (c.name ++ ".in") :=
    h.kept _ fun c' _ => (record_ne_input c'.name c.name).symm
  exact ⟨text, hyields.congr hscript hinput, hjudged.again hrenew⟩

/-- A check of all cases. -/
theorem settles_of_run {results : List Result} (h : run fuel update d = (.ok results, d')) :
    Settles fuel update (cases d) d results d' := settles_of_checkAll (nodup_cases d) h

/-- A settled directory is checked without a change. -/
theorem run_of_settles {results : List Result} {renew : Bool}
    (h : Settles fuel update (cases d) d results d') (hrenew : renew = true → update = true) :
    ∃ e, run fuel renew d' = (.ok results, e) ∧ ∀ name, e.get? name = d'.get? name := by
  have hcases : cases d' = cases d := cases_congr fun name => by
    rw [h.kept _ fun c _ => (record_ne_script c.name name).symm]
  rw [run, hcases]
  exact checkAll_of_settles (h.again hrenew) (fun _ => rfl) fun _ => rfl

/-- What a check of a directory reports and writes. -/
structure Reports (fuel : Nat) (update : Bool) (d : Directory) (results : List Result)
    (d' : Directory) : Prop where
  /-- The cases are the scripts of the directory. -/
  scripts : ∀ c, c ∈ cases d ↔ c.name ≠ "" ∧ (d.get? (c.name ++ ".br")).isSome
  /-- They come in the order of their names. -/
  sorted : ((cases d).map Case.script).Pairwise (· < ·)
  /-- There is a verdict on each of them. -/
  names : results.map Result.name = (cases d).map Case.name
  /-- A case whose record exists and is not renewed is compared with it. -/
  compared : ∀ c r, (c, r) ∈ (cases d).zip results → update = false →
    ∀ record, d.get? (c.name ++ ".out") = some (.file record) →
      ∃ text, Yields fuel d c text ∧ r.message = difference record text
  /-- Any other case passes, and its record is its transcript and a line feed. -/
  recorded : ∀ c r, (c, r) ∈ (cases d).zip results →
    update = true ∨ d.get? (c.name ++ ".out") = none →
      r.passed = true ∧ ∃ text, Yields fuel d c text ∧
        d'.get? (c.name ++ ".out") = some (.file (text ++ "\n"))
  /-- Nothing else is written. -/
  kept : ∀ name, d'.get? name ≠ d.get? name →
    (update = true ∨ d.get? name = none) ∧ ∃ c ∈ cases d, name = c.name ++ ".out"

/-- The cases and the verdicts belong to one another. -/
theorem Settles.length_eq {l : List Case} {results : List Result}
    (h : Settles fuel update l d results d') : l.length = results.length := by
  simpa using congrArg List.length h.names.symm

/-- There is a verdict on every case. -/
theorem Settles.exists_result {l : List Case} {results : List Result}
    (h : Settles fuel update l d results d') (hc : c ∈ l) : ∃ r, (c, r) ∈ l.zip results := by
  rw [← List.map_fst_zip (Nat.le_of_eq h.length_eq)] at hc
  obtain ⟨⟨c, r⟩, hp, rfl⟩ := List.mem_map.1 hc
  exact ⟨r, hp⟩

/-- Every verdict is one on a case. -/
theorem Settles.exists_case {l : List Case} {results : List Result}
    (h : Settles fuel update l d results d') {r : Result} (hr : r ∈ results) :
    ∃ c, (c, r) ∈ l.zip results := by
  rw [← List.map_snd_zip (Nat.le_of_eq h.length_eq.symm)] at hr
  obtain ⟨⟨c, r⟩, hp, rfl⟩ := List.mem_map.1 hr
  exact ⟨c, hp⟩

theorem Settles.reports {results : List Result} (h : Settles fuel update (cases d) d results d') :
    Reports fuel update d results d' where
  scripts _ := mem_cases_iff
  sorted := sorted_cases d
  names := h.names
  compared c r hp hu record hrecord := by
    obtain ⟨text, hyields, hjudged⟩ := h.judged c r hp
    rw [hrecord] at hjudged
    exact ⟨text, hyields, hjudged.message_eq hu⟩
  recorded c r hp hnew := by
    obtain ⟨text, hyields, hjudged⟩ := h.judged c r hp
    obtain ⟨hmessage, hafter⟩ := hjudged.after_eq hnew
    exact ⟨by rw [Result.passed, hmessage]; rfl, text, hyields, hafter⟩
  kept name hname := by
    have hcase : ∃ c ∈ cases d, name = c.name ++ ".out" :=
      Classical.byContradiction fun hno =>
        hname (h.kept name fun c hc he => hno ⟨c, hc, he⟩)
    refine ⟨?_, hcase⟩
    obtain ⟨c, hc, rfl⟩ := hcase
    obtain ⟨r, hp⟩ := h.exists_result hc
    obtain ⟨text, -, hjudged⟩ := h.judged c r hp
    exact hjudged.after_eq_or.resolve_left hname

/-- **Golden runs are idempotent and write nothing but records.**  A check of a directory that comes
to its end reports what `Reports` says; another one finds nothing to change and comes to the same
verdicts; and once the records have been renewed, every case passes a comparison with them. -/
theorem golden_run_idempotent {results : List Result} (h : run fuel update d = (.ok results, d')) :
    Reports fuel update d results d' ∧
      (∃ e, run fuel update d' = (.ok results, e) ∧ ∀ name, e.get? name = d'.get? name) ∧
        (update = true → ∃ verdicts e, run fuel false d' = (.ok verdicts, e) ∧
          (∀ name, e.get? name = d'.get? name) ∧
            verdicts.map Result.name = (cases d).map Case.name ∧
              (∀ r ∈ verdicts, r.passed = true) ∧ exitCode verdicts = 0) := by
  have hsettles := settles_of_run h
  refine ⟨hsettles.reports, run_of_settles hsettles id, fun hu => ?_⟩
  obtain ⟨e, he, hsame⟩ := run_of_settles hsettles fun h : false = true => nomatch h
  have hpassed : ∀ r ∈ results, r.passed = true := fun r hr => by
    obtain ⟨c, hp⟩ := hsettles.exists_case hr
    exact (hsettles.reports.recorded c r hp (.inl hu)).1
  refine ⟨results, e, he, hsame, hsettles.names, hpassed, ?_⟩
  have hfailed : failed results = 0 := by
    rw [failed, List.countP_eq_zero]
    intro r hr
    simp [hpassed r hr]
  rw [exitCode, if_pos hfailed]

/-- A directory with three scripts: one fails and has no record yet, one is compared with a wrong
record, and one reads its input. -/
def sample : Directory := .ofList [
  ("notes", .folder),
  ("b.out", .file "hello!"),
  ("b.in", .file "hello\r\n"),
  ("b.br", .file "func main() \x7b print(inputs(), \"!\"); \x7d"),
  ("a.out", .file "2\n"),
  ("a.br", .file "func main() \x7b print(1); \x7d"),
  ("a.b.br", .file "func main() \x7b print(\"x\"); return y; \x7d")]

theorem cases_sample : cases sample = [⟨"a.b"⟩, ⟨"a"⟩, ⟨"b"⟩] := by
  have hsorted : sample.keys.Pairwise fun a b => decide (a ≤ b) = true := by decide +kernel
  rw [cases, List.mergeSort_of_pairwise hsorted]
  decide +kernel

/-- The wrong record stays and its case fails again; once the records are renewed every case
passes. -/
theorem golden_run_idempotent_sample :
    (∃ d' e, run 40 false sample =
        (.ok [⟨"a.b", none⟩, ⟨"a", some "Expected:\n2\nGot:\n1"⟩, ⟨"b", none⟩], d') ∧
      run 40 false d' =
        (.ok [⟨"a.b", none⟩, ⟨"a", some "Expected:\n2\nGot:\n1"⟩, ⟨"b", none⟩], e) ∧
      ∀ name, e.get? name = d'.get? name) ∧
    ∃ results d' verdicts e, run 40 true sample = (.ok results, d') ∧
      run 40 false d' = (.ok verdicts, e) ∧ exitCode verdicts = 0 := by
  -- The verdicts of a check of the sample are computed.
  have hrun : ∀ (renew : Bool) (results : List Result),
      (checkAll 40 renew [⟨"a.b"⟩, ⟨"a"⟩, ⟨"b"⟩] sample).1.toOption = some results →
        ∃ d', run 40 renew sample = (.ok results, d') := by
    intro renew results hresults
    refine ⟨(run 40 renew sample).2, Prod.ext ?_ rfl⟩
    rw [run, cases_sample]
    exact eq_ok_of_toOption hresults
  obtain ⟨d', hd'⟩ := hrun false
    [⟨"a.b", none⟩, ⟨"a", some "Expected:\n2\nGot:\n1"⟩, ⟨"b", none⟩] (by decide +kernel)
  obtain ⟨d'', hd''⟩ := hrun true
    [⟨"a.b", none⟩, ⟨"a", none⟩, ⟨"b", none⟩] (by decide +kernel)
  obtain ⟨-, ⟨e, he, hsame⟩, -⟩ := golden_run_idempotent hd'
  obtain ⟨-, -, hrenewed⟩ := golden_run_idempotent hd''
  obtain ⟨verdicts, e', he', -, -, -, hcode⟩ := hrenewed rfl
  exact ⟨⟨d', e, hd', he, hsame⟩, _, d'', verdicts, e', hd'', he', hcode⟩

end Golden
end ProtoScript
