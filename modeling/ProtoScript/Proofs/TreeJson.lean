import Mathlib.Data.List.Nodup
import Mathlib.Data.Option.Basic
import ProtoScript.CommandLine
import ProtoScript.Proofs.JsonText
/-!
# The JSON form of a tree denotes the tree

A tree is read from its JSON form exactly if the form nests no deeper than the
budget of the reader allows (`Expr.ofJson?_toJson` and its companions), since each
form of each type takes from the budget the brackets and braces that it writes.
With the texts of JSON values (`Json.read?_spaced`) a program goes out and back
unless its text nests too deep, and then it is refused.
-/

namespace ProtoScript
namespace Json

/-! ### Named parts -/

/-- A value that is read where the budget is enough for the depth of what it is read from. -/
def within {α : Type} (n depth : Nat) (x : α) : Option α := if depth ≤ n then some x else none

section

variable {α β : Type} (n d : Nat) (x : α)

@[simp] theorem within_zero : within n 0 x = some x := if_pos n.zero_le

@[simp] theorem zero_within : within 0 (d + 1) x = none := if_neg (Nat.not_succ_le_zero d)

@[simp] theorem within_succ : within (n + 1) (d + 1) x = within n d x := by
  simp only [within, Nat.add_le_add_iff_right]

@[simp] theorem within_max (d' : Nat) :
    within n (max d d') x = if d ≤ n then within n d' x else none := by
  simp only [within, Nat.max_le, ite_and]

@[simp] theorem within_bind (f : α → Option β) :
    (within n d x).bind f = if d ≤ n then f x else none := by
  unfold within
  split <;> rfl

@[simp high] theorem within_bind_some (f : α → β) :
    ((within n d x).bind fun x => some (f x)) = within n d (f x) :=
  within_bind n d x _

end

@[simp] theorem depth_record (members : List (String × Json)) :
    (record members).depth = depthElements (members.map Prod.snd) + 1 := by
  rw [record, depth]
  congr 1
  induction members with
  | nil => rfl
  | cons m members ih => rw [List.map_cons, depthMembers, ih, List.map_cons, depthElements]

@[simp] theorem depth_tagged (tag : String) (j : Json) : (tagged tag j).depth = j.depth + 1 := by
  simp [tagged, depthElements]

theorem keys_record (members : List (String × Json)) :
    (members.map fun m => (some m.1, m.2)).map Prod.fst = (members.map Prod.fst).map some := by
  simp

theorem lookup_record {members : List (String × Json)} (hnames : (members.map Prod.fst).Nodup) :
    ∀ m ∈ members, (members.map fun m => (some m.1, m.2)).lookup (some m.1) = some m.2 := by
  induction members with
  | nil => exact List.forall_mem_nil _
  | cons m members ih =>
      rw [List.map_cons, List.nodup_cons] at hnames
      intro k hk
      obtain rfl | hk := List.mem_cons.1 hk
      · exact List.lookup_cons_self
      · have hne : k.1 ≠ m.1 := fun h => hnames.1 (h ▸ List.mem_map_of_mem hk)
        have hb : (some k.1 == some m.1) = false := by simpa using hne
        rw [List.map_cons, List.lookup_cons, hb]
        exact ih hnames.2 k hk

/-- **Named parts are found under their names.** -/
@[simp] theorem parts?_record {names : List String} (hnames : names.Nodup) (tail : Nat)
    {members : List (String × Json)} (h : members.map Prod.fst = names) :
    parts? names tail (record members) = some (members.map fun m => some m.2) := by
  subst h
  have hall : (members.map fun m => (some m.1, m.2)).all (fun m => m.1.isSome) := by
    simp
  have hcount : (members.map Prod.fst).all fun name =>
      decide (((members.map fun m => (some m.1, m.2)).map Prod.fst).count (some name) ≤ 1) := by
    rw [keys_record, List.all_eq_true]
    intro name _
    rw [decide_eq_true_eq]
    exact List.nodup_iff_count_le_one.1 (hnames.map (Option.some_injective _)) _
  rw [record, parts?, if_pos ⟨hall, hcount⟩, List.map_map]
  exact congrArg some (List.map_congr_left fun m hm => lookup_record hnames m hm)

@[simp] theorem form?_tagged (tag : String) (j : Json) :
    (tagged tag j).form? = some (tag, some j) :=
  rfl

@[simp] theorem text?_text (s : String) : (text s).text? = some s := rfl

@[simp] theorem int64?_int64 (i : Int64) : (int64 i).int64? = some i :=
  Decimal.ofInt?_eq_some_iff.2 rfl

@[simp] theorem readBare_text {α : Type} (ofName? : String → Option α) (n : Nat) (name : String) :
    readBare ofName? n (.text name) = ofName? name := by
  cases n <;> rfl

end Json

open Json

/-! ### Trees -/

theorem Param.ofJson?_toJson (n : Nat) (p : Param) :
    Param.ofJson? n p.toJson = within n p.toJson.depth p := by
  cases n <;> simp [Param.ofJson?, Param.toJson, depthElements, bool?]

/-- A list is read from the forms of its elements. -/
theorem Json.readList_arr {α : Type} {read : Nat → Json → Option α} {toJson : α → Json}
    (h : ∀ n x, read n (toJson x) = within n (toJson x).depth x) (n : Nat) (l : List α) :
    readList read n (.arr (l.map toJson))
      = within n (depthElements (l.map toJson) + 1) l := by
  have hmap (n : Nat) :
      (l.map toJson).mapM (read n) = within n (depthElements (l.map toJson)) l := by
    induction l with
    | nil => simp [depthElements]
    | cons x l ih =>
        rw [List.map_cons, List.mapM_cons, h, ih, depthElements]
        simp
  cases n with
  | zero => rw [readList, zero_within]
  | succ n => exact (hmap n).trans (within_succ n _ l).symm

/-- The form of an expression is never absent. -/
theorem Expr.toJson_ne_null (e : Expr) : e.toJson ≠ .null := by
  cases e <;> simp [toJson, tagged, record, Json.text]

/-- Only names are read without a bracket. -/
theorem Expr.ofJson?_zero (e : Expr) :
    Expr.ofJson? 0 e.toJson = within 0 e.toJson.depth e := by
  cases e <;> rfl

/-- A member of the value of an expression is read with the expression. -/
theorem Expr.ofMember?_record {key : String} (hk : "object" ≠ key) (name : String) {object : Expr}
    (h : ∀ n, Expr.ofJson? n object.toJson = within n object.toJson.depth object) (n : Nat) :
    Expr.ofMember? key n (.record [("object", object.toJson), (key, .text name)])
      = within n (object.toJson.depth + 1) (object, name) := by
  cases n <;> simp [Expr.ofMember?, hk, h]

-- The induction is on the tree.  Each case splits the budget as far as the brackets of the form go
-- before a part of it begins; with a smaller budget there is nothing to read on either side.

mutual

/-- **An expression is read from its JSON form** if the budget is enough. -/
theorem Expr.ofJson?_toJson : ∀ (n : Nat) (e : Expr),
    Expr.ofJson? n e.toJson = within n e.toJson.depth e
  | 0, e => e.ofJson?_zero
  | n + 1, .int i => by simp [Expr.toJson, Expr.ofJson?]
  | n + 1, .text s => by simp [Expr.toJson, Expr.ofJson?]
  | n + 1, .truth b => by simp [Expr.toJson, Expr.ofJson?, bool?]
  | n + 1, .nil => rfl
  | n + 1, .newObject => rfl
  | n + 1, .variable name => by simp [Expr.toJson, Expr.ofJson?]
  | n + 1, .field object name => by
      have h := fun n => Expr.ofJson?_toJson n object
      simp [Expr.toJson, Expr.ofJson?, Expr.ofMember?_record _ _ h, depthElements]
  | n + 1, .call c => by
      simp [Expr.toJson, Expr.ofJson?, Call.ofJson?_toJson n c]
  | n + 1, .binary op left right => by
      have hl := fun n => Expr.ofJson?_toJson n left
      have hr := fun n => Expr.ofJson?_toJson n right
      cases n <;> simp [Expr.toJson, Expr.ofJson?, Expr.ofBinary?, BinaryOperator.ofName?_name,
        depthElements, hl, hr]
  | n + 1, .unary op operand => by
      have h := fun n => Expr.ofJson?_toJson n operand
      cases n <;> simp [Expr.toJson, Expr.ofJson?, Expr.ofUnary?, UnaryOperator.ofName?_name,
        depthElements, h]
  | n + 1, .lambda r => by
      simp [Expr.toJson, Expr.ofJson?, Routine.ofJson?_toJson n r]

/-- The expressions of a list are read from their JSON forms. -/
theorem Expr.mapM_ofJson? : ∀ (n : Nat) (l : List Expr), (Expr.toJsonList l).mapM (Expr.ofJson? n)
    = within n (depthElements (Expr.toJsonList l)) l
  | n, [] => by simp [Expr.toJsonList, depthElements]
  | n, e :: l => by
      simp [Expr.toJsonList, depthElements, Expr.ofJson?_toJson n e, Expr.mapM_ofJson? n l]

/-- A callee is read from its JSON form. -/
theorem Callee.ofJson?_toJson : ∀ (n : Nat) (c : Callee),
    Callee.ofJson? n c.toJson = within n c.toJson.depth c
  | n, .name name => by cases n <;> simp [Callee.toJson, Callee.ofJson?]
  | n, .method object name => by
      have h := fun n => Expr.ofJson?_toJson n object
      cases n <;> simp [Callee.toJson, Callee.ofJson?, Expr.ofMember?_record _ _ h, depthElements]

/-- A call is read from its JSON form. -/
theorem Call.ofJson?_toJson : ∀ (n : Nat) (c : Call),
    Call.ofJson? n c.toJson = within n c.toJson.depth c
  | n, .mk callee arguments => by
      have hc := fun n => Callee.ofJson?_toJson n callee
      have ha := fun n => Expr.mapM_ofJson? n arguments
      rcases n with _ | _ | n <;> simp [Call.toJson, Call.ofJson?, Expr.ofJsonList?, elements?,
        depth, depthElements, hc, ha]

/-- A target is read from its JSON form. -/
theorem Target.ofJson?_toJson : ∀ (n : Nat) (t : Target),
    Target.ofJson? n t.toJson = within n t.toJson.depth t
  | n, .variable name => by cases n <;> simp [Target.toJson, Target.ofJson?]
  | n, .field object name => by
      have h := fun n => Expr.ofJson?_toJson n object
      cases n <;> simp [Target.toJson, Target.ofJson?, Expr.ofMember?_record _ _ h, depthElements]

/-- A statement is read from its JSON form. -/
theorem Stmt.ofJson?_toJson : ∀ (n : Nat) (s : Stmt),
    Stmt.ofJson? n s.toJson = within n s.toJson.depth s
  | n, .assign target value => by
      have ht := fun n => Target.ofJson?_toJson n target
      have hv := fun n => Expr.ofJson?_toJson n value
      rcases n with _ | _ | n <;> simp [Stmt.toJson, Stmt.ofJson?, Stmt.ofAssign?, depthElements,
        ht, hv]
  | n, .call c => by
      cases n <;> simp [Stmt.toJson, Stmt.ofJson?, Call.ofJson?_toJson _ c]
  | n, .branch condition yes none => by
      have hc := fun n => Expr.ofJson?_toJson n condition
      have hy := fun n => Stmt.mapM_ofJson? n yes
      rcases n with _ | _ | _ | n <;> simp [Stmt.toJson, Stmt.toJsonOption, Stmt.ofJson?,
        Stmt.ofBranch?, Stmt.ofJsonList?, elements?, depth, depthElements, hc, hy]
  | n, .branch condition yes (some no) => by
      have hc := fun n => Expr.ofJson?_toJson n condition
      have hy := fun n => Stmt.mapM_ofJson? n yes
      have hn := fun n => Stmt.mapM_ofJson? n no
      rcases n with _ | _ | _ | n <;> simp [Stmt.toJson, Stmt.toJsonOption, Stmt.ofJson?,
        Stmt.ofBranch?, Stmt.ofJsonList?, elements?, depth, depthElements, hc, hy, hn]
  | n, .loop condition body => by
      have hc := fun n => Expr.ofJson?_toJson n condition
      have hb := fun n => Stmt.mapM_ofJson? n body
      rcases n with _ | _ | _ | n <;> simp [Stmt.toJson, Stmt.ofJson?, Stmt.ofLoop?,
        Stmt.ofJsonList?, elements?, depth, depthElements, hc, hb]
  | n, .return none => by cases n <;> simp [Stmt.toJson, Expr.toJsonOption, Stmt.ofJson?]
  | n, .return (some e) => by
      have h := fun n => Expr.ofJson?_toJson n e
      cases n <;> simp [Stmt.toJson, Expr.toJsonOption, Stmt.ofJson?, e.toJson_ne_null, h]

/-- The statements of a list are read from their JSON forms. -/
theorem Stmt.mapM_ofJson? : ∀ (n : Nat) (l : List Stmt), (Stmt.toJsonList l).mapM (Stmt.ofJson? n)
    = within n (depthElements (Stmt.toJsonList l)) l
  | n, [] => by simp [Stmt.toJsonList, depthElements]
  | n, s :: l => by
      simp [Stmt.toJsonList, depthElements, Stmt.ofJson?_toJson n s, Stmt.mapM_ofJson? n l]

/-- A routine is read from its JSON form. -/
theorem Routine.ofJson?_toJson : ∀ (n : Nat) (r : Routine),
    Routine.ofJson? n r.toJson = within n r.toJson.depth r
  | n, .mk name params body => by
      have hp := fun n => readList_arr Param.ofJson?_toJson n params
      have hb := fun n => Stmt.mapM_ofJson? n body
      rcases n with _ | _ | n <;> simp [Routine.toJson, Routine.ofJson?,
        Stmt.ofJsonList?, elements?, depth, depthElements, hp, hb]

end

/-! ### Numbers -/

namespace Json

theorem exactElements_iff {l : List Json} : ExactElements l ↔ ∀ j ∈ l, j.Exact := by
  induction l with
  | nil => simp [ExactElements]
  | cons j l ih => simp [ExactElements, ih]

@[simp] theorem exact_record (members : List (String × Json)) :
    (record members).Exact ↔ ∀ m ∈ members, m.2.Exact := by
  rw [record, Exact]
  induction members with
  | nil => simp [ExactMembers]
  | cons m members ih => simp [ExactMembers, ih]

@[simp] theorem exact_tagged (tag : String) (j : Json) : (tagged tag j).Exact ↔ j.Exact := by
  simp [tagged]

@[simp] theorem exact_text (s : String) : (text s).Exact := trivial

@[simp] theorem exact_int64 (i : Int64) : (int64 i).Exact := trivial

end Json

theorem Param.exact_toJson (p : Param) : p.toJson.Exact := by
  simp [Param.toJson, Exact]

mutual

/-- All numbers in the JSON form of a tree are integers. -/
theorem Expr.exact_toJson : ∀ e : Expr, e.toJson.Exact
  | .int _ | .text _ | .truth _ | .nil | .newObject | .variable _ => by
      simp [Expr.toJson, Exact]
  | .field object _ => by simp [Expr.toJson, object.exact_toJson]
  | .call c => by simp [Expr.toJson, c.exact_toJson]
  | .binary _ left right => by simp [Expr.toJson, left.exact_toJson, right.exact_toJson]
  | .unary _ operand => by simp [Expr.toJson, operand.exact_toJson]
  | .lambda r => by simp [Expr.toJson, r.exact_toJson]

theorem Expr.exact_toJsonList : ∀ l : List Expr, ExactElements (Expr.toJsonList l)
  | [] => trivial
  | e :: l => ⟨e.exact_toJson, Expr.exact_toJsonList l⟩

theorem Callee.exact_toJson : ∀ c : Callee, c.toJson.Exact
  | .name _ => by simp [Callee.toJson]
  | .method object _ => by simp [Callee.toJson, object.exact_toJson]

theorem Call.exact_toJson : ∀ c : Call, c.toJson.Exact
  | .mk callee arguments => by
      simp [Call.toJson, Exact, callee.exact_toJson, Expr.exact_toJsonList arguments]

theorem Target.exact_toJson : ∀ t : Target, t.toJson.Exact
  | .variable _ => by simp [Target.toJson]
  | .field object _ => by simp [Target.toJson, object.exact_toJson]

theorem Stmt.exact_toJson : ∀ s : Stmt, s.toJson.Exact
  | .assign target value => by simp [Stmt.toJson, target.exact_toJson, value.exact_toJson]
  | .call c => by simp [Stmt.toJson, c.exact_toJson]
  | .branch condition yes none => by
      simp [Stmt.toJson, Stmt.toJsonOption, Exact, condition.exact_toJson,
        Stmt.exact_toJsonList yes]
  | .branch condition yes (some no) => by
      simp [Stmt.toJson, Stmt.toJsonOption, Exact, condition.exact_toJson,
        Stmt.exact_toJsonList yes, Stmt.exact_toJsonList no]
  | .loop condition body => by
      simp [Stmt.toJson, Exact, condition.exact_toJson, Stmt.exact_toJsonList body]
  | .return none => by simp [Stmt.toJson, Expr.toJsonOption, Exact]
  | .return (some e) => by simp [Stmt.toJson, Expr.toJsonOption, e.exact_toJson]

theorem Stmt.exact_toJsonList : ∀ l : List Stmt, ExactElements (Stmt.toJsonList l)
  | [] => trivial
  | s :: l => ⟨s.exact_toJson, Stmt.exact_toJsonList l⟩

theorem Routine.exact_toJson : ∀ r : Routine, r.toJson.Exact
  | .mk _ params body => by
      simp [Routine.toJson, Exact, exactElements_iff (l := params.map Param.toJson),
        Param.exact_toJson, Stmt.exact_toJsonList body]

end

/-! ### Programs -/

namespace Program

theorem exact_toJson (p : Program) : p.toJson.Exact := by
  simp [Program.toJson, Exact, exactElements_iff, Routine.exact_toJson]

/-- **A program is read from its JSON form** unless that is too deep. -/
theorem ofJson?_toJson (p : Program) :
    Program.ofJson? p.toJson = within levels p.toJson.depth p := by
  -- an object holds the routines
  change _ = within (levels - 1 + 1) p.toJson.depth p
  simp [Program.toJson, Program.ofJson?, readList_arr Routine.ofJson?_toJson, depth, depthElements]

/-- A text that says what the JSON form of a program says is read as the program unless it nests too
deep. -/
theorem ofJsonText?_spaced {s : Spacing} {p : Program} {rest : List Char} {text : String}
    (h : text = String.ofList (spaced s 0 p.toJson rest)) (hr : ∀ c ∈ rest, isBlank c = true) :
    ofJsonText? text = if Json.nesting text ≤ 127 then some p else none := by
  subst h
  rw [ofJsonText?, read?_spaced p.exact_toJson hr, nesting_ofList_spaced p.exact_toJson hr]
  exact ofJson?_toJson p

/-- A file with the JSON form of a program is run as the program. -/
theorem ofFile_of_ofJsonText? {json : String} {p : Program}
    (h : ofJsonText? json = if Json.nesting json ≤ 127 then some p else none)
    (refusal : String → Refusal) :
    ofFile refusal json true = if Json.nesting json ≤ 127 then .ok p
      else .error (refusal json).diagnostic := by
  rw [ofFile, if_pos rfl, h]
  by_cases hn : Json.nesting json ≤ 127
  · simp only [if_pos hn]
  · simp only [if_neg hn]

/-- **A program survives the way through JSON** exactly if its text nests at most 127 brackets and
braces; a deeper text is refused.  So a source is refused by the commands that parse and run it with
one diagnostic, or what is printed for it is run as the source itself unless it nests too deep; then
it is refused, in the words of the reader of JSON. -/
theorem json_round_trip :
    (∀ p : Program,
      ofJsonText? p.toJson.write = (if Json.nesting p.toJson.write ≤ 127 then some p else none) ∧
      ofJsonText? p.toJson.writeIndented
        = if Json.nesting p.toJson.writeIndented ≤ 127 then some p else none) ∧
    ∀ source : String,
      (∃ d, ∀ file colour, Command.parseText file source colour = .diagnosed "" file colour d ∧
        ∀ refusal fuel input, Command.runText refusal fuel file false source input colour
          = .diagnosed "" file colour d) ∨
      ∃ p json, Program.ofText source = .ok p ∧
        (∀ file colour, Command.parseText file source colour = .success json) ∧
        ofJsonText? json = (if Json.nesting json ≤ 127 then some p else none) ∧
        ∀ refusal fuel file input colour, Command.runText refusal fuel file true json input colour
          = if Json.nesting json ≤ 127 then
              Command.runText refusal fuel file false source input colour
            else .diagnosed "" file colour (refusal json).diagnostic := by
  refine ⟨fun p => ⟨ofJsonText?_spaced p.toJson.write_eq (List.forall_mem_nil _),
    ofJsonText?_spaced p.toJson.writeIndented_eq (List.forall_mem_nil _)⟩, fun source => ?_⟩
  cases hsource : ofText source with
  | error d =>
      refine .inl ⟨d, fun file colour =>
        ⟨by rw [Command.parseText, hsource], fun refusal fuel input => ?_⟩⟩
      rw [Command.runText, ofFile, if_neg Bool.false_ne_true, hsource]
  | ok p =>
      have hp := ofJsonText?_spaced (p.toJson.writeIndented_append ['\n'])
        (List.forall_mem_singleton.2 rfl)
      generalize hjson : p.toJson.writeIndented ++ String.ofList ['\n'] = json at hp
      refine .inr
        ⟨p, json, rfl, fun file colour => ?_, hp, fun refusal fuel file input colour => ?_⟩
      · rw [← hjson, Command.parseText, hsource]
      rw [Command.runText, Command.runText, ofFile_of_ofJsonText? hp refusal, ofFile,
        if_neg Bool.false_ne_true, hsource]
      by_cases hn : Json.nesting json ≤ 127
      · rw [if_pos hn, if_pos hn]
      · rw [if_neg hn, if_neg hn]

end Program
end ProtoScript
