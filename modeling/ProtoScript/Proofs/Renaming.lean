import Mathlib.Logic.Equiv.Basic
import ProtoScript.RoutineTable
/-!
# Renaming variables

Some names in a tree are variables: those that are read and assigned, those of
parameters, and those by which something is called.  The names of fields and
methods and those of routines themselves are none.  Renaming applies a function to
the variables and leaves everything else as it is.

A tree shows what is done to its variables and nothing else (`Routine.rename_eq_iff`).
So to replace a variable by one that is not there is to let the two change places.
-/

namespace ProtoScript

/-- The parameter with its name mapped. -/
def Param.rename (f : String → String) (p : Param) : Param := { p with name := f p.name }

mutual

/-- The expression with its variables mapped. -/
def Expr.rename (f : String → String) : Expr → Expr
  | .int value => .int value
  | .text value => .text value
  | .truth value => .truth value
  | .nil => .nil
  | .variable name => .variable (f name)
  | .field object name => .field (object.rename f) name
  | .call c => .call (c.rename f)
  | .binary op left right => .binary op (left.rename f) (right.rename f)
  | .unary op operand => .unary op (operand.rename f)
  | .lambda r => .lambda (r.rename f)
  | .newObject => .newObject

/-- The expressions with their variables mapped. -/
def Expr.renameAll (f : String → String) : List Expr → List Expr
  | [] => []
  | e :: l => e.rename f :: Expr.renameAll f l

/-- The callee with its variables mapped. -/
def Callee.rename (f : String → String) : Callee → Callee
  | .name name => .name (f name)
  | .method object name => .method (object.rename f) name

/-- The call with its variables mapped. -/
def Call.rename (f : String → String) : Call → Call
  | .mk callee args => .mk (callee.rename f) (Expr.renameAll f args)

/-- The target with its variables mapped. -/
def Target.rename (f : String → String) : Target → Target
  | .variable name => .variable (f name)
  | .field object name => .field (object.rename f) name

/-- The statement with its variables mapped. -/
def Stmt.rename (f : String → String) : Stmt → Stmt
  | .assign target value => .assign (target.rename f) (value.rename f)
  | .call c => .call (c.rename f)
  | .branch condition yes none => .branch (condition.rename f) (Stmt.renameAll f yes) none
  | .branch condition yes (some no) =>
      .branch (condition.rename f) (Stmt.renameAll f yes) (some (Stmt.renameAll f no))
  | .loop condition body => .loop (condition.rename f) (Stmt.renameAll f body)
  | .return none => .return none
  | .return (some e) => .return (some (e.rename f))

/-- The statements with their variables mapped. -/
def Stmt.renameAll (f : String → String) : List Stmt → List Stmt
  | [] => []
  | s :: l => s.rename f :: Stmt.renameAll f l

/-- The routine with its variables mapped; its name stays. -/
def Routine.rename (f : String → String) : Routine → Routine
  | .mk name params body => .mk name (params.map (Param.rename f)) (Stmt.renameAll f body)

end

mutual

/-- The variables of an expression. -/
def Expr.variables : Expr → List String
  | .int _ | .text _ | .truth _ | .nil | .newObject => []
  | .variable name => [name]
  | .field object _ => object.variables
  | .call c => c.variables
  | .binary _ left right => left.variables ++ right.variables
  | .unary _ operand => operand.variables
  | .lambda r => r.variables

/-- The variables of expressions. -/
def Expr.variablesAll : List Expr → List String
  | [] => []
  | e :: l => e.variables ++ Expr.variablesAll l

/-- The variables of a callee. -/
def Callee.variables : Callee → List String
  | .name name => [name]
  | .method object _ => object.variables

/-- The variables of a call. -/
def Call.variables : Call → List String
  | .mk callee args => callee.variables ++ Expr.variablesAll args

/-- The variables of a target. -/
def Target.variables : Target → List String
  | .variable name => [name]
  | .field object _ => object.variables

/-- The variables of a statement. -/
def Stmt.variables : Stmt → List String
  | .assign target value => target.variables ++ value.variables
  | .call c => c.variables
  | .branch condition yes none => condition.variables ++ Stmt.variablesAll yes
  | .branch condition yes (some no) =>
      condition.variables ++ (Stmt.variablesAll yes ++ Stmt.variablesAll no)
  | .loop condition body => condition.variables ++ Stmt.variablesAll body
  | .return none => []
  | .return (some e) => e.variables

/-- The variables of statements. -/
def Stmt.variablesAll : List Stmt → List String
  | [] => []
  | s :: l => s.variables ++ Stmt.variablesAll l

/-- The variables of a routine. -/
def Routine.variables : Routine → List String
  | .mk _ params body => params.map Param.name ++ Stmt.variablesAll body

end

/-! ### What renaming leaves as it is -/

variable {f g : String → String}

theorem Expr.renameAll_eq_map (f : String → String) (l : List Expr) :
    Expr.renameAll f l = l.map (Expr.rename f) := by
  induction l with
  | nil => rfl
  | cons e l ih => rw [renameAll, ih, List.map_cons]

@[simp] theorem Expr.length_renameAll (f : String → String) (l : List Expr) :
    (Expr.renameAll f l).length = l.length := by
  rw [renameAll_eq_map, List.length_map]

@[simp] theorem Routine.name_rename (f : String → String) (r : Routine) :
    (r.rename f).name = r.name := by
  cases r
  rfl

@[simp] theorem Routine.params_rename (f : String → String) (r : Routine) :
    (r.rename f).params = r.params.map (Param.rename f) := by
  cases r
  rfl

@[simp] theorem Routine.body_rename (f : String → String) (r : Routine) :
    (r.rename f).body = Stmt.renameAll f r.body := by
  cases r
  rfl

@[simp] theorem Routine.arity_rename (f : String → String) (r : Routine) :
    (r.rename f).arity = r.arity := by
  rw [arity, params_rename, List.length_map, arity]

@[simp] theorem Stmt.label_rename (f : String → String) (s : Stmt) :
    (s.rename f).label = s.label := by
  cases s with
  | branch condition yes no => cases no <;> rfl
  | «return» value => cases value <;> rfl
  | _ => rfl

/-! ### Laws -/

theorem Param.rename_eq_iff (p : Param) : p.rename f = p.rename g ↔ f p.name = g p.name := by
  simp [rename]

mutual

/-- Two functions give one tree exactly if they agree on its variables. -/
theorem Expr.rename_eq_iff :
    ∀ e : Expr, e.rename f = e.rename g ↔ ∀ n ∈ e.variables, f n = g n
  | .int _ | .text _ | .truth _ | .nil | .newObject => iff_of_true rfl nofun
  | .variable name => by simp [Expr.rename, Expr.variables]
  | .field object _ => by simp [Expr.rename, Expr.variables, Expr.rename_eq_iff object]
  | .call c => by simp [Expr.rename, Expr.variables, Call.rename_eq_iff c]
  | .binary _ left right => by
      simp [Expr.rename, Expr.variables, Expr.rename_eq_iff left, Expr.rename_eq_iff right,
        or_imp, forall_and]
  | .unary _ operand => by simp [Expr.rename, Expr.variables, Expr.rename_eq_iff operand]
  | .lambda r => by simp [Expr.rename, Expr.variables, Routine.rename_eq_iff r]

theorem Expr.renameAll_eq_iff : ∀ l : List Expr,
    Expr.renameAll f l = Expr.renameAll g l ↔ ∀ n ∈ Expr.variablesAll l, f n = g n
  | [] => iff_of_true rfl nofun
  | e :: l => by
      simp [Expr.renameAll, Expr.variablesAll, Expr.rename_eq_iff e, Expr.renameAll_eq_iff l,
        or_imp, forall_and]

theorem Callee.rename_eq_iff :
    ∀ c : Callee, c.rename f = c.rename g ↔ ∀ n ∈ c.variables, f n = g n
  | .name name => by simp [Callee.rename, Callee.variables]
  | .method object _ => by simp [Callee.rename, Callee.variables, Expr.rename_eq_iff object]

theorem Call.rename_eq_iff :
    ∀ c : Call, c.rename f = c.rename g ↔ ∀ n ∈ c.variables, f n = g n
  | .mk callee args => by
      simp [Call.rename, Call.variables, Callee.rename_eq_iff callee, Expr.renameAll_eq_iff args,
        or_imp, forall_and]

theorem Target.rename_eq_iff :
    ∀ t : Target, t.rename f = t.rename g ↔ ∀ n ∈ t.variables, f n = g n
  | .variable name => by simp [Target.rename, Target.variables]
  | .field object _ => by simp [Target.rename, Target.variables, Expr.rename_eq_iff object]

theorem Stmt.rename_eq_iff :
    ∀ s : Stmt, s.rename f = s.rename g ↔ ∀ n ∈ s.variables, f n = g n
  | .assign target value => by
      simp [Stmt.rename, Stmt.variables, Target.rename_eq_iff target, Expr.rename_eq_iff value,
        or_imp, forall_and]
  | .call c => by simp [Stmt.rename, Stmt.variables, Call.rename_eq_iff c]
  | .branch condition yes none => by
      simp [Stmt.rename, Stmt.variables, Expr.rename_eq_iff condition, Stmt.renameAll_eq_iff yes,
        or_imp, forall_and]
  | .branch condition yes (some no) => by
      simp [Stmt.rename, Stmt.variables, Expr.rename_eq_iff condition, Stmt.renameAll_eq_iff yes,
        Stmt.renameAll_eq_iff no, or_imp, forall_and]
  | .loop condition body => by
      simp [Stmt.rename, Stmt.variables, Expr.rename_eq_iff condition, Stmt.renameAll_eq_iff body,
        or_imp, forall_and]
  | .return none => iff_of_true rfl nofun
  | .return (some e) => by simp [Stmt.rename, Stmt.variables, Expr.rename_eq_iff e]

theorem Stmt.renameAll_eq_iff : ∀ l : List Stmt,
    Stmt.renameAll f l = Stmt.renameAll g l ↔ ∀ n ∈ Stmt.variablesAll l, f n = g n
  | [] => iff_of_true rfl nofun
  | s :: l => by
      simp [Stmt.renameAll, Stmt.variablesAll, Stmt.rename_eq_iff s, Stmt.renameAll_eq_iff l,
        or_imp, forall_and]

theorem Routine.rename_eq_iff :
    ∀ r : Routine, r.rename f = r.rename g ↔ ∀ n ∈ r.variables, f n = g n
  | .mk name params body => by
      simp [Routine.rename, Routine.variables, Param.rename_eq_iff, Stmt.renameAll_eq_iff body,
        or_imp, forall_and]

end

mutual

@[simp] theorem Expr.rename_id : ∀ e : Expr, e.rename id = e
  | .int _ | .text _ | .truth _ | .nil | .newObject | .variable _ => rfl
  | .field object _ => by rw [Expr.rename, Expr.rename_id object]
  | .call c => by rw [Expr.rename, Call.rename_id c]
  | .binary _ left right => by rw [Expr.rename, Expr.rename_id left, Expr.rename_id right]
  | .unary _ operand => by rw [Expr.rename, Expr.rename_id operand]
  | .lambda r => by rw [Expr.rename, Routine.rename_id r]

@[simp] theorem Expr.renameAll_id : ∀ l : List Expr, Expr.renameAll id l = l
  | [] => rfl
  | e :: l => by rw [Expr.renameAll, Expr.rename_id e, Expr.renameAll_id l]

@[simp] theorem Callee.rename_id : ∀ c : Callee, c.rename id = c
  | .name _ => rfl
  | .method object _ => by rw [Callee.rename, Expr.rename_id object]

@[simp] theorem Call.rename_id : ∀ c : Call, c.rename id = c
  | .mk callee args => by rw [Call.rename, Callee.rename_id callee, Expr.renameAll_id args]

@[simp] theorem Target.rename_id : ∀ t : Target, t.rename id = t
  | .variable _ => rfl
  | .field object _ => by rw [Target.rename, Expr.rename_id object]

@[simp] theorem Stmt.rename_id : ∀ s : Stmt, s.rename id = s
  | .assign target value => by rw [Stmt.rename, Target.rename_id target, Expr.rename_id value]
  | .call c => by rw [Stmt.rename, Call.rename_id c]
  | .branch condition yes none => by
      rw [Stmt.rename, Expr.rename_id condition, Stmt.renameAll_id yes]
  | .branch condition yes (some no) => by
      rw [Stmt.rename, Expr.rename_id condition, Stmt.renameAll_id yes, Stmt.renameAll_id no]
  | .loop condition body => by
      rw [Stmt.rename, Expr.rename_id condition, Stmt.renameAll_id body]
  | .return none => rfl
  | .return (some e) => by rw [Stmt.rename, Expr.rename_id e]

@[simp] theorem Stmt.renameAll_id : ∀ l : List Stmt, Stmt.renameAll id l = l
  | [] => rfl
  | s :: l => by rw [Stmt.renameAll, Stmt.rename_id s, Stmt.renameAll_id l]

@[simp] theorem Routine.rename_id : ∀ r : Routine, r.rename id = r
  | .mk name params body => by
      rw [Routine.rename, Stmt.renameAll_id body]
      exact congrArg (fun ps => Routine.mk name ps body) params.map_id

end

mutual

/-- One function after the other. -/
theorem Expr.rename_rename : ∀ e : Expr, (e.rename f).rename g = e.rename (g ∘ f)
  | .int _ | .text _ | .truth _ | .nil | .newObject | .variable _ => rfl
  | .field object _ => by simp only [Expr.rename, Expr.rename_rename object]
  | .call c => by simp only [Expr.rename, Call.rename_rename c]
  | .binary _ left right => by
      simp only [Expr.rename, Expr.rename_rename left, Expr.rename_rename right]
  | .unary _ operand => by simp only [Expr.rename, Expr.rename_rename operand]
  | .lambda r => by simp only [Expr.rename, Routine.rename_rename r]

theorem Expr.renameAll_renameAll :
    ∀ l : List Expr, Expr.renameAll g (Expr.renameAll f l) = Expr.renameAll (g ∘ f) l
  | [] => rfl
  | e :: l => by simp only [Expr.renameAll, Expr.rename_rename e, Expr.renameAll_renameAll l]

theorem Callee.rename_rename : ∀ c : Callee, (c.rename f).rename g = c.rename (g ∘ f)
  | .name _ => rfl
  | .method object _ => by simp only [Callee.rename, Expr.rename_rename object]

theorem Call.rename_rename : ∀ c : Call, (c.rename f).rename g = c.rename (g ∘ f)
  | .mk callee args => by
      simp only [Call.rename, Callee.rename_rename callee, Expr.renameAll_renameAll args]

theorem Target.rename_rename : ∀ t : Target, (t.rename f).rename g = t.rename (g ∘ f)
  | .variable _ => rfl
  | .field object _ => by simp only [Target.rename, Expr.rename_rename object]

theorem Stmt.rename_rename : ∀ s : Stmt, (s.rename f).rename g = s.rename (g ∘ f)
  | .assign target value => by
      simp only [Stmt.rename, Target.rename_rename target, Expr.rename_rename value]
  | .call c => by simp only [Stmt.rename, Call.rename_rename c]
  | .branch condition yes none => by
      simp only [Stmt.rename, Expr.rename_rename condition, Stmt.renameAll_renameAll yes]
  | .branch condition yes (some no) => by
      simp only [Stmt.rename, Expr.rename_rename condition, Stmt.renameAll_renameAll yes,
        Stmt.renameAll_renameAll no]
  | .loop condition body => by
      simp only [Stmt.rename, Expr.rename_rename condition, Stmt.renameAll_renameAll body]
  | .return none => rfl
  | .return (some e) => by simp only [Stmt.rename, Expr.rename_rename e]

theorem Stmt.renameAll_renameAll :
    ∀ l : List Stmt, Stmt.renameAll g (Stmt.renameAll f l) = Stmt.renameAll (g ∘ f) l
  | [] => rfl
  | s :: l => by simp only [Stmt.renameAll, Stmt.rename_rename s, Stmt.renameAll_renameAll l]

theorem Routine.rename_rename : ∀ r : Routine, (r.rename f).rename g = r.rename (g ∘ f)
  | .mk name params body => by
      simp only [Routine.rename, List.map_map, Stmt.renameAll_renameAll body]
      rfl

end

namespace Routine

/-- Names that stay apart keep routines apart. -/
theorem rename_injective (hf : Function.Injective f) : Function.Injective (rename f) := by
  obtain ⟨g, hg⟩ := hf.hasLeftInverse
  intro r s h
  have hid : ∀ t : Routine, (t.rename f).rename g = t := fun t => by
    rw [rename_rename, hg.comp_eq_id, rename_id]
  rw [← hid r, h, hid s]

end Routine

/-- The function that puts `y` in the place of `x`. -/
def replace (x y name : String) : String := if name = x then y else name

/-- Among names that are not `y`, to replace `x` by `y` is to let the two change places. -/
theorem replace_eq_swap {x y name : String} (h : name ≠ y) :
    replace x y name = Equiv.swap x y name := by
  by_cases hx : name = x
  · simp [replace, hx]
  · simp [replace, hx, Equiv.swap_apply_of_ne_of_ne hx h]

/-- That further names change places shows only where they are. -/
theorem swap_trans_swap_apply {x y z : String} (hxy : x ≠ y) (hyz : y ≠ z) {name : String}
    (hy : name ≠ y) (hz : name ≠ z) :
    (Equiv.swap x y).trans (Equiv.swap x z) name = Equiv.swap x y name := by
  rw [Equiv.trans_apply]
  by_cases hx : name = x
  · rw [hx, Equiv.swap_apply_left, Equiv.swap_apply_of_ne_of_ne hxy.symm hyz]
  · rw [Equiv.swap_apply_of_ne_of_ne hx hy, Equiv.swap_apply_of_ne_of_ne hx hz]

end ProtoScript
