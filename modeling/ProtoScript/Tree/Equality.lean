import ProtoScript.Tree
/-!
# Equality of trees

Whether two trees are the same is decided by recursion on the first.  `same`
holds exactly of equal trees (`Routine.same_iff`), so equality of routines, and
with it equality of programs, is decidable.  The interpreter derives this equality for
its tree types, and compares functions by it.
-/

namespace ProtoScript

mutual

/-- Whether two expressions are the same. -/
def Expr.same : Expr → Expr → Bool
  | .int a, .int b => a == b
  | .text a, .text b => a == b
  | .truth a, .truth b => a == b
  | .nil, .nil => true
  | .variable a, .variable b => a == b
  | .field o a, .field p b => o.same p && a == b
  | .call c, .call d => c.same d
  | .binary f a b, .binary g c d => f == g && a.same c && b.same d
  | .unary f a, .unary g b => f == g && a.same b
  | .lambda r, .lambda s => r.same s
  | .newObject, .newObject => true
  | _, _ => false

/-- Whether two lists of expressions are the same. -/
def Expr.sameList : List Expr → List Expr → Bool
  | [], [] => true
  | a :: l, b :: r => a.same b && Expr.sameList l r
  | _, _ => false

/-- Whether two optional expressions are the same. -/
def Expr.sameOption : Option Expr → Option Expr → Bool
  | none, none => true
  | some a, some b => a.same b
  | _, _ => false

/-- Whether two callees are the same. -/
def Callee.same : Callee → Callee → Bool
  | .name a, .name b => a == b
  | .method o a, .method p b => o.same p && a == b
  | _, _ => false

/-- Whether two calls are the same. -/
def Call.same : Call → Call → Bool
  | .mk a l, .mk b r => a.same b && Expr.sameList l r

/-- Whether two targets are the same. -/
def Target.same : Target → Target → Bool
  | .variable a, .variable b => a == b
  | .field o a, .field p b => o.same p && a == b
  | _, _ => false

/-- Whether two statements are the same. -/
def Stmt.same : Stmt → Stmt → Bool
  | .assign t a, .assign u b => t.same u && a.same b
  | .call c, .call d => c.same d
  | .branch c y n, .branch d z m => c.same d && Stmt.sameList y z && Stmt.sameOption n m
  | .loop c l, .loop d r => c.same d && Stmt.sameList l r
  | .return a, .return b => Expr.sameOption a b
  | _, _ => false

/-- Whether two lists of statements are the same. -/
def Stmt.sameList : List Stmt → List Stmt → Bool
  | [], [] => true
  | a :: l, b :: r => a.same b && Stmt.sameList l r
  | _, _ => false

/-- Whether two optional lists of statements are the same. -/
def Stmt.sameOption : Option (List Stmt) → Option (List Stmt) → Bool
  | none, none => true
  | some l, some r => Stmt.sameList l r
  | _, _ => false

/-- Whether two routines are the same. -/
def Routine.same : Routine → Routine → Bool
  | .mk a p l, .mk b q r => a == b && p == q && Stmt.sameList l r

end

mutual

theorem Expr.same_iff : ∀ a b : Expr, a.same b = true ↔ a = b
  | .int _, b => by cases b <;> simp [Expr.same]
  | .text _, b => by cases b <;> simp [Expr.same]
  | .truth _, b => by cases b <;> simp [Expr.same]
  | .nil, b => by cases b <;> simp [Expr.same]
  | .variable _, b => by cases b <;> simp [Expr.same]
  | .field o _, b => by cases b <;> simp [Expr.same, Expr.same_iff o]
  | .call c, b => by cases b <;> simp [Expr.same, Call.same_iff c]
  | .binary _ a b, c => by cases c <;> simp [Expr.same, Expr.same_iff a, Expr.same_iff b, and_assoc]
  | .unary _ a, b => by cases b <;> simp [Expr.same, Expr.same_iff a]
  | .lambda r, b => by cases b <;> simp [Expr.same, Routine.same_iff r]
  | .newObject, b => by cases b <;> simp [Expr.same]

theorem Expr.sameList_iff : ∀ l r : List Expr, Expr.sameList l r = true ↔ l = r
  | [], r => by cases r <;> simp [Expr.sameList]
  | a :: l, r => by cases r <;> simp [Expr.sameList, Expr.same_iff a, Expr.sameList_iff l]

theorem Expr.sameOption_iff : ∀ a b : Option Expr, Expr.sameOption a b = true ↔ a = b
  | none, b => by cases b <;> simp [Expr.sameOption]
  | some a, b => by cases b <;> simp [Expr.sameOption, Expr.same_iff a]

theorem Callee.same_iff : ∀ a b : Callee, a.same b = true ↔ a = b
  | .name _, b => by cases b <;> simp [Callee.same]
  | .method o _, b => by cases b <;> simp [Callee.same, Expr.same_iff o]

theorem Call.same_iff : ∀ a b : Call, a.same b = true ↔ a = b
  | .mk a l, .mk b r => by simp [Call.same, Callee.same_iff a, Expr.sameList_iff l]

theorem Target.same_iff : ∀ a b : Target, a.same b = true ↔ a = b
  | .variable _, b => by cases b <;> simp [Target.same]
  | .field o _, b => by cases b <;> simp [Target.same, Expr.same_iff o]

theorem Stmt.same_iff : ∀ a b : Stmt, a.same b = true ↔ a = b
  | .assign t a, b => by cases b <;> simp [Stmt.same, Target.same_iff t, Expr.same_iff a]
  | .call c, b => by cases b <;> simp [Stmt.same, Call.same_iff c]
  | .branch c y n, b => by
      cases b <;>
        simp [Stmt.same, Expr.same_iff c, Stmt.sameList_iff y, Stmt.sameOption_iff n, and_assoc]
  | .loop c l, b => by cases b <;> simp [Stmt.same, Expr.same_iff c, Stmt.sameList_iff l]
  | .return a, b => by cases b <;> simp [Stmt.same, Expr.sameOption_iff a]

theorem Stmt.sameList_iff : ∀ l r : List Stmt, Stmt.sameList l r = true ↔ l = r
  | [], r => by cases r <;> simp [Stmt.sameList]
  | a :: l, r => by cases r <;> simp [Stmt.sameList, Stmt.same_iff a, Stmt.sameList_iff l]

theorem Stmt.sameOption_iff : ∀ a b : Option (List Stmt), Stmt.sameOption a b = true ↔ a = b
  | none, b => by cases b <;> simp [Stmt.sameOption]
  | some l, b => by cases b <;> simp [Stmt.sameOption, Stmt.sameList_iff l]

theorem Routine.same_iff : ∀ a b : Routine, a.same b = true ↔ a = b
  | .mk a p l, .mk b q r => by simp [Routine.same, Stmt.sameList_iff l, and_assoc]

end

instance : DecidableEq Routine := fun a b => decidable_of_iff _ (Routine.same_iff a b)

instance : DecidableEq Expr := fun a b => decidable_of_iff _ (Expr.same_iff a b)

instance : DecidableEq Program := fun a b =>
  decidable_of_iff (a.routines = b.routines)
    ⟨fun h => by cases a; cases b; cases h; rfl, fun h => h ▸ rfl⟩

end ProtoScript
