/-!
# Heaps of cells

Three kinds of cell live while a program runs: slots that hold a value, scopes
that bind names to slots, and objects.  Each kind has a heap of its own, and an
address says which heap it points into, so an address of a scope is never
followed into the slots.  Cells are only ever added; the view of a heap is
`get?`, and two addresses are the same cell exactly if they are equal.

An address stands for one of the interpreter's shared references (`Slot`,
`ScopeRef`, `ObjectRef`).  A cell to which no reference is left is given up there
and stays here, where nothing can reach it any more.
-/

namespace ProtoScript

/-- The kinds of cell. -/
inductive Region where
  /-- A cell that holds one value. -/
  | slot
  /-- A cell that binds names. -/
  | scope
  /-- A cell with fields and a prototype. -/
  | object
deriving DecidableEq, Repr

/-- The place of a cell in the heap of its region. -/
structure Address (r : Region) where
  /-- The number of cells that were there before it. -/
  index : Nat
deriving DecidableEq, Repr

instance {r : Region} : Inhabited (Address r) := ⟨⟨0⟩⟩

universe u

/-- The cells of one region, in the order in which they were made. -/
structure Heap (r : Region) (α : Type u) where
  /-- The contents of the cells. -/
  cells : Array α

namespace Heap

variable {r : Region} {α : Type u}

/-- The heap without cells. -/
def empty : Heap r α := ⟨#[]⟩

instance : EmptyCollection (Heap r α) := ⟨empty⟩

instance : Inhabited (Heap r α) := ⟨empty⟩

/-- The number of cells. -/
def size (h : Heap r α) : Nat := h.cells.size

/-- The address of the cell that is made next. -/
def fresh (h : Heap r α) : Address r := ⟨h.cells.size⟩

/-- Makes a cell, at `h.fresh`. -/
def push (h : Heap r α) (a : α) : Heap r α := ⟨h.cells.push a⟩

/-- The content of a cell. -/
def get? (h : Heap r α) (p : Address r) : Option α := h.cells[p.index]?

/-- Overwrites a cell; an address outside the heap leaves it as it is. -/
def set (h : Heap r α) (p : Address r) (a : α) : Heap r α := ⟨h.cells.setIfInBounds p.index a⟩

@[simp] theorem size_push (h : Heap r α) (a : α) : (h.push a).size = h.size + 1 := by
  simp [size, push]

@[simp] theorem size_set (h : Heap r α) (p : Address r) (a : α) : (h.set p a).size = h.size := by
  simp [size, set]

theorem get?_eq_none_iff (h : Heap r α) (p : Address r) : h.get? p = none ↔ h.size ≤ p.index := by
  simp [get?, size]

@[simp] theorem get?_fresh (h : Heap r α) : h.get? h.fresh = none := by
  simp [get?, fresh]

@[simp] theorem get?_push_fresh (h : Heap r α) (a : α) : (h.push a).get? h.fresh = some a := by
  simp [get?, push, fresh]

/-- **A new cell leaves the others alone.** -/
theorem get?_push_of_ne (h : Heap r α) (a : α) {p : Address r} (hp : p ≠ h.fresh) :
    (h.push a).get? p = h.get? p := by
  have hi : p.index ≠ h.cells.size := fun e => hp (by cases p; cases e; rfl)
  simp [get?, push, Array.getElem?_push, hi]

/-- **Overwriting a cell leaves the others alone.** -/
theorem get?_set_of_ne (h : Heap r α) (a : α) {p q : Address r} (hq : q ≠ p) :
    (h.set p a).get? q = h.get? q := by
  have hi : p.index ≠ q.index := fun e => hq (by cases p; cases q; cases e; rfl)
  simp [get?, set, hi]

theorem get?_set_self (h : Heap r α) (a : α) {p : Address r} (hp : p.index < h.size) :
    (h.set p a).get? p = some a := by
  simp only [size] at hp
  simp [get?, set, hp]

theorem get?_push (h : Heap r α) (a : α) (p : Address r) :
    (h.push a).get? p = if p = h.fresh then some a else h.get? p := by
  split
  · next hp => rw [hp, get?_push_fresh]
  · next hp => exact get?_push_of_ne h a hp

theorem get?_set (h : Heap r α) (p q : Address r) (a : α) :
    (h.set p a).get? q = if q = p ∧ p.index < h.size then some a else h.get? q := by
  by_cases hq : q = p
  · subst hq
    by_cases hi : q.index < h.size
    · rw [get?_set_self h a hi, if_pos ⟨rfl, hi⟩]
    · have hn : (h.set q a).get? q = none := (get?_eq_none_iff _ _).2 (by simpa using hi)
      have hn' : h.get? q = none := (get?_eq_none_iff _ _).2 (by simpa using hi)
      rw [hn, hn', if_neg fun hc => hi hc.2]
  · rw [get?_set_of_ne h a hq, if_neg fun hc => hq hc.1]

theorem index_lt_of_get?_eq_some {h : Heap r α} {p : Address r} {a : α} (ha : h.get? p = some a) :
    p.index < h.size := by
  refine Nat.lt_of_not_le fun hi => ?_
  rw [(get?_eq_none_iff h p).2 hi] at ha
  cases ha

theorem ne_fresh_of_lt {h : Heap r α} {p : Address r} (hp : p.index < h.size) : p ≠ h.fresh := by
  rintro rfl
  exact absurd hp (Nat.lt_irrefl _)

end Heap
end ProtoScript
