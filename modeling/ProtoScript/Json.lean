/-!
# JSON values

The tree that a JSON text denotes.  Integer literals keep their exact value;
every other number keeps its literal, since no number with a fraction or an
exponent is ever looked into.  A string whose escapes hold an unpaired
surrogate is well formed JSON and yet no text, so the text of a string is
optional.  Members keep their order, and a key may occur twice.
-/

namespace ProtoScript

/-- A JSON value. -/
inductive Json where
  /-- The literal `null`. -/
  | null
  /-- A truth value. -/
  | bool (value : Bool)
  /-- A number written as an integer. -/
  | int (value : Int)
  /-- Any other number, as it is written. -/
  | real (literal : String)
  /-- A string, without its text if that has an unpaired surrogate. -/
  | str (text : Option String)
  /-- An array. -/
  | arr (elements : List Json)
  /-- An object. -/
  | obj (members : List (Option String × Json))

namespace Json

instance : Inhabited Json := ⟨.null⟩

/-- A string with a text. -/
def text (s : String) : Json := .str (some s)

/-- A natural number. -/
def nat (n : Nat) : Json := .int n

/-- An integer of 64 bits. -/
def int64 (i : Int64) : Json := .int i.toInt

/-- An object whose keys are texts. -/
def record (members : List (String × Json)) : Json :=
  .obj (members.map fun m => (some m.1, m.2))

/-- An object with one member. -/
def tagged (tag : String) (payload : Json) : Json := record [(tag, payload)]

/-- The first member of an object with the given key. -/
def member? (key : String) : Json → Option Json
  | .obj members => members.lookup (some key)
  | _ => none

mutual

/-- The number of brackets and braces that are open at once at most. -/
def depth : Json → Nat
  | .arr elements => depthElements elements + 1
  | .obj members => depthMembers members + 1
  | _ => 0

/-- The greatest depth among the elements of an array. -/
def depthElements : List Json → Nat
  | [] => 0
  | j :: l => max (depth j) (depthElements l)

/-- The greatest depth among the members of an object. -/
def depthMembers : List (Option String × Json) → Nat
  | [] => 0
  | (_, j) :: l => max (depth j) (depthMembers l)

end

@[simp] theorem depth_null : null.depth = 0 := rfl

@[simp] theorem depth_bool (b : Bool) : (bool b).depth = 0 := rfl

@[simp] theorem depth_int (n : Int) : (int n).depth = 0 := rfl

@[simp] theorem depth_str (t : Option String) : (str t).depth = 0 := rfl

@[simp] theorem depth_text (s : String) : (text s).depth = 0 := rfl

@[simp] theorem depth_int64 (i : Int64) : (int64 i).depth = 0 := rfl

end Json
end ProtoScript
