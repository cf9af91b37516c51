/-!
# Decimal integers of 64 bits

An integer is written in decimal without leading zeros, after `-` if it is
negative, and read from an optional sign followed by at least one ASCII digit.
Reading refuses what lies outside `-2^63 ≤ n < 2^63`; it accepts leading zeros
and `+`, so a number has many spellings and one written form.  Integer literals,
which `tokenize` reads, and the lines that `inputi` reads are integers of this form.
-/

namespace ProtoScript
namespace Decimal

/-- Whether an integer is one of 64 bits. -/
abbrev InRange (n : Int) : Prop := Int64.minValue.toInt ≤ n ∧ n ≤ Int64.maxValue.toInt

/-- The integer of 64 bits with the given value, if there is one. -/
def ofInt? (n : Int) : Option Int64 :=
  if InRange n then some (Int64.ofInt n) else none

/-- **Nothing wraps:** an integer in range is kept and any other is refused. -/
theorem ofInt?_eq_some_iff {n : Int} {i : Int64} : ofInt? n = some i ↔ i.toInt = n := by
  unfold ofInt? InRange
  constructor
  · intro h
    split at h
    · next hn =>
      obtain rfl := Option.some.inj h
      exact Int64.toInt_ofInt_of_le hn.1 (Int.lt_add_one_of_le hn.2)
    · simp at h
  · rintro rfl
    rw [if_pos ⟨Int64.minValue_le_toInt i, Int64.toInt_le i⟩, Int64.ofInt_toInt]

/-- Whether a character is one of the ten ASCII digits. -/
def isDigit (c : Char) : Bool := decide ('0'.toNat ≤ c.toNat ∧ c.toNat ≤ '9'.toNat)

/-- The value of a digit. -/
def digitValue (c : Char) : Nat := c.toNat - '0'.toNat

/-- The digit with the value `d % 10`. -/
def digit (d : Nat) : Char := Char.ofNat ('0'.toNat + d % 10)

/-- The value of a sequence of digits. -/
def value (l : List Char) : Nat := l.foldl (fun n c => 10 * n + digitValue c) 0

/-- The digits of a number, at least one, the first of a positive number not zero. -/
def digits (n : Nat) : List Char :=
  if n < 10 then [digit n] else digits (n / 10) ++ [digit n]

/-- The written form of an integer. -/
def chars (n : Int) : List Char :=
  match n with
  | .ofNat n => digits n
  | .negSucc n => '-' :: digits (n + 1)

/-- The written form of an integer of 64 bits. -/
def text (i : Int64) : String := String.ofList (chars i.toInt)

/-- The value of a sequence of digits, if it is one and not empty. -/
def unsigned? (l : List Char) : Option Nat :=
  if l ≠ [] ∧ l.all isDigit = true then some (value l) else none

/-- The integer that an optionally signed sequence of digits denotes. -/
def signed? : List Char → Option Int
  | '+' :: l => (unsigned? l).map Int.ofNat
  | '-' :: l => (unsigned? l).map fun n => -Int.ofNat n
  | l => (unsigned? l).map Int.ofNat

/-- Reads an integer of 64 bits. -/
def read? (l : List Char) : Option Int64 := (signed? l).bind ofInt?

theorem digitValue_digit (d : Nat) : digitValue (digit d) = d % 10 := by
  have h : d % 10 < 10 := Nat.mod_lt _ (by decide)
  have hs : ∀ k : Fin 10, digitValue (Char.ofNat ('0'.toNat + k.val)) = k.val := by decide
  exact hs ⟨d % 10, h⟩

theorem isDigit_digit (d : Nat) : isDigit (digit d) = true := by
  have h : d % 10 < 10 := Nat.mod_lt _ (by decide)
  have hs : ∀ k : Fin 10, isDigit (Char.ofNat ('0'.toNat + k.val)) = true := by decide
  exact hs ⟨d % 10, h⟩

theorem value_append_digit (l : List Char) (c : Char) :
    value (l ++ [c]) = 10 * value l + digitValue c := by
  simp [value]

theorem digits_ne_nil (n : Nat) : digits n ≠ [] := by
  rw [digits]
  split <;> simp

theorem all_isDigit_digits (n : Nat) : (digits n).all isDigit = true := by
  fun_induction digits n with
  | case1 n h => simp [isDigit_digit]
  | case2 n h ih => simp [ih, isDigit_digit]

/-- **The digits of a number denote it.** -/
theorem value_digits (n : Nat) : value (digits n) = n := by
  fun_induction digits n with
  | case1 n h => simp [value, digitValue_digit]; omega
  | case2 n h ih => rw [value_append_digit, ih, digitValue_digit]; omega

end Decimal
end ProtoScript
