/-
Decimal numerals of natural numbers and integers: the digits of a
number, most significant first and without leading zeros, and the number
that a text of digits stands for.
-/
import LineScript.Text.Basic

set_option autoImplicit false

namespace LineScript

/-- The character of a decimal digit. -/
def digitChar (d : Nat) : Char := Char.ofNat (48 + d)

/-- The number that a decimal digit stands for. -/
def digitValue (c : Char) : Nat := c.toNat - 48

/-- The decimal numeral of a natural number. -/
def numeral (n : Nat) : Text :=
  if n < 10 then [digitChar n] else numeral (n / 10) ++ [digitChar (n % 10)]
termination_by n

/-- The decimal numeral of an integer, with a minus sign in front of the
negative ones. -/
def intNumeral (n : Int) : Text :=
  if n < 0 then '-' :: numeral n.natAbs else numeral n.natAbs

/-- The number that a text of decimal digits stands for. -/
def ofNumeral (digits : Text) : Nat :=
  digits.foldl (fun n c => 10 * n + digitValue c) 0

-- ====================================================== small lemmas

theorem digitChar_toNat {d : Nat} (h : d < 10) :
    (digitChar d).toNat = 48 + d := by
  have h' : d = 0 ∨ d = 1 ∨ d = 2 ∨ d = 3 ∨ d = 4 ∨ d = 5 ∨ d = 6 ∨ d = 7
      ∨ d = 8 ∨ d = 9 := by
    omega
  rcases h' with rfl | rfl | rfl | rfl | rfl | rfl | rfl | rfl | rfl | rfl
    <;> rfl

@[simp] theorem digitValue_digitChar {d : Nat} (h : d < 10) :
    digitValue (digitChar d) = d := by
  simp [digitValue, digitChar_toNat h]

theorem ofNumeral_append_digit (digits : Text) (c : Char) :
    ofNumeral (digits ++ [c]) = 10 * ofNumeral digits + digitValue c := by
  simp [ofNumeral]

/-- A number is what its numeral stands for. -/
theorem ofNumeral_numeral (n : Nat) : ofNumeral (numeral n) = n := by
  fun_induction numeral n with
  | case1 n h => simp [ofNumeral, digitValue_digitChar h]
  | case2 n h ih =>
    rw [ofNumeral_append_digit, ih,
      digitValue_digitChar (Nat.mod_lt _ (by decide))]
    omega

theorem numeral_ne_nil (n : Nat) : numeral n ≠ [] := by
  unfold numeral
  split <;> simp

end LineScript
