/-
Double-precision numbers (IEEE 754 binary64) as exact data.

# The representation

Every finite double is an integer multiple of the least positive one,
`2 ^ -1074`. So a finite double is a sign and a count of these *units*:
`1` is `2 ^ 1074` units, the greatest double lies below `2 ^ 2098` units.
Which counts occur is `Representable`: at most 53 significant bits. Zero
has two signs. All payloads of a NaN are one datum.

With this choice a finite double is a natural number with a sign:
addition is addition of integers, truncation is division, and comparison
is comparison. Only one operation has to say what "nearest" means,
`ofQuotient`, and every operation that rounds goes through it.

# Rounding

`ofQuotient neg num den` is the double nearest to `num / den` units with
the given sign. At a count `n` the representable counts lie `spacing n`
apart, so the nearest one is the quotient by `den * spacing`, rounded to
the nearest integer with ties to the even one, times the spacing. A
result that reaches `2 ^ 2098` units is infinite.
-/
import LineScript.Power

set_option autoImplicit false

namespace LineScript

namespace Double

/-- How many units make one. -/
def unitsPerOne : Nat := power 2 1074

/-- The least count of units that is too large for a finite double. -/
def overflowUnits : Nat := power 2 2098

/-- A count of units that a finite double can hold: 53 significant bits,
below the overflow bound. -/
def Representable (units : Nat) : Prop :=
  (∃ m e, m < power 2 53 ∧ units = m * power 2 e) ∧ units < overflowUnits

end Double

/-- A double-precision number. -/
inductive Double where
  /-- Not a number. -/
  | nan
  /-- An infinity, `neg` giving its sign. -/
  | infinite (neg : Bool)
  /-- A number of `2 ^ -1074`ths; `neg` distinguishes also `-0` from `0`. -/
  | finite (neg : Bool) (units : Nat)
      (representable : Double.Representable units)
  deriving DecidableEq

namespace Double

theorem overflowUnits_pos : 0 < overflowUnits := by
  have hpos : ∀ n, 0 < power 2 n := Nat.two_pow_pos
  exact hpos 2098

theorem representable_zero : Representable 0 :=
  ⟨⟨0, 0, by decide, by decide⟩, overflowUnits_pos⟩

/-- Zero. -/
def zero : Double := .finite false 0 representable_zero

instance : Inhabited Double := ⟨zero⟩

-- ========================================================== rounding

/-- A quotient rounded to the nearest integer, a tie to the even one. -/
def roundHalfEven (num den : Nat) : Nat :=
  if 2 * (num % den) > den ∨ (2 * (num % den) = den ∧ num / den % 2 = 1) then
    num / den + 1
  else num / den

/-- The distance between neighbouring representable counts at `units`. -/
def spacing (units : Nat) : Nat := power 2 (units.log2 - 52)

/-- The representable count nearest to `num / den`, whatever its size. -/
def nearestUnits (num den : Nat) : Nat :=
  roundHalfEven num (den * spacing (num / den)) * spacing (num / den)

theorem roundHalfEven_le (num den : Nat) :
    roundHalfEven num den ≤ num / den + 1 := by
  unfold roundHalfEven
  split <;> omega

theorem div_spacing_lt (units : Nat) : units / spacing units < power 2 53 := by
  have hadd : power 2 (53 + (units.log2 - 52)) = power 2 53 * spacing units :=
    Nat.pow_add 2 53 (units.log2 - 52)
  have hmono : power 2 (units.log2 + 1) ≤ power 2 (53 + (units.log2 - 52)) :=
    Nat.pow_le_pow_right (by decide) (by omega)
  have hpos : 0 < spacing units := Nat.two_pow_pos _
  rw [Nat.div_lt_iff_lt_mul hpos, ← hadd]
  exact Nat.lt_of_lt_of_le Nat.lt_log2_self hmono

/-- Rounding leaves at most 53 significant bits. -/
theorem nearestUnits_significant (num den : Nat) :
    ∃ m e, m < power 2 53 ∧ nearestUnits num den = m * power 2 e := by
  have hlt : num / (den * spacing (num / den)) < power 2 53 := by
    rw [← Nat.div_div_eq_div_mul]
    exact div_spacing_lt _
  have hle : roundHalfEven num (den * spacing (num / den)) ≤ power 2 53 :=
    Nat.le_trans (roundHalfEven_le _ _) hlt
  rcases Nat.lt_or_eq_of_le hle with h | h
  · exact ⟨_, _, h, rfl⟩
  · refine ⟨1, 53 + ((num / den).log2 - 52), by decide, ?_⟩
    rw [nearestUnits, h, Nat.one_mul]
    exact (Nat.pow_add 2 53 _).symm

/-- The double nearest to `num / den` units, with the given sign. -/
def ofQuotient (neg : Bool) (num den : Nat) : Double :=
  if h : nearestUnits num den < overflowUnits then
    .finite neg (nearestUnits num den) ⟨nearestUnits_significant num den, h⟩
  else
    .infinite neg

-- ======================================================= conversions

/-- The signed count of units of a finite double. -/
def signedUnits (neg : Bool) (units : Nat) : Int :=
  if neg then -units else units

/-- The double nearest to an integer. -/
def ofInt (n : Int) : Double := ofQuotient (n < 0) (n.natAbs * unitsPerOne) 1

/-- The double nearest to a natural number. -/
def ofNat (n : Nat) : Double := ofInt n

/-- The double nearest to the decimal fraction `digits / 10 ^ places`. -/
def ofDecimal (neg : Bool) (digits places : Nat) : Double :=
  ofQuotient neg (digits * unitsPerOne) (power 10 places)

/-- The integer part of a finite double: truncation toward zero. -/
def truncate? : Double → Option Int
  | .finite neg units _ => some (signedUnits neg (units / unitsPerOne))
  | _ => none

/-- Whether a double is a finite number without a fraction. -/
def isIntegral : Double → Bool
  | .finite _ units _ => units % unitsPerOne = 0
  | _ => false

/-- An integer brought into the range of 64-bit signed integers. -/
def clampInt64 (n : Int) : Int :=
  max (-(power 2 63 : Int)) (min ((power 2 63 : Int) - 1) n)

/-- The byte of a double between 0 and 255, its fraction dropped. -/
def toByte? : Double → Option Nat
  | .finite neg units _ =>
    if signedUnits neg units < 0 ∨ 255 * unitsPerOne < units then none
    else some (units / unitsPerOne)
  | _ => none

-- ============================================================== bits

/-- The low 63 bits of a finite double: exponent field and fraction. -/
def magnitudeBits (units : Nat) : Nat :=
  (units.log2 - 52) * power 2 52 + units / spacing units

/-- The 64 bits of a double; a NaN has the quiet pattern without sign. -/
def toBits : Double → Nat
  | .nan => 2047 * power 2 52 + power 2 51
  | .infinite neg => (if neg then power 2 63 else 0) + 2047 * power 2 52
  | .finite neg units _ =>
    (if neg then power 2 63 else 0) + magnitudeBits units

/-- The double of 64 bits. -/
def ofBits (bits : Nat) : Double :=
  let neg := bits / power 2 63 % 2 == 1
  let field := bits / power 2 52 % 2048
  let fraction := bits % power 2 52
  if field = 2047 then
    if fraction = 0 then .infinite neg else .nan
  else if field = 0 then
    ofQuotient neg fraction 1
  else
    ofQuotient neg ((power 2 52 + fraction) * power 2 (field - 1)) 1

end Double

end LineScript
