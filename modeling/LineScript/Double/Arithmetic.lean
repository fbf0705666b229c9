/-
Arithmetic and comparison of doubles.

Each operation on finite numbers is exact on the counts of units and
then rounded once, which is what IEEE 754 asks of the four basic
operations. The remainder is exact already: its count of units is the
remainder of the counts, with the sign of the dividend.
-/
import LineScript.Double.Basic

set_option autoImplicit false

namespace LineScript

namespace Double

/-- The same number with the other sign. -/
def neg : Double → Double
  | .nan => .nan
  | .infinite s => .infinite !s
  | .finite s units h => .finite (!s) units h

/-- Sum. Opposite infinities have none; an exact zero is positive unless
both summands are negative. -/
def add : Double → Double → Double
  | .nan, _ => .nan
  | _, .nan => .nan
  | .infinite s, .infinite t => if s = t then .infinite s else .nan
  | .infinite s, .finite _ _ _ => .infinite s
  | .finite _ _ _, .infinite t => .infinite t
  | .finite s m _, .finite t n _ =>
    let total := signedUnits s m + signedUnits t n
    if total = 0 then ofQuotient (s && t) 0 1
    else ofQuotient (total < 0) total.natAbs 1

/-- Difference. -/
def sub (x y : Double) : Double := add x y.neg

/-- Whether a double is a zero of either sign. -/
def isZero : Double → Bool
  | .finite _ units _ => units = 0
  | _ => false

/-- Whether the sign bit is set; a NaN has none. -/
def isNegative : Double → Bool
  | .nan => false
  | .infinite s => s
  | .finite s _ _ => s

/-- Product. -/
def mul : Double → Double → Double
  | .nan, _ => .nan
  | _, .nan => .nan
  | .infinite s, y => if y.isZero then .nan else .infinite (s ^^ y.isNegative)
  | x, .infinite t => if x.isZero then .nan else .infinite (x.isNegative ^^ t)
  | .finite s m _, .finite t n _ => ofQuotient (s ^^ t) (m * n) unitsPerOne

/-- Quotient. -/
def div : Double → Double → Double
  | .nan, _ => .nan
  | _, .nan => .nan
  | .infinite _, .infinite _ => .nan
  | .infinite s, .finite t _ _ => .infinite (s ^^ t)
  | .finite s _ _, .infinite t => ofQuotient (s ^^ t) 0 1
  | .finite s m _, .finite t n _ =>
    if n = 0 then
      if m = 0 then .nan else .infinite (s ^^ t)
    else
      ofQuotient (s ^^ t) (m * unitsPerOne) n

/-- Remainder of the division truncated toward zero. -/
def rem : Double → Double → Double
  | .nan, _ => .nan
  | _, .nan => .nan
  | .infinite _, _ => .nan
  | .finite s m h, .infinite _ => .finite s m h
  | .finite s m _, .finite _ n _ =>
    if n = 0 then .nan else ofQuotient s (m % n) 1

/-- Whether `x` is less than `y`; a NaN compares with nothing. -/
def lt : Double → Double → Bool
  | .nan, _ => false
  | _, .nan => false
  | .infinite s, .infinite t => s && !t
  | .infinite s, .finite _ _ _ => s
  | .finite _ _ _, .infinite t => !t
  | .finite s m _, .finite t n _ => signedUnits s m < signedUnits t n

/-- Whether two doubles are the same number: the zeros are, and a NaN is
no number. -/
def same : Double → Double → Bool
  | .infinite s, .infinite t => s = t
  | .finite s m _, .finite t n _ => signedUnits s m = signedUnits t n
  | _, _ => false

/-- One. -/
def one : Double := ofNat 1

end Double

end LineScript
