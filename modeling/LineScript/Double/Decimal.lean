/-
Doubles in decimal.

# Shortest digits

A double is written with the fewest digits that read back as the same
double; of several such decimals the nearest one is taken, and of two
equally near ones the greater. The search works on the grids of
multiples of a power of ten, from coarse to fine: the interval of reals
that round to the double holds a point of a grid exactly when it holds
one of the double's two neighbours on that grid.

All quantities are counts of `10 ^ -1074`: a double of `n` units is
`n * 5 ^ 1074` of them, an integer, so on the finest grid the double is
itself a point and the search ends there at the latest. The bounds of
the interval are midpoints between neighbouring doubles and are kept
doubled; they belong to the interval when the significand is even,
because ties are read to the even neighbour.

# Notation

Digits are written positionally, whatever the size: no exponent, no
point in an integer, a zero in front of a point.
-/
import LineScript.Double.Basic
import LineScript.Text.Numeral

set_option autoImplicit false

namespace LineScript

namespace Double

/-- How many `10 ^ -1074`ths are in a unit. -/
def fineParts : Nat := power 5 1074

/-- The decimals that read back as a double, as an interval of doubled
counts of `10 ^ -1074`. -/
structure Interval where
  low : Nat
  high : Nat
  /-- Whether the bounds themselves belong to the interval. -/
  closed : Bool

namespace Interval

/-- The interval of a positive count of units. Below a power of two the
neighbours lie half as far apart as above it. -/
def ofUnits (units : Nat) : Interval :=
  let gap := spacing units
  let significand := units / gap
  let below := if significand = power 2 52 ∧ 1 < gap then gap / 2 else gap
  { low := (2 * units - below) * fineParts
    high := (2 * units + gap) * fineParts
    closed := significand % 2 == 0 }

/-- Whether a count of `10 ^ -1074` lies in the interval. -/
def holds (interval : Interval) (fine : Nat) : Bool :=
  if interval.closed then interval.low ≤ 2 * fine && 2 * fine ≤ interval.high
  else interval.low < 2 * fine && 2 * fine < interval.high

end Interval

/-- The multiple of `grid` that stands for the value `fine`: of its two
neighbours on the grid one that lies in the interval, the nearer if both
do, and the upper one at a tie. -/
def gridPoint? (interval : Interval) (fine grid : Nat) : Option Nat :=
  let lower := fine / grid
  let above := interval.holds ((lower + 1) * grid)
  if lower ≠ 0 ∧ interval.holds (lower * grid) then
    if above ∧ grid ≤ 2 * (fine % grid) then some (lower + 1) else some lower
  else if above then some (lower + 1)
  else none

/-- The coarsest grid `10 ^ k`, `k ≤ level`, with a point for the value,
and the point's number of grid steps. -/
def coarsest (interval : Interval) (fine : Nat) : (level : Nat) → Nat × Nat
  | 0 => (fine, 0)
  | level + 1 =>
    match gridPoint? interval fine (power 10 (level + 1)) with
    | some steps => (steps, level + 1)
    | none => coarsest interval fine level

/-- The shortest digits of a positive count of units, and the power of
ten, counted from `-1074`, that they are multiples of. The search starts
at a power of ten above the value: `10` exceeds `2 ^ 3`. -/
def shortest (units : Nat) : Nat × Nat :=
  let fine := units * fineParts
  coarsest (Interval.ofUnits units) fine (fine.log2 / 3 + 1)

/-- The text of `digits` times `10 ^ (exponent - 1074)`. -/
def positional (digits exponent : Nat) : Text :=
  let text := numeral digits
  if 1074 ≤ exponent then
    text ++ List.replicate (exponent - 1074) '0'
  else
    let places := 1074 - exponent
    let padded := List.replicate (places + 1 - text.length) '0' ++ text
    padded.take (padded.length - places) ++ '.'
      :: padded.drop (padded.length - places)

/-- The text of a count of units. -/
def unitsText (units : Nat) : Text :=
  if units = 0 then ['0'] else positional (shortest units).1 (shortest units).2

/-- The text of a double: its shortest digits, positionally. -/
def decimal : Double → Text
  | .nan => "NaN".toList
  | .infinite neg => if neg then "-inf".toList else "inf".toList
  | .finite neg units _ =>
    if neg then '-' :: unitsText units else unitsText units

/-- The text of a script's number: below `10 ^ 15` an integer is written
as an integer (so that a negative zero loses its sign), and every other
number by its shortest digits. -/
def text (x : Double) : Text :=
  match x with
  | .finite neg units _ =>
    if units % unitsPerOne = 0 ∧ units < power 10 15 * unitsPerOne then
      intNumeral (signedUnits neg (units / unitsPerOne))
    else x.decimal
  | _ => x.decimal

end Double

end LineScript
