import Junction.Decimal.Basic

/-!
# Rounding to 53 significant bits

Numbers are compared in double precision: as the multiples of the least positive double that are
nearest to them, with a significand of at most 53 bits, a tie going to the even one. The least
positive double is `2 ^ (-1074)`, so a double is a whole number of these **units**, and its order is
the order of integers.

* `Binary64.nearest` rounds a fraction;
* `Decimal.toUnits?` rounds a decimal number, unless it is too large for double precision.
-/

namespace Junction

namespace Binary64

/-- How many units make one, as a power of two. -/
def unitExponent : Nat := 1074

/-- The first number of units, as a power of two, that is too large. -/
def limitExponent : Nat := 1024 + unitExponent

/-- The integer nearest to `num / den`, and the even one of two that are equally near. -/
def roundHalfEven (num den : Nat) : Nat :=
  let q := num / den
  let r := num % den
  if 2 * r < den then q else if den < 2 * r then q + 1 else q + q % 2

/-- **The double nearest to `num / den`**, in units: the quotient keeps the 53 bits from its highest
one on, or all its bits down to the unit if these are fewer. -/
def nearest (num den : Nat) : Nat :=
  let scaled := num * Nat.pow 2 unitExponent
  -- a quotient has one bit more than its logarithm
  let dropped := (scaled / den).log2 - 52
  roundHalfEven scaled (den * Nat.pow 2 dropped) * Nat.pow 2 dropped

end Binary64

namespace Decimal

open Binary64

/-- The magnitude of a number in units, rounded. A power of ten past the range of double precision
is not written out: such a number is too large, or rounds to zero. -/
def magnitude? (d : Decimal) : Option Nat :=
  let units :=
    if d.coefficient = 0 then 0
    else if 0 ≤ d.exponent then nearest (d.coefficient * Nat.pow 10 (min d.exponent 400).toNat) 1
    else if -d.exponent ≤ d.coefficient.log2 + 400 then
      nearest d.coefficient (Nat.pow 10 (-d.exponent).toNat)
    else 0
  if units < Nat.pow 2 limitExponent then some units else none

/-- **The nearest double**, in units; none if it would be infinite. -/
def toUnits? (d : Decimal) : Option Int :=
  d.magnitude?.map fun units => if d.negative then -(units : Int) else units

end Decimal

end Junction
