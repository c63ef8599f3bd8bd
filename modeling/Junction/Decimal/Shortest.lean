import Junction.Decimal.Binary64

/-!
# The shortest decimal of a double

Of the decimal numbers that round to a double, `Binary64.shortest` is one with the fewest
significant digits, of these the nearest, and of two that are equally near the larger. It tries one
digit, two digits and so on: on the grid of the decimals with so many digits, only the two
neighbours of the double can be the nearest. Seventeen digits are enough for every double.

`Decimal.plainText` writes a decimal number out without an exponent.
-/

namespace Junction

namespace Binary64

/-- How many decimal digits `n` has; none for zero. -/
def digitCount (n : Nat) : Nat := if n = 0 then 0 else (Nat.toDigits 10 n).length

/-- The power of ten `p` such that the double of so many units is below `10 ^ p` and not below a
tenth of that. -/
def decimalExponent (units : Nat) : Int :=
  let one := Nat.pow 2 unitExponent
  if one ≤ units then digitCount (units / one)
  else
    let d := digitCount (one / units)
    if one ≤ units * Nat.pow 10 (d - 1) then 2 - (d : Int) else 1 - (d : Int)

/-- The fraction `n · 10 ^ e`. -/
def scaled (n : Nat) (e : Int) : Nat × Nat := (n * Nat.pow 10 e.toNat, Nat.pow 10 (-e).toNat)

/-- The nearer of the two neighbours with `digits` digits that round to the double. -/
def neighbour? (units digits : Nat) : Option Decimal :=
  let e := decimalExponent units - digits
  let (den, num) := scaled (Nat.pow 2 unitExponent) e
  let below := units * num / den
  let roundsBack (n : Nat) : Bool :=
    let (num, den) := scaled n e
    nearest num den == units
  -- a tie goes to the upper neighbour
  let upperNearer := decide (den ≤ 2 * (units * num % den))
  if roundsBack below && !(upperNearer && roundsBack (below + 1)) then some ⟨false, below, e⟩
  else if roundsBack (below + 1) then some ⟨false, below + 1, e⟩
  else none

/-- **The shortest decimal** of a positive double. -/
def shortest (units : Nat) : Decimal :=
  ((List.range 17).findSome? fun n => neighbour? units (n + 1)).getD ⟨false, 0, 0⟩

end Binary64

namespace Decimal

/-- Digits without the zeros at their end. -/
def trimZeros (digits : List Char) : List Char := (digits.reverse.dropWhile (· == '0')).reverse

/-- A number written out: its digits, with a point among them where it has a fraction. -/
def plainText (d : Decimal) : String :=
  let digits := Nat.toDigits 10 d.coefficient
  let body :=
    if 0 ≤ d.exponent then
      if d.coefficient = 0 then ['0'] else digits ++ List.replicate d.exponent.toNat '0'
    else
      let places := (-d.exponent).toNat
      let padded := List.replicate (places + 1 - digits.length) '0' ++ digits
      let whole := padded.take (padded.length - places)
      match trimZeros (padded.drop (padded.length - places)) with
      | [] => whole
      | fraction => whole ++ '.' :: fraction
  String.ofList (if d.negative then '-' :: body else body)

/-- The text of a number in double precision: the shortest decimal, written out. -/
def doubleText (d : Decimal) : String :=
  match d.magnitude? with
  | none => if d.negative then "-inf" else "inf"
  | some 0 => if d.negative then "-0" else "0"
  | some units => { Binary64.shortest units with negative := d.negative }.plainText

end Decimal

end Junction
