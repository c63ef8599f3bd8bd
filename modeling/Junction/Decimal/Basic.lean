/-!
# Decimal numerals

A `Decimal` is a number written in decimal: a sign, a coefficient and a power of ten.

`Decimal.read?` reads a numeral: an optional sign, digits with a point among them, before them or
after them, or none, and an optional exponent. Nothing else is a numeral, neither white space around
it nor the names of infinities.
-/

namespace Junction

/-- The number `± coefficient · 10 ^ exponent`. -/
structure Decimal where
  negative : Bool
  coefficient : Nat
  exponent : Int
  deriving DecidableEq

namespace Decimal

/-- An ASCII digit. -/
def isDigit (c : Char) : Bool := '0' ≤ c && c ≤ '9'

/-- The number that digits write. -/
def value (digits : List Char) : Nat :=
  digits.foldl (fun n c => 10 * n + (c.toNat - '0'.toNat)) 0

/-- A sign at the front of a text, taken for plus where there is none, and what follows it. -/
def sign : List Char → Bool × List Char
  | '-' :: cs => (true, cs)
  | '+' :: cs => (false, cs)
  | cs => (false, cs)

/-- The exponent that `cs` writes, all of it; zero where `cs` is empty. -/
def exponent? : List Char → Option Int
  | [] => some 0
  | c :: cs =>
    if c = 'e' ∨ c = 'E' then
      let (negative, digits) := sign cs
      if digits ≠ [] ∧ digits.all isDigit then
        some (if negative then -(value digits) else value digits)
      else none
    else none

/-- The digits after a point at the front of a text, and what follows them. -/
def fraction : List Char → List Char × List Char
  | '.' :: cs => (cs.takeWhile isDigit, cs.dropWhile isDigit)
  | cs => ([], cs)

/-- **The number that `cs` writes**, all of it. -/
def read? (cs : List Char) : Option Decimal :=
  let (negative, cs) := sign cs
  let whole := cs.takeWhile isDigit
  let (fraction, cs) := fraction (cs.dropWhile isDigit)
  if whole = [] ∧ fraction = [] then none
  else (exponent? cs).map fun e => ⟨negative, value (whole ++ fraction), e - fraction.length⟩

end Decimal

end Junction
