import Junction.Condition
import Junction.Decimal.Binary64
import Junction.Facts.Basic
import Junction.Facts.Pattern

/-!
# Conditions checked against facts

A condition is decided by the value of its field. `Facts.check` is true, false, or none where the
field is not known or the operator is no comparison; only the tests `IS NULL` and `IS NOT NULL`,
which ask whether the field is known, are always decided.

* `compareValues` is the order behind the comparisons: that of numbers, in double precision, where
  both texts are numerals, and otherwise that of texts;
* `Facts.holds` takes an undecided condition for false, and `Facts.knows` tells whether a condition
  is decided.
-/

namespace Junction

open Text

/-- The number that a text writes, white space around it aside, in units of double precision. It
has to be finite. -/
def number? (cs : List Char) : Option Int := (Decimal.read? (trim cs)).bind Decimal.toUnits?

/-- **The order of values.** -/
def compareValues (s t : String) : Ordering :=
  match number? s.toList, number? t.toList with
  | some a, some b => compare a b
  | _, _ => compareText s.toList t.toList

/-- A value compared with a text. -/
def Comparison.holds (c : Comparison) (value text : String) : Bool :=
  match c with
  | eq | is => compareValues value text == .eq
  | ne | differs | isNot => compareValues value text != .eq
  | lt => compareValues value text == .lt
  | le => compareValues value text != .gt
  | gt => compareValues value text == .gt
  | ge => compareValues value text != .lt
  | like => matchesPattern text value
  | notLike => !matchesPattern text value
  | includes => occursIn text.toList value.toList
  | excludes => !occursIn text.toList value.toList
  | startsWith => text.toList.isPrefixOf value.toList
  | endsWith => text.toList.isSuffixOf value.toList

/-- A text that asks, with `IS`, for a field that is not known. -/
def isNull (s : String) : Bool := sameCaseless s.toList "NULL".toList

namespace Facts

/-- **Whether a condition is true**, as far as the facts decide it. -/
def check (facts : Facts) (c : Condition) : Option Bool :=
  match Comparison.ofText? c.operator, facts.get? c.left with
  | none, _ => none
  | some .is, value? =>
    if isNull c.right then some value?.isNone
    else value?.map fun value => Comparison.is.holds value c.right
  | some .isNot, value? =>
    if isNull c.right then some value?.isSome
    else value?.map fun value => Comparison.isNot.holds value c.right
  | some comparison, value? => value?.map fun value => comparison.holds value c.right

/-- The condition is decided and true. -/
def holds (facts : Facts) (c : Condition) : Bool := (facts.check c).getD false

/-- The condition is decided. -/
def knows (facts : Facts) (c : Condition) : Bool := (facts.check c).isSome

/-- **A condition on a known field** is decided by its value, the test for `NULL` aside. -/
theorem check_of_known {facts : Facts} {field value : String} (h : facts.get? field = some value)
    {o : Comparison} (his : o ≠ .is) (hisNot : o ≠ .isNot) (text : String) :
    facts.check ⟨field, o.text, text⟩ = some (o.holds value text) := by
  rw [check, Comparison.ofText?_text, h]
  cases o with
  | is => exact absurd rfl his
  | isNot => exact absurd rfl hisNot
  | _ => rfl

end Facts

end Junction
