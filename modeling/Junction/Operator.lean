/-!
# Operators

The terms of a group are joined by `AND` and `OR`. There is no precedence: a group is read from
left to right with the value so far on the left of each operator.

* `Operator.apply` joins the value so far with the next one;
* `Operator.decides` says when the value so far settles the result alone, so that the next term
  need not be looked at (`Operator.apply_of_decides`).
-/

namespace Junction

/-- What joins two terms of a group. -/
inductive Operator where
  | and
  | or
  deriving DecidableEq

namespace Operator

/-- The value so far, joined with the value of the next term. -/
def apply : Operator → Bool → Bool → Bool
  | and, soFar, next => soFar && next
  | or, soFar, next => soFar || next

/-- **Short circuit.** The value so far is the result, whatever the next term is. -/
def decides : Operator → Bool → Bool
  | and, soFar => !soFar
  | or, soFar => soFar

/-- The operator as it is written in a rendered expression. -/
def text : Operator → String
  | and => "AND"
  | or => "OR"

/-- The operator that a text writes, in capitals. -/
def ofText? (s : String) : Option Operator :=
  if s = "AND" then some and else if s = "OR" then some or else none

/-- Where the value so far decides, the next term changes nothing. -/
theorem apply_of_decides {o : Operator} {soFar : Bool} (h : o.decides soFar) (next : Bool) :
    o.apply soFar next = soFar := by
  cases o <;> cases soFar <;> simp_all [decides, apply]

/-- Where it does not decide, the result is the value of the next term. -/
theorem apply_of_not_decides {o : Operator} {soFar : Bool} (h : ¬ o.decides soFar)
    (next : Bool) : o.apply soFar next = next := by
  cases o <;> cases soFar <;> simp_all [decides, apply]

end Operator

end Junction
