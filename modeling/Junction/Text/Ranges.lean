/-!
# Ranges of code points

A property of characters that a standard gives as data is a **table**: an increasing list of
closed ranges of code points. `Text.inRanges` looks a code point up in one. The tables themselves
stand in the modules named for their property.
-/

namespace Junction.Text

/-- `inRanges table n`: a range of `table` holds `n`. A table is increasing, so the search ends at
the first range that starts beyond `n`. -/
def inRanges : List (Nat × Nat) → Nat → Bool
  | [], _ => false
  | (first, last) :: later, n => first ≤ n && (n ≤ last || inRanges later n)

@[simp] theorem inRanges_nil (n : Nat) : inRanges [] n = false := rfl

end Junction.Text
