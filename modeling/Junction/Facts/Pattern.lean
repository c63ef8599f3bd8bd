import Junction.Text.Lowercase
import Junction.Text.Search
import Junction.Text.Slice

/-!
# Patterns

A value is compared with a pattern in which `%` stands for any text and every other character for
itself, in either case. Pattern and value are lower-cased, the pattern is cut at each `%`, and the
**pieces** have to occur in the value one after another, the first at its beginning and the last at
its end.

`matchesPattern?` looks for the pieces from left to right, each at the first place where it occurs, and
takes slices of the value on the way. A slice that cannot be taken would leave the question without
an answer; `matchesPattern` is the answer.
-/

namespace Junction

open Text

/-- Whether the pieces occur one after another, each looked for behind the one before. -/
def occurInTurn? : List (List Char) → List Char → Option Bool
  | [], _ => some true
  | piece :: later, cs =>
    match find? piece cs with
    | none => some false
    | some place => (slice? (place + byteSize piece) (byteSize cs) cs).bind (occurInTurn? later)

/-- Whether the value begins with the first piece, ends with the last one, and holds the others in turn
in between. Pieces do not overlap, and those of no character are passed over. -/
def matchesPieces? (first : List Char) (middle : List (List Char)) (last value : List Char) :
    Option Bool := do
  if byteSize value < byteSize first + byteSize last then return false
  if !first.isPrefixOf value then return false
  let behind ← slice? (byteSize first) (byteSize value) value
  if !last.isSuffixOf behind then return false
  let between ← slice? (byteSize first) (byteSize value - byteSize last) value
  occurInTurn? (middle.filter fun piece => piece ≠ []) between

/-- Whether the pattern matches the value, as far as the slices on the way can be taken. -/
def matchesPattern? (pattern value : String) : Option Bool :=
  let value := lowercase value.toList
  match pieces '%' (lowercase pattern.toList) with
  | (whole, []) => some (whole == value)
  | (first, piece :: later) =>
    matchesPieces? first (piece :: later).dropLast ((piece :: later).getLast (by simp)) value

/-- **Pattern matching.** -/
def matchesPattern (pattern value : String) : Bool := matchesPattern? pattern value == some true

end Junction
