import Junction.Comparison
import Junction.Quoted

/-!
# Conditions

A condition compares a field with a value: `left operator right`. Either operand may stand in
quotes; without them a field is made of field characters, and a value of all but white space,
parentheses and quotes.

* `Condition.text` writes a condition, with quotes only around an operand that needs them. A value
  that holds a backslash is among those, since dequoting would resolve it;
* `fieldOperand?` and `valueOperand?` read the operands, dequoted.

The operator of a condition is a text. One that was read is the text of a `Comparison`.
-/

namespace Junction

open Text

/-- A comparison of a field with a value, both without quotes. -/
structure Condition where
  left : String
  operator : String
  right : String
  deriving DecidableEq

namespace Condition

/-- A character of a field that stands without quotes. -/
def isFieldChar (c : Char) : Bool :=
  isAlphanumeric c || c == '_' || c == '.' || c == ':' || c == '{' || c == '}' || c == '-'

/-- A character of a value that stands without quotes. -/
def isValueChar (c : Char) : Bool := !isBlank c && !isParen c && !isQuote c

/-- The field can be written without quotes. -/
def isBareField (s : String) : Bool := s.toList ≠ [] && s.toList.all isFieldChar

/-- The value can be written without quotes. -/
def isBareValue (s : String) : Bool :=
  s.toList ≠ [] && s.toList.all fun c => isValueChar c && c ≠ '\\'

/-- The field as it is written. -/
def fieldText (s : String) : String := if isBareField s then s else Quoted.quote s

/-- The value as it is written. -/
def valueText (s : String) : String := if isBareValue s then s else Quoted.quote s

/-- **The condition as it is written.** -/
def text (c : Condition) : String :=
  fieldText c.left ++ " " ++ c.operator ++ " " ++ valueText c.right

end Condition

/-- An operand of a condition at the front of `cs`: a quoted run, or else the characters of the
class `bare`. -/
def conditionOperand? (bare : Char → Bool) (cs : List Char) : Option (Lexeme String) :=
  match Quoted.run? cs with
  | some (run, rest) => some ⟨Quoted.dequote (String.ofList run), run, rest⟩
  | none =>
    match cs.takeWhile bare with
    | [] => none
    | c :: taken => some ⟨String.ofList (c :: taken), c :: taken, cs.dropWhile bare⟩

/-- **The field at the front of `cs`.** -/
def fieldOperand? (cs : List Char) : Option (Lexeme String) :=
  conditionOperand? Condition.isFieldChar cs

/-- **The value at the front of `cs`.** -/
def valueOperand? (cs : List Char) : Option (Lexeme String) :=
  conditionOperand? Condition.isValueChar cs

/-- An operand of a condition is read off the front of the text. -/
theorem readsFrom_of_conditionOperand? {bare : Char → Bool} {cs : List Char} {l : Lexeme String}
    (h : conditionOperand? bare cs = some l) : l.ReadsFrom cs := by
  unfold conditionOperand? at h
  split at h
  · -- a quoted run
    rename_i run rest hr
    simp only [Option.some.injEq] at h
    subst h
    exact ⟨(Quoted.run?_append hr).1, (Quoted.run?_append hr).2⟩
  · split at h
    · simp at h
    · -- bare characters, one at least
      rename_i c taken ht
      simp only [Option.some.injEq] at h
      subst h
      exact ⟨by rw [← ht]; exact List.takeWhile_append_dropWhile, List.cons_ne_nil _ _⟩

end Junction
