/-!
# Lexemes

Reading one token off the front of a text yields a `Lexeme`: what was read, the characters it
took, and the characters that are left.
-/

namespace Junction

/-- One token read: its value, the characters taken for it and those that remain. -/
structure Lexeme (α : Type) where
  value : α
  taken : List Char
  rest : List Char

namespace Lexeme

variable {α : Type}

/-- The lexeme was read off the front of `cs`: its parts make up `cs`, and it took something. -/
structure ReadsFrom (l : Lexeme α) (cs : List Char) : Prop where
  taken_append_rest : l.taken ++ l.rest = cs
  taken_ne_nil : l.taken ≠ []

/-- Reading a lexeme leaves less than there was. -/
theorem ReadsFrom.length_rest_lt {l : Lexeme α} {cs : List Char} (h : l.ReadsFrom cs) :
    l.rest.length < cs.length := by
  have hl := congrArg List.length h.taken_append_rest
  have hp := List.length_pos_iff.mpr h.taken_ne_nil
  rw [List.length_append] at hl
  omega

end Lexeme

end Junction
