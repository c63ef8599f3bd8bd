import Junction.Keywords
import Junction.Quoted

/-!
# Operands

Where a leaf is an operand, it is any text that is not an operator or a parenthesis: plain
characters and quoted runs in turn. `Operand.run` reads it one character at a time. Outside quotes
it stops before a parenthesis, before a quote that is never closed and before an operator keyword;
`Operand.Mode` is what it has to remember for that. `operand?` is the operand at the front of a
text, its trailing white space aside.
-/

namespace Junction

open Text

/-- Where the reading of an operand stands. -/
inductive Operand.Mode where
  /-- Outside quotes, after the character `prev`. -/
  | plain (prev : Option Char)
  /-- In a quoted run that the quote `delimiter` closes. -/
  | quoted (delimiter : Char)
  /-- In such a run, after a backslash. -/
  | escaped (delimiter : Char)

namespace Operand

/-- The mode after one more character of a quoted run. -/
def Mode.within (delimiter c : Char) : Mode :=
  if c = '\\' then .escaped delimiter
  else if c = delimiter then .plain (some c)
  else .quoted delimiter

/-- The front of a text with one more character before it. -/
def consTaken (c : Char) (r : List Char × List Char) : List Char × List Char := (c :: r.1, r.2)

/-- **The operand text at the front of a text**, and what follows it. -/
def run (lexicon : Lexicon) : Mode → List Char → List Char × List Char
  | _, [] => ([], [])
  | .plain prev, c :: cs =>
    if isParen c then ([], c :: cs)
    else if isQuote c then
      if (Quoted.closing? c cs).isSome then consTaken c (run lexicon (.quoted c) cs)
      else ([], c :: cs)
    else if (lexicon.operator? prev (c :: cs)).isSome then ([], c :: cs)
    else consTaken c (run lexicon (.plain (some c)) cs)
  | .quoted d, c :: cs => consTaken c (run lexicon (Mode.within d c) cs)
  | .escaped d, c :: cs => consTaken c (run lexicon (.quoted d) cs)

/-- What is taken for an operand and what is left make up the text. -/
theorem run_append (lexicon : Lexicon) (m : Mode) (cs : List Char) :
    (run lexicon m cs).1 ++ (run lexicon m cs).2 = cs := by
  induction cs generalizing m with
  | nil => cases m <;> rfl
  | cons c cs ih =>
    cases m with
    | plain prev =>
      simp only [run]
      -- taken or left, the character is there
      repeat' split
      all_goals simp [consTaken, ih]
    | quoted d => simp [run, consTaken, ih]
    | escaped d => simp [run, consTaken, ih]

end Operand

/-- **The operand at the front of `cs`**; `prev` is the character before. -/
def operand? (lexicon : Lexicon) (prev : Option Char) (cs : List Char) : Option (Lexeme String) :=
  match Operand.run lexicon (.plain prev) cs with
  | ([], _) => none
  | (taken, rest) => some ⟨String.ofList (trimEnd taken), taken, rest⟩

/-- An operand is read off the front of the text. -/
theorem readsFrom_of_operand? {lexicon : Lexicon} {prev : Option Char} {cs : List Char}
    {l : Lexeme String} (h : operand? lexicon prev cs = some l) : l.ReadsFrom cs := by
  have ha := Operand.run_append lexicon (.plain prev) cs
  unfold operand? at h
  split at h
  · simp at h
  · rename_i taken rest hne hr
    rw [hr] at ha
    simp only [Option.some.injEq] at h
    subst h
    exact ⟨ha, hne⟩

end Junction
