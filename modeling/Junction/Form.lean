import Junction.Condition
import Junction.Kind
import Junction.Operand

/-!
# Forms of leaves

The leaves of an expression are written in one of two forms: as operands, any text between
operators and parentheses, or as conditions `left operator right`. `Form.Leaf` is the type of a
leaf of each form, `Form.leafText` its text, and `Form.readLeaf` reads a leaf off the front of a
text.

A leaf may be more than one token. Where reading one comes to a point at which the next token is
missing, it says so with `Reading.wants`: the kinds that could have come, and the text that is
there instead, empty at the end of the expression.
-/

namespace Junction

open Text

/-- How the leaves of an expression are written. -/
inductive Form where
  | operands
  | conditions
  deriving DecidableEq

namespace Form

/-- A leaf: an operand's text, or a condition. -/
abbrev Leaf : Form → Type
  | operands => String
  | conditions => Condition

/-- The text of a leaf. -/
def leafText : (f : Form) → f.Leaf → String
  | operands, operand => operand
  | conditions, condition => condition.text

/-- The kind of token that a leaf begins with. -/
def firstKind : Form → Kind
  | operands => .operand
  | conditions => .left

/-- The kinds that a term may begin with. -/
def termStart (f : Form) : KindSet := .ofList [f.firstKind, .openParen]

instance (f : Form) : DecidableEq f.Leaf :=
  match f with
  | operands => inferInstanceAs (DecidableEq String)
  | conditions => inferInstanceAs (DecidableEq Condition)

end Form

/-- What reading a leaf comes to. -/
inductive Reading (α : Type) where
  /-- The leaf was read. -/
  | read (lexeme : Lexeme α)
  /-- At `rest` a token of one of the kinds `expected` should have stood. -/
  | wants (expected : KindSet) (rest : List Char)

/-- **A condition at the front of a text**: field, comparison operator and value, white space
between them or not. -/
def readCondition (cs : List Char) : Reading Condition :=
  match fieldOperand? cs with
  | none => .wants Form.conditions.termStart cs
  | some left =>
    match comparison? (skipBlank left.rest) with
    | none => .wants (.singleton .comparison) (skipBlank left.rest)
    | some operator =>
      match valueOperand? (skipBlank operator.rest) with
      | none => .wants (.singleton .right) (skipBlank operator.rest)
      | some right =>
        .read ⟨⟨left.value, operator.value.text, right.value⟩,
          left.taken ++ left.rest.takeWhile isBlank ++ operator.taken
            ++ operator.rest.takeWhile isBlank ++ right.taken,
          right.rest⟩

/-- **A leaf at the front of a text**; `prev` is the character before. -/
def Form.readLeaf (f : Form) (lexicon : Lexicon) (prev : Option Char) (cs : List Char) :
    Reading f.Leaf :=
  match f with
  | operands =>
    match operand? lexicon prev cs with
    | some operand => .read operand
    | none => .wants operands.termStart cs
  | conditions => readCondition cs

/-- A condition is read off the front of the text. -/
theorem readsFrom_of_readCondition {cs : List Char} {l : Lexeme Condition}
    (h : readCondition cs = .read l) : l.ReadsFrom cs := by
  unfold readCondition at h
  split at h
  · simp at h
  · rename_i left hl
    split at h
    · simp at h
    · rename_i operator ho
      split at h
      · simp at h
      · rename_i right hr
        -- the three parts and the white space between them make up what is taken
        have hl := readsFrom_of_conditionOperand? hl
        have ho := readsFrom_of_comparison? ho
        have hr := readsFrom_of_conditionOperand? hr
        simp only [Reading.read.injEq] at h
        subst h
        refine ⟨?_, by simp [hr.taken_ne_nil]⟩
        simp only [List.append_assoc, hr.taken_append_rest, takeWhile_append_skipBlank,
          ho.taken_append_rest, hl.taken_append_rest]

/-- A leaf is read off the front of the text. -/
theorem Form.readsFrom_of_readLeaf {f : Form} {lexicon : Lexicon} {prev : Option Char}
    {cs : List Char} {l : Lexeme f.Leaf} (h : f.readLeaf lexicon prev cs = .read l) :
    l.ReadsFrom cs := by
  cases f with
  | operands =>
    simp only [readLeaf] at h
    split at h
    · rename_i operand ho
      simp only [Reading.read.injEq] at h
      exact h ▸ readsFrom_of_operand? ho
    · simp at h
  | conditions => exact readsFrom_of_readCondition h

end Junction
