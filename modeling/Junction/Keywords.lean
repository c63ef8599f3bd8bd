import Junction.Lexeme
import Junction.Operator
import Junction.Text.Blank
import Junction.Text.Caseless
import Junction.Text.Delimiter
import Junction.Text.Word

/-!
# Operator keywords

Each operator has a keyword of its own, `AND` and `OR` unless chosen otherwise. Two words can serve
as the keywords if they can be told apart from operand text and from each other; `Keywords` holds
such a pair only, `Keywords.ofPair` checks one, and `KeywordFault` says what is wrong with a pair
that is refused.

In an expression a keyword is found in any ASCII case and as a **whole word**: an end of it that is
a word character may not touch another word character, so that `recORd` holds no `OR`. Where both
keywords fit, the longer one is taken. This is `Lexicon.operator?`.
-/

namespace Junction

open Text

/-- Why a pair of words cannot be the keywords. -/
inductive KeywordFault where
  | empty
  | reserved (keyword : String)
  | duplicate (keyword : String)
  deriving DecidableEq

namespace KeywordFault

/-- The fault in words. -/
def message : KeywordFault → String
  | empty => "operator keyword must not be empty"
  | reserved keyword =>
    "operator keyword '" ++ keyword ++ "' must not contain whitespace, quotes or parentheses"
  | duplicate keyword => "AND and OR keywords must differ (both are '" ++ keyword ++ "')"

end KeywordFault

namespace Keywords

/-- A character that no keyword may hold. -/
def isReserved (c : Char) : Bool := isBlank c || isParen c || isQuote c

/-- What is wrong with one word as a keyword. -/
def wordFault? (keyword : String) : Option KeywordFault :=
  if keyword.toList = [] then some .empty
  else if keyword.toList.any isReserved then some (.reserved keyword)
  else none

/-- What is wrong with a pair of words: of several faults, that of the first word comes first and
that of the pair last. -/
def fault? (conjunction disjunction : String) : Option KeywordFault :=
  (wordFault? conjunction).or <| (wordFault? disjunction).or <|
    if sameCaseless conjunction.toList disjunction.toList then some (.duplicate conjunction)
    else none

end Keywords

/-- **The keywords of the two operators**, a pair without fault. -/
structure Keywords where
  conjunction : String
  disjunction : String
  faultless : Keywords.fault? conjunction disjunction = none

/-- The keywords as they are looked for: each with its operator, in the order of trial. -/
abbrev Lexicon := List (List Char × Operator)

namespace Keywords

/-- The pair as keywords, or its fault. -/
def ofPair (conjunction disjunction : String) : Except KeywordFault Keywords :=
  match h : fault? conjunction disjunction with
  | none => .ok ⟨conjunction, disjunction, h⟩
  | some fault => .error fault

/-- `AND` and `OR`. -/
def standard : Keywords := ⟨"AND", "OR", by decide⟩

/-- The keyword of an operator. -/
def keyword (k : Keywords) : Operator → String
  | .and => k.conjunction
  | .or => k.disjunction

/-- The keywords in the order of trial: the longer first, in bytes of UTF-8, and that of `AND`
first among equals. -/
def lexicon (k : Keywords) : Lexicon :=
  let conjunction := (k.conjunction.toList, Operator.and)
  let disjunction := (k.disjunction.toList, Operator.or)
  if k.conjunction.utf8ByteSize < k.disjunction.utf8ByteSize then [disjunction, conjunction]
  else [conjunction, disjunction]

end Keywords

/-- `keyword?` finds a keyword at the front of `cs` where it is a whole word; `prev` is the
character before. -/
def keyword? (keyword : List Char) (prev : Option Char) (cs : List Char) :
    Option (List Char × List Char) :=
  match word? keyword cs with
  | none => none
  | some (taken, rest) =>
    if keyword.head?.any isWord && prev.any isWord then none
    else if keyword.getLast?.any isWord && rest.head?.any isWord then none
    else some (taken, rest)

/-- **The operator at the front of `cs`**: the first keyword of the lexicon that stands there as a
whole word. -/
def Lexicon.operator? (lexicon : Lexicon) (prev : Option Char) (cs : List Char) :
    Option (Lexeme Operator) :=
  lexicon.findSome? fun (keyword, operator) =>
    (keyword? keyword prev cs).map fun (taken, rest) => ⟨operator, taken, rest⟩

/-- A keyword that is found spells its word and is followed by the rest. -/
theorem keyword?_eq_some {keyword : List Char} {prev : Option Char} {cs taken rest : List Char}
    (h : keyword? keyword prev cs = some (taken, rest)) :
    cs = taken ++ rest ∧ sameCaseless taken keyword = true := by
  unfold keyword? at h
  split at h
  · simp at h
  · rename_i t r hw
    split at h
    · simp at h
    · split at h
      · simp at h
      · simp only [Option.some.injEq, Prod.mk.injEq] at h
        obtain ⟨rfl, rfl⟩ := h
        exact word?_eq_some_iff.mp hw

/-- The keywords of a pair without fault are not empty. -/
theorem Keywords.ne_nil_of_mem_lexicon {k : Keywords} {word : List Char} {o : Operator}
    (h : (word, o) ∈ k.lexicon) : word ≠ [] := by
  have hf := k.faultless
  simp only [fault?, Option.or_eq_none_iff] at hf
  -- an empty keyword is a fault
  have hc : k.conjunction.toList ≠ [] := by
    intro he; simp [wordFault?, he] at hf
  have hd : k.disjunction.toList ≠ [] := by
    intro he; simp [wordFault?, he] at hf
  unfold lexicon at h
  split at h <;> simp only [List.mem_cons, List.not_mem_nil, or_false, Prod.mk.injEq] at h <;>
    rcases h with ⟨rfl, -⟩ | ⟨rfl, -⟩ <;> assumption

/-- An operator that is found was read off the front of the text. -/
theorem Keywords.readsFrom_of_operator? {k : Keywords} {prev : Option Char} {cs : List Char}
    {l : Lexeme Operator} (h : k.lexicon.operator? prev cs = some l) : l.ReadsFrom cs := by
  obtain ⟨⟨word, o⟩, hm, hs⟩ := List.exists_of_findSome?_eq_some h
  obtain ⟨⟨taken, rest⟩, hk, rfl⟩ := Option.map_eq_some_iff.mp hs
  obtain ⟨rfl, hc⟩ := keyword?_eq_some hk
  refine ⟨rfl, fun ht => Keywords.ne_nil_of_mem_lexicon hm ?_⟩
  -- what is taken has the length of the keyword
  have hl := length_eq_of_sameCaseless hc
  have ht' : taken = [] := ht
  rw [ht'] at hl
  exact List.length_eq_zero_iff.mp hl.symm

end Junction
