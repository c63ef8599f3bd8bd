import Junction.Lexeme
import Junction.Text.Blank
import Junction.Text.Caseless
import Junction.Text.Word

/-!
# Comparison operators

A condition compares a field with a value by one of fifteen operators, some written in symbols and
some in words. In an expression the words match in any ASCII case, two words of one operator stand
apart by any white space, and the last word ends before a character that is no word character.

`comparison?` reads one off the front of a text. It tries the operators in the order of
`Comparison.all`, where an operator stands before those that its own beginning spells.
-/

namespace Junction

open Text

/-- What a condition asks of a field's value and a text. -/
inductive Comparison where
  /-- `!=`, not equal. -/
  | ne
  /-- `<>`, not equal. -/
  | differs
  | ge
  | le
  | eq
  | lt
  | gt
  | notLike
  | like
  | isNot
  | is
  /-- `NOT MATCHES`, the text does not occur in the value. -/
  | excludes
  /-- `MATCHES`, the text occurs in the value. -/
  | includes
  | startsWith
  | endsWith
  deriving DecidableEq

namespace Comparison

/-- Every operator, in the order of trial. -/
def all : List Comparison :=
  [ne, differs, ge, le, eq, lt, gt, notLike, like, isNot, is, excludes, includes, startsWith,
    endsWith]

/-- The operator as it is written in capitals, one space between two words. -/
def text : Comparison → String
  | ne => "!="
  | differs => "<>"
  | ge => ">="
  | le => "<="
  | eq => "="
  | lt => "<"
  | gt => ">"
  | notLike => "NOT LIKE"
  | like => "LIKE"
  | isNot => "IS NOT"
  | is => "IS"
  | excludes => "NOT MATCHES"
  | includes => "MATCHES"
  | startsWith => "STARTSWITH"
  | endsWith => "ENDSWITH"

/-- The words of the operator. -/
def words : Comparison → List String
  | notLike => ["NOT", "LIKE"]
  | isNot => ["IS", "NOT"]
  | excludes => ["NOT", "MATCHES"]
  | c => [c.text]

/-- The operator is written in letters. -/
def isWordy : Comparison → Bool
  | ne | differs | ge | le | eq | lt | gt => false
  | _ => true

/-- The operator of a text in capitals. -/
def ofText? (s : String) : Option Comparison := all.find? fun c => c.text == s

theorem mem_all (c : Comparison) : c ∈ all := by cases c <;> decide

theorem ofText?_text (c : Comparison) : ofText? c.text = some c := by cases c <;> decide

end Comparison

/-- `spelled? words cs`: the characters at the front of `cs` that spell the words one after
another, white space between them, and the characters after them. -/
def spelled? : List (List Char) → List Char → Option (List Char × List Char)
  | [], cs => some ([], cs)
  | [w], cs => word? w cs
  | w :: w' :: later, cs =>
    match word? w cs with
    | none => none
    | some (first, cs) =>
      if cs.takeWhile isBlank = [] then none
      else (spelled? (w' :: later) (skipBlank cs)).map fun (more, rest) =>
        (first ++ cs.takeWhile isBlank ++ more, rest)

/-- One operator at the front of `cs`. -/
def Comparison.read? (c : Comparison) (cs : List Char) : Option (Lexeme Comparison) :=
  match spelled? (c.words.map String.toList) cs with
  | none => none
  | some (taken, rest) => if c.isWordy && rest.head?.any isWord then none else some ⟨c, taken, rest⟩

/-- **The comparison operator at the front of `cs`.** -/
def comparison? (cs : List Char) : Option (Lexeme Comparison) :=
  Comparison.all.findSome? fun c => c.read? cs

/-- What spells the words and what follows make up the text. -/
theorem spelled?_append {ws : List (List Char)} {cs taken rest : List Char}
    (h : spelled? ws cs = some (taken, rest)) : taken ++ rest = cs := by
  fun_induction spelled? ws cs generalizing taken rest with
  | case1 cs => simp_all
  | case2 w cs => exact (word?_eq_some_iff.mp h).1.symm
  | case3 => simp at h
  | case4 => simp at h
  | case5 w w' later cs first cs' hw hb ih =>
    -- the first word, the white space behind it, and what the later words take
    obtain ⟨⟨u, v⟩, hu, he⟩ := Option.map_eq_some_iff.mp h
    simp only [Prod.mk.injEq] at he
    obtain ⟨rfl, rfl⟩ := he
    rw [List.append_assoc, ih hu, List.append_assoc, takeWhile_append_skipBlank]
    exact (word?_eq_some_iff.mp hw).1.symm

/-- What spells words of which the first is not empty is not empty. -/
theorem ne_nil_of_spelled? {w : List Char} {ws : List (List Char)} {cs taken rest : List Char}
    (hw : w ≠ []) (h : spelled? (w :: ws) cs = some (taken, rest)) : taken ≠ [] := by
  -- what is found is as long as the word, which is not empty
  have hne : ∀ {cs t r}, word? w cs = some (t, r) → t ≠ [] := by
    intro cs t r ht hn
    have hl := length_eq_of_sameCaseless (word?_eq_some_iff.mp ht).2
    rw [hn] at hl
    exact hw (List.length_eq_zero_iff.mp hl.symm)
  cases ws with
  | nil => exact hne h
  | cons w' later =>
    simp only [spelled?] at h
    split at h
    · simp at h
    · rename_i first cs' hf
      split at h
      · simp at h
      · -- the first word stands in front of all the others
        obtain ⟨⟨u, v⟩, -, he⟩ := Option.map_eq_some_iff.mp h
        simp only [Prod.mk.injEq] at he
        obtain ⟨rfl, -⟩ := he
        simp [hne hf]

/-- A comparison operator is read off the front of the text. -/
theorem readsFrom_of_comparison? {cs : List Char} {l : Lexeme Comparison}
    (h : comparison? cs = some l) : l.ReadsFrom cs := by
  obtain ⟨c, -, hc⟩ := List.exists_of_findSome?_eq_some h
  unfold Comparison.read? at hc
  split at hc
  · simp at hc
  · rename_i taken rest hs
    split at hc
    · simp at hc
    · simp only [Option.some.injEq] at hc
      subst hc
      refine ⟨spelled?_append hs, ?_⟩
      -- every operator has a first word
      obtain ⟨w, ws, hw, hn⟩ : ∃ w ws, c.words.map String.toList = w :: ws ∧ w ≠ [] := by
        cases c <;> exact ⟨_, _, rfl, by decide⟩
      rw [hw] at hs
      exact ne_nil_of_spelled? hn hs

end Junction
