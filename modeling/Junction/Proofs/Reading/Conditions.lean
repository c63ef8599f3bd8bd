import Junction.Form
import Junction.Proofs.Text.Trim
import Junction.Proofs.Text.Whole

/-!
# Conditions read back

A condition is written with quotes around an operand that needs them, so each operand is read back as
it was (`fieldOperand?_fieldText`, `valueOperand?_valueText`), and so is each operator
(`comparison?_text`), with one exception. `IS` and a value that begins with the word `NOT` and stands
without quotes spell the operator `IS NOT`: such a condition **swallows its `NOT`**
(`Condition.swallowsNot`).

So a condition is read back from its text in front of a seam (`Condition.readCondition_text`), unless it
swallows its `NOT`, when its text is that of no condition with its operator
(`Condition.operator_of_swallowsNot`).
-/

namespace Junction

open Text Quoted Keywords

/-! ### Operands -/

section Operands

variable {bare : Char → Bool} {u : List Char}

/-- A quoted operand is read back. -/
theorem conditionOperand?_quote (s : String) :
    conditionOperand? bare ((quote s).toList ++ u) = some ⟨s, (quote s).toList, u⟩ := by
  rw [conditionOperand?, run?_quote]
  simp only [String.ofList_toList, dequote_quote]

/-- An operand of bare characters is read back in front of another character. -/
theorem conditionOperand?_bare {s : String} (hne : s.toList ≠ [])
    (hs : ∀ c ∈ s.toList, bare c = true ∧ isQuote c = false)
    (hu : ∀ c ∈ u.head?, bare c = false) :
    conditionOperand? bare (s.toList ++ u) = some ⟨s, s.toList, u⟩ := by
  have hbare : ∀ c ∈ s.toList, bare c = true := fun c hc => (hs c hc).1
  have htake : u.takeWhile bare = [] := by
    cases u with
    | nil => rfl
    | cons c u => exact List.takeWhile_cons_of_neg (by rw [hu c rfl]; exact Bool.false_ne_true)
  have hdrop : u.dropWhile bare = u := by
    cases u with
    | nil => rfl
    | cons c u => exact List.dropWhile_cons_of_neg (by rw [hu c rfl]; exact Bool.false_ne_true)
  -- no quoted run begins here, so the bare characters are taken
  have hrun : run? (s.toList ++ u) = none := by
    obtain ⟨c, cs, hcs⟩ := List.exists_cons_of_ne_nil hne
    have hq : isQuote c = false := (hs c (by rw [hcs]; exact List.mem_cons_self)).2
    rw [hcs, List.cons_append, run?, hq]
    rfl
  rw [conditionOperand?, hrun, List.takeWhile_append_of_pos hbare, htake, List.append_nil,
    List.dropWhile_append_of_pos hbare, hdrop]
  obtain ⟨c, cs, hcs⟩ := List.exists_cons_of_ne_nil hne
  have hof : String.ofList (c :: cs) = s := by rw [← hcs, String.ofList_toList]
  rw [hcs]
  simp only [hof]

end Operands

theorem isReserved_eq_false_of_isFieldChar {c : Char} (h : Condition.isFieldChar c = true) :
    isReserved c = false := by
  rw [Condition.isFieldChar] at h
  simp only [Bool.or_eq_true, beq_iff_eq] at h
  rcases h with (((((h | rfl) | rfl) | rfl) | rfl) | rfl) | rfl
  · exact isReserved_eq_false_of_isWord (by rw [isWord, h, Bool.true_or])
  all_goals decide

theorem isValueChar_eq (c : Char) : Condition.isValueChar c = !isReserved c := by
  rw [Condition.isValueChar, isReserved, Bool.not_or, Bool.not_or]

section Parts

variable {u : List Char}

/-- **A field is read back** from its text. -/
theorem fieldOperand?_fieldText (s : String) (hu : Seam u) :
    fieldOperand? ((Condition.fieldText s).toList ++ u)
      = some ⟨s, (Condition.fieldText s).toList, u⟩ := by
  rw [Condition.fieldText]
  split
  · rename_i hbare
    rw [Condition.isBareField, Bool.and_eq_true, decide_eq_true_eq, List.all_eq_true] at hbare
    -- bare characters are no quotes, and what follows is not bare
    refine conditionOperand?_bare hbare.1 (fun c hc => ⟨hbare.2 c hc, ?_⟩) fun c hc => ?_
    · have hres := isReserved_eq_false_of_isFieldChar (hbare.2 c hc)
      exact (isReserved_eq_false_iff.mp hres).2.2
    · cases hf : Condition.isFieldChar c with
      | false => rfl
      | true =>
        have hres := isReserved_eq_false_of_isFieldChar hf
        rw [hu c hc] at hres
        cases hres
  · exact conditionOperand?_quote s

/-- **A value is read back** from its text. -/
theorem valueOperand?_valueText (s : String) (hu : Seam u) :
    valueOperand? ((Condition.valueText s).toList ++ u)
      = some ⟨s, (Condition.valueText s).toList, u⟩ := by
  rw [Condition.valueText]
  split
  · rename_i hbare
    rw [Condition.isBareValue, Bool.and_eq_true, decide_eq_true_eq, List.all_eq_true] at hbare
    have hchar : ∀ c ∈ s.toList, Condition.isValueChar c = true :=
      fun c hc => (Bool.and_eq_true_iff.mp (hbare.2 c hc)).1
    -- as for a field, with the characters of a value
    refine conditionOperand?_bare hbare.1 (fun c hc => ⟨hchar c hc, ?_⟩) fun c hc => ?_
    · have hres := hchar c hc
      rw [Condition.isValueChar, Bool.and_eq_true, Bool.not_eq_true'] at hres
      exact hres.2
    · rw [isValueChar_eq, hu c hc]
      rfl
  · exact conditionOperand?_quote s

/-- A field is written with no white space and no parenthesis in front. -/
theorem exists_fieldText_eq (s : String) :
    ∃ c cs, (Condition.fieldText s).toList = c :: cs ∧ isBlank c = false ∧ c ≠ '(' := by
  rw [Condition.fieldText]
  split
  · rename_i hbare
    rw [Condition.isBareField, Bool.and_eq_true, decide_eq_true_eq, List.all_eq_true] at hbare
    -- a bare text begins with a character of a field, any other with a quote
    obtain ⟨c, cs, hcs⟩ := List.exists_cons_of_ne_nil hbare.1
    have hres := isReserved_eq_false_of_isFieldChar (hbare.2 c (by rw [hcs]; exact List.mem_cons_self))
    refine ⟨c, cs, hcs, ?_, ?_⟩
    · exact (isReserved_eq_false_iff.mp hres).1
    · rintro rfl
      cases hres
  · exact ⟨'\'', _, String.toList_ofList, by decide, by decide⟩

/-- A value is written with no white space in front. -/
theorem exists_valueText_eq (s : String) :
    ∃ c cs, (Condition.valueText s).toList = c :: cs ∧ isBlank c = false := by
  rw [Condition.valueText]
  split
  · rename_i hbare
    rw [Condition.isBareValue, Bool.and_eq_true, decide_eq_true_eq, List.all_eq_true] at hbare
    -- a bare text begins with a character of a value, any other with a quote
    obtain ⟨c, cs, hcs⟩ := List.exists_cons_of_ne_nil hbare.1
    have hc := hbare.2 c (by rw [hcs]; exact List.mem_cons_self)
    rw [Bool.and_eq_true, Condition.isValueChar, Bool.and_eq_true, Bool.and_eq_true,
      Bool.not_eq_true'] at hc
    exact ⟨c, cs, hcs, hc.1.1.1⟩
  · exact ⟨'\'', _, String.toList_ofList, by decide⟩

end Parts

/-! ### Comparison operators -/

/-- Each operator but `IS` is read back in front of a blank. -/
theorem comparison?_text {o : Comparison} (ho : o ≠ .is) (w : List Char) :
    comparison? (o.text.toList ++ ' ' :: w) = some ⟨o, o.text.toList, ' ' :: w⟩ := by
  cases o with
  | is => exact absurd rfl ho
  | _ => rfl

/-- `NOT`, in any case, is a word of its own in front of the text. -/
def beginsNot (cs : List Char) : Bool :=
  (word? "NOT".toList cs).any fun found => !found.2.head?.any isWord

/-- `IS` is read back if no `NOT` follows, and otherwise `IS NOT` is read. -/
theorem comparison?_is {w : List Char} (hw : skipBlank w = w) :
    if beginsNot w then
      ∃ o, comparison? ("IS".toList ++ ' ' :: w) = some o ∧ o.value = .isNot
    else comparison? ("IS".toList ++ ' ' :: w) = some ⟨.is, "IS".toList, ' ' :: w⟩ := by
  -- what is tried before `IS NOT` begins otherwise, and `IS` comes right after it
  have hall : comparison? ("IS".toList ++ ' ' :: w)
      = (Comparison.isNot.read? ("IS".toList ++ ' ' :: w)).or
          (some ⟨.is, "IS".toList, ' ' :: w⟩) := by
    have hsplit : Comparison.all = [.ne, .differs, .ge, .le, .eq, .lt, .gt, .notLike, .like]
        ++ .isNot :: [.is, .excludes, .includes, .startsWith, .endsWith] := rfl
    have hfront : [.ne, .differs, .ge, .le, .eq, .lt, .gt, .notLike, .like].findSome?
        (fun c : Comparison => c.read? ("IS".toList ++ ' ' :: w)) = none := rfl
    have hback : [.is, .excludes, .includes, .startsWith, .endsWith].findSome?
        (fun c : Comparison => c.read? ("IS".toList ++ ' ' :: w))
          = some ⟨.is, "IS".toList, ' ' :: w⟩ := rfl
    rw [comparison?, hsplit, List.findSome?_append, hfront, Option.none_or, List.findSome?_cons,
      hback]
    cases Comparison.isNot.read? ("IS".toList ++ ' ' :: w) <;> rfl
  -- the two words are found if `NOT` comes right after the blank
  have hspelled : spelled? ["IS".toList, "NOT".toList] ("IS".toList ++ ' ' :: w)
      = (word? "NOT".toList w).map fun found =>
          ("IS".toList ++ (' ' :: w).takeWhile isBlank ++ found.1, found.2) := by
    have hfirst : spelled? ["IS".toList, "NOT".toList] ("IS".toList ++ ' ' :: w)
        = (word? "NOT".toList (skipBlank w)).map fun found =>
            ("IS".toList ++ (' ' :: w).takeWhile isBlank ++ found.1, found.2) := rfl
    rw [hfirst, hw]
  -- and read if no word character follows them
  have hread : Comparison.isNot.read? ("IS".toList ++ ' ' :: w)
      = (spelled? ["IS".toList, "NOT".toList] ("IS".toList ++ ' ' :: w)).bind fun found =>
          if found.2.head?.any isWord then none else some ⟨.isNot, found.1, found.2⟩ := by
    change Comparison.isNot.read? _ = (spelled? (Comparison.isNot.words.map String.toList) _).bind _
    unfold Comparison.read?
    cases spelled? (Comparison.isNot.words.map String.toList) ("IS".toList ++ ' ' :: w) <;> rfl
  rw [hall, hread, hspelled, beginsNot]
  cases word? "NOT".toList w with
  | none => rfl
  | some found =>
    rw [Option.any_some, Option.map_some, Option.bind_some]
    cases found.2.head?.any isWord with
    | true => rfl
    | false => exact ⟨_, rfl, rfl⟩

/-! ### Conditions -/

/-- The parts of a condition that is read. -/
theorem exists_of_readCondition {cs : List Char} {l : Lexeme Condition}
    (h : readCondition cs = .read l) :
    ∃ left operator right, fieldOperand? cs = some left
      ∧ comparison? (skipBlank left.rest) = some operator
      ∧ valueOperand? (skipBlank operator.rest) = some right
      ∧ l = ⟨⟨left.value, operator.value.text, right.value⟩,
        left.taken ++ left.rest.takeWhile isBlank ++ operator.taken
          ++ operator.rest.takeWhile isBlank ++ right.taken, right.rest⟩ := by
  unfold readCondition at h
  split at h
  · cases h
  · rename_i left hleft
    split at h
    · cases h
    · rename_i operator hoperator
      split at h
      · cases h
      · rename_i right hright
        exact ⟨left, operator, right, hleft, hoperator, hright, (Reading.read.inj h).symm⟩

/-- **Where a condition breaks off**: before the field, after it, or after the operator. At `u`, white
space skipped, the next part is missing. -/
inductive Condition.BreaksOff (cs u : List Char) : KindSet → Prop
  | field (missing : fieldOperand? cs = none) (rest : cs = u) : BreaksOff cs u Form.conditions.termStart
  | operator {left : Lexeme String} (left_eq : fieldOperand? cs = some left)
      (missing : comparison? (skipBlank left.rest) = none) (rest : skipBlank left.rest = u) :
      BreaksOff cs u (.singleton .comparison)
  | value {left : Lexeme String} {operator : Lexeme Comparison}
      (left_eq : fieldOperand? cs = some left)
      (operator_eq : comparison? (skipBlank left.rest) = some operator)
      (missing : valueOperand? (skipBlank operator.rest) = none) (rest : skipBlank operator.rest = u) :
      BreaksOff cs u (.singleton .right)

/-- A condition that is not read breaks off there. -/
theorem breaksOff_of_wants {cs u : List Char} {expected : KindSet}
    (h : readCondition cs = .wants expected u) : Condition.BreaksOff cs u expected := by
  -- one case for each part that may be missing
  unfold readCondition at h
  split at h
  · rename_i hmissing
    obtain ⟨rfl, hrest⟩ := Reading.wants.inj h
    exact .field hmissing hrest
  · rename_i left hleft
    split at h
    · rename_i hmissing
      obtain ⟨rfl, hrest⟩ := Reading.wants.inj h
      exact .operator hleft hmissing hrest
    · rename_i operator hoperator
      split at h
      · rename_i hmissing
        obtain ⟨rfl, hrest⟩ := Reading.wants.inj h
        exact .value hleft hoperator hmissing hrest
      · cases h

theorem readCondition_of_parts {cs : List Char} {left right : Lexeme String}
    {operator : Lexeme Comparison} (hleft : fieldOperand? cs = some left)
    (hoperator : comparison? (skipBlank left.rest) = some operator)
    (hright : valueOperand? (skipBlank operator.rest) = some right) :
    readCondition cs = .read ⟨⟨left.value, operator.value.text, right.value⟩,
      left.taken ++ left.rest.takeWhile isBlank ++ operator.taken
        ++ operator.rest.takeWhile isBlank ++ right.taken, right.rest⟩ := by
  simp only [readCondition, hleft, hoperator, hright]

namespace Condition

variable {c : Condition} {u : List Char}

/-- **The condition swallows its `NOT`**: it asks with `IS` for a value that begins with the word
`NOT` and is written without quotes. -/
def swallowsNot (c : Condition) : Bool :=
  c.operator == "IS" && isBareValue c.right && beginsNot c.right.toList

/-- What it is to swallow `NOT`: the word, in any ASCII case, is not followed by a word character. -/
theorem swallowsNot_iff : c.swallowsNot = true ↔ c.operator = "IS" ∧ isBareValue c.right = true
    ∧ ∃ word rest, c.right.toList = word ++ rest ∧ sameCaseless word "NOT".toList = true
      ∧ rest.head?.any isWord = false := by
  rw [swallowsNot, Bool.and_assoc, Bool.and_eq_true, Bool.and_eq_true, beq_iff_eq, beginsNot,
    Option.any_eq_true]
  simp only [Prod.exists, word?_eq_some_iff, Bool.not_eq_true', and_assoc]

/-- The text of a value begins with `NOT` just if it is written without quotes and the value does. -/
theorem beginsNot_valueText (s : String) (hu : Seam u) :
    beginsNot ((valueText s).toList ++ u) = (isBareValue s && beginsNot s.toList) := by
  have hword : ∀ ch ∈ "NOT".toList, isReserved ch = false := by
    intro ch hch
    have hall : "NOT".toList.all (fun c => !isReserved c) = true := rfl
    exact Bool.not_eq_true' _ ▸ List.all_eq_true.mp hall ch hch
  cases hb : isBareValue s with
  | false =>
    rw [valueText, hb, if_neg Bool.false_ne_true, quote, String.toList_ofList]
    rfl
  | true =>
    rw [valueText, if_pos hb, beginsNot, beginsNot, word?_append hword hu]
    cases word? "NOT".toList s.toList with
    | none => rfl
    | some found =>
      obtain ⟨taken, rest⟩ := found
      -- the word ends in the value, and its neighbour there is the same, or else the seam
      cases rest with
      | cons ch rest => rfl
      | nil =>
        cases u with
        | nil => rfl
        | cons ch u => simp [isWord_eq_false_of_isReserved (hu ch rfl)]

/-- The text of a condition, cut where its parts end. -/
theorem text_append (c : Condition) (u : List Char) :
    c.text.toList ++ u = (fieldText c.left).toList
      ++ ' ' :: (c.operator.toList ++ ' ' :: ((valueText c.right).toList ++ u)) := by
  simp [text, String.toList_append]

/-- The text of a value has no white space in front to be skipped. -/
theorem skipBlank_valueText (s : String) (u : List Char) :
    skipBlank ((valueText s).toList ++ u) = (valueText s).toList ++ u := by
  obtain ⟨ch, cs, hcs, hch⟩ := exists_valueText_eq s
  rw [hcs]
  exact skipBlank_cons hch _

/-- The text of a comparison operator begins with no white space. -/
theorem skipBlank_operatorText (o : Comparison) (cs : List Char) :
    skipBlank (o.text.toList ++ cs) = o.text.toList ++ cs := by
  cases o <;> rfl

/-- **A condition is read back from its text** in front of a seam, unless it swallows its `NOT`. -/
theorem readCondition_text {o : Comparison} (ho : c.operator = o.text)
    (hc : c.swallowsNot = false) (hu : Seam u) :
    readCondition (c.text.toList ++ u) = .read ⟨c, c.text.toList, u⟩ := by
  have hblank : isReserved ' ' = true := by decide
  have hoperator : comparison? (o.text.toList ++ ' ' :: ((valueText c.right).toList ++ u))
      = some ⟨o, o.text.toList, ' ' :: ((valueText c.right).toList ++ u)⟩ := by
    -- `IS` is the one operator that a longer one may be read in place of
    by_cases his : o = .is
    · subst his
      have his := comparison?_is (skipBlank_valueText c.right u)
      rw [beginsNot_valueText c.right hu] at his
      rw [swallowsNot, ho, show (Comparison.is.text == "IS") = true from rfl, Bool.true_and] at hc
      rw [if_neg (by rw [hc]; exact Bool.false_ne_true)] at his
      exact his
    · exact comparison?_text his _
  have hread := readCondition_of_parts (fieldOperand?_fieldText c.left (.cons hblank _))
    (by rw [skipBlank_space, skipBlank_operatorText]; exact hoperator)
    (by rw [skipBlank_space, skipBlank_valueText]; exact valueOperand?_valueText c.right hu)
  rw [takeWhile_isBlank_space (skipBlank_operatorText o _),
    takeWhile_isBlank_space (skipBlank_valueText c.right u)] at hread
  rw [text_append, ho, hread]
  obtain ⟨left, operator, right⟩ := c
  obtain rfl : operator = o.text := ho
  simp [text, String.toList_append]

/-- **A condition that swallows its `NOT`** is read back with another operator, if at all. -/
theorem operator_of_swallowsNot (hc : c.swallowsNot = true) (hu : Seam u) {l : Lexeme Condition}
    (h : readCondition (c.text.toList ++ u) = .read l) : l.value.operator = "IS NOT" := by
  rw [swallowsNot, Bool.and_assoc, Bool.and_eq_true, beq_iff_eq] at hc
  obtain ⟨his, hnot⟩ := hc
  obtain ⟨left, operator, right, hleft, hoperator, -, hl⟩ := exists_of_readCondition h
  rw [text_append, fieldOperand?_fieldText c.left (.cons (by decide) _)] at hleft
  obtain rfl := Option.some.inj hleft
  -- the operator that is read from the text is the longer one
  have hread := comparison?_is (skipBlank_valueText c.right u)
  rw [beginsNot_valueText c.right hu, if_pos hnot] at hread
  obtain ⟨o, ho, hisNot⟩ := hread
  have hskip : skipBlank (' ' :: (c.operator.toList ++ ' ' :: ((valueText c.right).toList ++ u)))
      = "IS".toList ++ ' ' :: ((valueText c.right).toList ++ u) := by
    rw [skipBlank_space, his]
    exact skipBlank_operatorText .is _
  rw [hskip, ho] at hoperator
  obtain rfl := Option.some.inj hoperator
  rw [hl, hisNot]
  rfl

end Condition

end Junction
