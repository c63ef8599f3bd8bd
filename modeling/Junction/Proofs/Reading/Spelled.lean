import Junction.Proofs.Reading.ConditionEnds

/-!
# Conditions in any spelling

`Condition.Spelled` says how a condition may be written, and nothing of how it is read: a field, an
operator and a value one after another, white space between them or not. An operand stands in a pair of
quotes, where a backslash protects the character after it (`Quoted.Spells`), or is made of bare characters
as far as these go (`Condition.OperandSpelled`); and the operator is the longest one that is written at its
place.

**What is read as a condition is spelled so** (`Condition.spelled_of_readCondition`). Hence its parts
cannot come from different places, and no part is changed on the way but for quotes and the case of
words.
-/

namespace Junction

open Text

/-! ### Operands -/

/-- **A text as it stands between quotes** `d`: a character after a backslash, or without one if it is
neither the quote nor a backslash itself. -/
inductive Quoted.Spells (d : Char) : List Char → List Char → Prop
  | nil : Spells d [] []
  | plain {c : Char} {cs w : List Char} (notQuote : c ≠ d) (notBackslash : c ≠ '\\')
      (later : Spells d cs w) : Spells d (c :: cs) (c :: w)
  | guarded (c : Char) {cs w : List Char} (later : Spells d cs w) : Spells d (c :: cs) ('\\' :: c :: w)

/-- **An operand as it is written** in front of `u`: in quotes, or in bare characters up to the first that is
none. -/
inductive Condition.OperandSpelled (bare : Char → Bool) (u : List Char) : String → List Char → Prop
  | quoted {d : Char} {cs w : List Char} (quote : isQuote d = true) (spells : Quoted.Spells d cs w) :
      OperandSpelled bare u (String.ofList cs) (d :: (w ++ [d]))
  | bare {s : String} (ne_nil : s.toList ≠ []) (all : ∀ c ∈ s.toList, bare c = true)
      (ends : ∀ c ∈ u.head?, bare c = false) : OperandSpelled bare u s s.toList

/-- What is found up to the closing quote spells what is left without the backslashes. -/
theorem Quoted.exists_spells_of_closing? {d : Char} {cs run rest : List Char}
    (h : closing? d cs = some (run, rest)) : ∃ w, run = w ++ [d] ∧ Spells d (unescape w) w := by
  refine closing?_induct
    (motive := fun _ run _ => ∃ w, run = w ++ [d] ∧ Spells d (unescape w) w) ?_ ?_ ?_ h
  · rintro c _ _ _ ⟨w, rfl, hspells⟩
    exact ⟨'\\' :: c :: w, rfl, .guarded c hspells⟩
  · rintro c _ _ _ hback hne ⟨w, rfl, hspells⟩
    refine ⟨c :: w, rfl, ?_⟩
    rw [unescape_cons hback]
    exact .plain hne hback hspells
  · exact fun _ _ => ⟨[], rfl, .nil⟩

/-- A text as it stands between quotes ends at the quote after it. -/
theorem Quoted.Spells.closing?_append {d : Char} {s w : List Char} (h : Spells d s w) (hd : d ≠ '\\')
    (v : List Char) : closing? d (w ++ d :: v) = some (w ++ [d], v) := by
  induction h with
  | nil => rw [List.nil_append, closing?_cons hd, if_pos rfl, List.nil_append]
  | plain notQuote notBackslash _ ih =>
    rw [List.cons_append, closing?_cons notBackslash, if_neg notQuote, ih]
    rfl
  | guarded c _ ih =>
    rw [List.cons_append, List.cons_append, closing?, ih]
    rfl

/-- **The quote `d` is never closed** in `cs`: it does not come after any text that may stand between two
of its kind. -/
def Quoted.Unclosed (d : Char) (cs : List Char) : Prop :=
  ∀ s w v : List Char, Spells d s w → cs ≠ w ++ d :: v

/-- No end of a run is found just if there is none. -/
theorem Quoted.closing?_eq_none_iff {d : Char} {cs : List Char} (hd : d ≠ '\\') :
    closing? d cs = none ↔ Unclosed d cs := by
  constructor
  · rintro h s w v hspells rfl
    rw [hspells.closing?_append hd] at h
    cases h
  · refine fun h => Option.eq_none_iff_forall_ne_some.mpr fun ⟨run, rest⟩ hsome => ?_
    -- what closes is a spelled text and the quote behind it
    obtain ⟨w, rfl, hspells⟩ := exists_spells_of_closing? hsome
    refine h _ w rest hspells ?_
    rw [← closing?_append hsome, List.append_assoc, List.singleton_append]

/-- **An operand that is read is spelled so.** -/
theorem Condition.spelled_of_conditionOperand? {bare : Char → Bool} {cs : List Char}
    {l : Lexeme String} (h : conditionOperand? bare cs = some l) :
    OperandSpelled bare l.rest l.value l.taken := by
  unfold conditionOperand? at h
  split at h
  · rename_i run rest hrun
    obtain rfl := Option.some.inj h
    cases cs with
    | nil => cases hrun
    | cons d cs =>
      rw [Quoted.run?] at hrun
      split at hrun
      · rename_i hd
        obtain ⟨⟨later, rest'⟩, hlater, he⟩ := Option.map_eq_some_iff.mp hrun
        obtain ⟨rfl, -⟩ := Prod.mk.inj he
        -- what stands between the quotes is unescaped
        obtain ⟨w, rfl, hspells⟩ := Quoted.exists_spells_of_closing? hlater
        have hinner : Quoted.inner? (d :: (w ++ [d])) = some w := by
          rw [Quoted.inner?, List.getLast?_concat, if_pos ⟨hd, rfl⟩, List.dropLast_concat]
        have hvalue : Quoted.dequote (String.ofList (d :: (w ++ [d])))
            = String.ofList (Quoted.unescape w) := by
          rw [Quoted.dequote, String.toList_ofList, hinner]
        rw [hvalue]
        exact .quoted hd hspells
      · cases hrun
  · split at h
    · cases h
    · rename_i c taken htake
      obtain rfl := Option.some.inj h
      -- all the bare characters that there are
      have hspelled : OperandSpelled bare (cs.dropWhile bare) (String.ofList (c :: taken))
          (String.ofList (c :: taken)).toList := by
        refine .bare ?_ ?_ fun d hd => eq_false_of_head?_dropWhile hd
        · rw [String.toList_ofList]
          exact List.cons_ne_nil c taken
        · rw [String.toList_ofList, ← htake]
          exact fun d hd => List.mem_takeWhile_imp hd
      rwa [String.toList_ofList] at hspelled

/-- What follows may be cut off. -/
theorem Condition.OperandSpelled.of_append {bare : Char → Bool} {u v w : List Char} {s : String}
    (h : OperandSpelled bare (u ++ v) s w) : OperandSpelled bare u s w := by
  cases h with
  | quoted quote spells => exact .quoted quote spells
  | bare ne_nil all ends =>
    refine .bare ne_nil all fun c hc => ends c ?_
    rw [List.head?_append, Option.mem_def.mp hc]
    rfl

/-! ### Conditions -/

/-- **No operator longer than `y` is written** at the front of a text. -/
def Comparison.Longest (y cs : List Char) : Prop :=
  ∀ (o : Comparison) (y' v : List Char), Written o.spelling y' → cs = y' ++ v →
    ¬ (o.isWordy = true ∧ v.head?.any isWord = true) → y'.length ≤ y.length

/-- **A condition as it is written**: the field `x`, the operator `y` and the value `z`, white space between
them or not. -/
inductive Condition.Spelled : Condition → List Char → Prop
  | mk {left right : String} {o : Comparison} {x b y b' z : List Char}
      (field : OperandSpelled isFieldChar (b ++ (y ++ (b' ++ z))) left x)
      (blank : ∀ c ∈ b, isBlank c = true) (operator : Written o.spelling y)
      (longest : Comparison.Longest y (y ++ (b' ++ z))) (blank' : ∀ c ∈ b', isBlank c = true)
      (value : OperandSpelled isValueChar [] right z) :
      Spelled ⟨left, o.text, right⟩ (x ++ (b ++ (y ++ (b' ++ z))))

/-- The operator that is read is the longest one in front of a value that is read. -/
theorem Comparison.longest_of_comparison? {o : Comparison} {y b r : List Char} {value : Lexeme String}
    (h : comparison? (y ++ (b ++ (value.taken ++ value.rest))) = some ⟨o, y, r⟩)
    (hne : value.taken ≠ []) (hcut : Cut value.taken value.rest) :
    Longest y (y ++ (b ++ value.taken)) := by
  intro o' y' v h' hsplit hedge
  have hall : y ++ (b ++ (value.taken ++ value.rest)) = y' ++ (v ++ value.rest) := by
    rw [← List.append_assoc y' v, ← hsplit]
    simp only [List.append_assoc]
  rw [hall] at h
  refine length_le_of_comparison? h h' fun hboth => ?_
  cases v with
  | nil =>
    -- it would end where the value does, in front of no word character
    have hlast : y'.getLast?.any isWord = value.taken.getLast?.any isWord := by
      rw [List.append_nil] at hsplit
      rw [← hsplit, ← List.append_assoc, List.getLast?_append_of_ne_nil _ hne]
    have hnext := hcut (hlast.symm.trans (h'.isWord_getLast?.trans hboth.1))
    rw [List.nil_append, hnext] at hboth
    cases hboth.2
  | cons c v => exact hedge hboth

/-- **A condition that is read is spelled so.** -/
theorem Condition.spelled_of_readCondition {cs : List Char} {l : Lexeme Condition}
    (h : readCondition cs = .read l) : Spelled l.value l.taken := by
  obtain ⟨left, ⟨o, y, r⟩, right, hleft, hoperator, hright, rfl⟩ := exists_of_readCondition h
  -- the text from the end of the field on, taken apart
  have hvalue : right.taken ++ right.rest = skipBlank r :=
    (readsFrom_of_conditionOperand? hright).taken_append_rest
  have hbehind : y ++ (r.takeWhile isBlank ++ (right.taken ++ right.rest)) = skipBlank left.rest := by
    rw [hvalue, takeWhile_append_skipBlank]
    exact (readsFrom_of_comparison? hoperator).taken_append_rest
  have hrest : left.rest.takeWhile isBlank ++ (y ++ (r.takeWhile isBlank ++ right.taken)) ++ right.rest
      = left.rest := by
    simp only [List.append_assoc]
    rw [hbehind, takeWhile_append_skipBlank]
  have hfield := spelled_of_conditionOperand? hleft
  rw [← hrest] at hfield
  rw [← hbehind] at hoperator
  have hspelled : Spelled ⟨left.value, o.text, right.value⟩ (left.taken ++ (left.rest.takeWhile isBlank
      ++ (y ++ (r.takeWhile isBlank ++ right.taken)))) :=
    .mk hfield.of_append isBlank_of_mem_takeWhile (written_of_comparison? hoperator).1
      (Comparison.longest_of_comparison? hoperator
        (readsFrom_of_conditionOperand? hright).taken_ne_nil
        (cut_of_conditionOperand? bareClass_isValueChar hright))
      isBlank_of_mem_takeWhile (spelled_of_conditionOperand? hright).of_append
  simp only [List.append_assoc]
  exact hspelled

end Junction
