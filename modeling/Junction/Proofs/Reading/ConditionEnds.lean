import Junction.Proofs.Reading.Comparisons
import Junction.Proofs.Reading.Conditions
import Junction.Proofs.Reading.Operands

/-!
# Where conditions end

A condition is read part by part, and none of its parts ends between two word characters
(`Text.Cut`). So what is read does not depend on what comes after it:

* `readCondition_append`: **a condition that is read stays so** where another text follows in front of a
  seam;
* `readCondition_cut`: **where a part of a condition is missing**, the text before that place reads as
  the same parts, and wants the same one at its end.
-/

namespace Junction

open Text Quoted Keywords

/-! ### Operands -/

/-- A class of characters of which an operand without quotes is made: word characters are among them, and
no reserved ones. -/
structure Condition.BareClass (bare : Char → Bool) : Prop where
  word : ∀ c, isWord c = true → bare c = true
  reserved : ∀ c, bare c = true → isReserved c = false

theorem Condition.bareClass_isFieldChar : BareClass isFieldChar where
  word c hc := by
    rw [isWord, Bool.or_eq_true] at hc
    rcases hc with hc | hc
    · rw [isFieldChar, hc]
      rfl
    · rw [beq_iff_eq.mp hc]
      rfl
  reserved _ := isReserved_eq_false_of_isFieldChar

theorem Condition.bareClass_isValueChar : BareClass isValueChar where
  word c hc := by
    rw [isValueChar_eq, isReserved_eq_false_of_isWord hc]
    rfl
  reserved c hc := by
    rw [isValueChar_eq, Bool.not_eq_true'] at hc
    exact hc

/-- A quoted run that is read is the same whatever follows it. -/
theorem Quoted.run?_append_of_eq_some {cs run rest : List Char} (h : run? cs = some (run, rest))
    (u : List Char) : run? (run ++ u) = some (run, u) := by
  cases cs with
  | nil => cases h
  | cons d cs =>
    rw [run?] at h
    split at h
    · rename_i hd
      obtain ⟨⟨later, rest'⟩, hlater, he⟩ := Option.map_eq_some_iff.mp h
      obtain ⟨rfl, rfl⟩ := Prod.mk.inj he
      rw [List.cons_append, run?, if_pos hd, closing?_append_of_eq_some hlater]
      rfl
    · cases h

/-- A quoted run ends with a quote. -/
theorem Quoted.isWord_getLast?_of_run? {cs run rest : List Char} (h : run? cs = some (run, rest)) :
    run.getLast?.any isWord = false := by
  cases cs with
  | nil => cases h
  | cons d cs =>
    rw [run?] at h
    split at h
    · rename_i hd
      obtain ⟨⟨later, rest'⟩, hlater, he⟩ := Option.map_eq_some_iff.mp h
      obtain ⟨rfl, -⟩ := Prod.mk.inj he
      -- the run ends with the quote that closes it
      rw [List.getLast?_cons, getLast?_of_closing? hlater]
      refine isWord_eq_false_of_isReserved ?_
      rw [isReserved]
      exact Bool.or_eq_true_iff.mpr (.inr hd)
    · cases h

section Operand

variable {bare : Char → Bool}

/-- **An operand that is read stays so** where `v'` follows it and not `v`, if `v'` begins with no bare
character or begins as `v` does. -/
theorem conditionOperand?_append (hbare : Condition.BareClass bare) {w v v' : List Char} {x : String}
    (h : conditionOperand? bare (w ++ v) = some ⟨x, w, v⟩)
    (hv : ∀ c ∈ v'.head?, bare c = true → v.head? = some c) :
    conditionOperand? bare (w ++ v') = some ⟨x, w, v'⟩ := by
  unfold conditionOperand? at h
  split at h
  · -- a quoted run is closed, whatever follows
    rename_i run rest hrun
    obtain ⟨rfl, rfl, rfl⟩ := Lexeme.mk.inj (Option.some.inj h)
    rw [conditionOperand?, run?_append_of_eq_some hrun]
  · split at h
    · cases h
    · rename_i c taken htaken
      obtain ⟨rfl, rfl, hdrop⟩ := Lexeme.mk.inj (Option.some.inj h)
      have hall : ∀ d ∈ c :: taken, bare d = true := by
        intro d hd
        rw [← htaken] at hd
        exact List.mem_takeWhile_imp hd
      -- the bare characters end where `v` begins
      have hstop : ∀ d ∈ v.head?, bare d = false := by
        intro d hd
        rw [← hdrop] at hd
        exact eq_false_of_head?_dropWhile hd
      have hof : (String.ofList (c :: taken)).toList = c :: taken := String.toList_ofList
      have hread : conditionOperand? bare ((String.ofList (c :: taken)).toList ++ v')
          = some ⟨String.ofList (c :: taken), (String.ofList (c :: taken)).toList, v'⟩ := by
        rw [← hof] at hall
        refine conditionOperand?_bare ?_ (fun d hd => ⟨hall d hd, ?_⟩) (fun d hd => ?_)
        · rw [hof]
          exact List.cons_ne_nil c taken
        · exact (isReserved_eq_false_iff.mp (hbare.reserved d (hall d hd))).2.2
        · refine Bool.eq_false_iff.mpr fun hb => ?_
          rw [hstop d (hv d hd hb)] at hb
          cases hb
      rwa [hof] at hread

/-- An operand that ends within a text stays so where another text follows this, or none. -/
theorem conditionOperand?_within (hbare : Condition.BareClass bare) {w p u u' : List Char} {x : String}
    (h : conditionOperand? bare (w ++ (p ++ u)) = some ⟨x, w, p ++ u⟩) (hp : p ≠ [] ∨ u' = []) :
    conditionOperand? bare (w ++ (p ++ u')) = some ⟨x, w, p ++ u'⟩ := by
  refine conditionOperand?_append hbare h fun c hc _ => ?_
  cases p with
  | cons d p => exact hc
  | nil =>
    rw [hp.resolve_left fun hne => hne rfl] at hc
    cases hc

/-- **An operand of a condition does not end between two word characters.** -/
theorem cut_of_conditionOperand? (hbare : Condition.BareClass bare) {cs : List Char}
    {l : Lexeme String} (h : conditionOperand? bare cs = some l) : Cut l.taken l.rest := by
  intro hlast
  unfold conditionOperand? at h
  split at h
  · -- a quoted run ends with no word character
    rename_i run rest hrun
    obtain rfl := Option.some.inj h
    rw [isWord_getLast?_of_run? hrun] at hlast
    cases hlast
  · split at h
    · cases h
    · obtain rfl := Option.some.inj h
      -- bare characters end in front of one that is not bare, and word characters are
      cases hd : (cs.dropWhile bare).head? with
      | none => rfl
      | some d =>
        refine Bool.eq_false_iff.mpr fun hw => ?_
        have hnot := eq_false_of_head?_dropWhile hd
        rw [hbare.word d hw] at hnot
        cases hnot

end Operand

/-! ### Conditions -/

/-- White space may be added to the text before a cut. -/
theorem Text.Cut.append_blank {w b u : List Char} (hb : ∀ c ∈ b, isBlank c = true)
    (h : Cut w (b ++ u)) : Cut (w ++ b) u := by
  intro hlast
  cases hb' : b.getLast? with
  | none =>
    obtain rfl := List.getLast?_eq_none_iff.mp hb'
    rw [List.append_nil] at hlast
    exact h hlast
  | some c =>
    -- white space is no word character, so there is nothing to cut
    rw [List.getLast?_append, hb', Option.some_or, Option.any_some,
      isWord_eq_false_of_isBlank (hb c (List.mem_of_getLast? hb'))] at hlast
    cases hlast

/-- A condition does not end between two word characters. -/
theorem cut_of_readCondition {cs : List Char} {l : Lexeme Condition} (h : readCondition cs = .read l) :
    Cut l.taken l.rest := by
  obtain ⟨left, operator, right, -, -, hright, rfl⟩ := exists_of_readCondition h
  have hcut := cut_of_conditionOperand? Condition.bareClass_isValueChar hright
  intro hlast
  rw [List.getLast?_append_of_ne_nil _ (readsFrom_of_conditionOperand? hright).taken_ne_nil] at hlast
  exact hcut hlast

section Following

variable {s u : List Char}

/-- Of a text before `u`, what is left after a part of it. -/
theorem Lexeme.ReadsFrom.of_rest {α : Type} {l : Lexeme α} {r : List Char} (h : l.ReadsFrom (s ++ u))
    (hr : l.rest = r ++ u) : s = l.taken ++ r := by
  have hsplit := h.taken_append_rest
  rw [hr, ← List.append_assoc] at hsplit
  exact (List.append_cancel_right hsplit).symm

/-- A part that was read after white space, in a text before `u`: it is found there again where another
text comes in the place of `u`. -/
theorem Lexeme.ReadsFrom.exists_part {α : Type} {l : Lexeme α} {cs r : List Char}
    (h : l.ReadsFrom (skipBlank cs)) (hr : l.rest = r ++ u) :
    ∃ p, cs = p ++ u ∧ ∀ v, skipBlank (p ++ v) = l.taken ++ (r ++ v)
      ∧ (p ++ v).takeWhile isBlank = cs.takeWhile isBlank := by
  have hskip : skipBlank cs = l.taken ++ (r ++ u) := by
    rw [← hr]
    exact h.taken_append_rest.symm
  -- white space that is skipped, what is taken, and the rest
  obtain ⟨b, -, rfl⟩ := exists_append_of_skipBlank hskip
  rw [← List.append_assoc l.taken, ← List.append_assoc b] at hskip ⊢
  rw [List.append_assoc l.taken] at hskip
  obtain ⟨b', -, hall⟩ := exists_append_of_skipBlank_append h.taken_ne_nil hskip
  refine ⟨_, rfl, fun v => ⟨(hall v).1, ?_⟩⟩
  rw [(hall v).2, (hall u).2]

/-- **A condition that is read stays so** where `u'` follows the text and not `u`. -/
theorem readCondition_append {u' r : List Char} {l : Lexeme Condition} (hu : Seam u') (hcut : Cut s u)
    (h : readCondition (s ++ u) = .read l) (hr : l.rest = r ++ u) :
    readCondition (s ++ u') = .read ⟨l.value, l.taken, r ++ u'⟩ := by
  obtain ⟨⟨x, w₁, r₁⟩, ⟨o, w₂, r₂⟩, ⟨y, w₃, r₃⟩, hleft, hoperator, hright, rfl⟩ :=
    exists_of_readCondition h
  have hfield := readsFrom_of_conditionOperand? hleft
  have hcomparison := readsFrom_of_comparison? hoperator
  have hvalue := readsFrom_of_conditionOperand? hright
  obtain rfl : r₃ = r ++ u := hr
  -- what stands before `u` after the operator, after the field, and in all
  obtain ⟨q, rfl, hq⟩ : ∃ q, r₂ = q ++ u ∧ _ := hvalue.exists_part rfl
  obtain ⟨p, rfl, hp⟩ : ∃ p, r₁ = p ++ u ∧ _ := hcomparison.exists_part rfl
  obtain rfl : s = w₁ ++ p := hfield.of_rest rfl
  have hpne : p ≠ [] := by
    rintro rfl
    exact hcomparison.taken_ne_nil (List.append_eq_nil_iff.mp (hp []).1.symm).1
  have hqne : skipBlank q ≠ [] := by
    intro hnil
    have hskip := (hq []).1
    rw [List.append_nil, hnil] at hskip
    exact hvalue.taken_ne_nil (List.append_eq_nil_iff.mp hskip.symm).1
  rw [(hp u).1] at hoperator
  rw [(hq u).1] at hright
  -- the field and the operator are not the last part, so what comes next to them stays
  have hfield' : fieldOperand? (w₁ ++ (p ++ u')) = some ⟨x, w₁, p ++ u'⟩ := by
    rw [List.append_assoc] at hleft
    exact conditionOperand?_within Condition.bareClass_isFieldChar hleft (.inl hpne)
  have hoperator' : comparison? (w₂ ++ (q ++ u')) = some ⟨o, w₂, q ++ u'⟩ := by
    rw [← List.append_assoc] at hoperator ⊢
    refine comparison?_append hu ?_ (.inr hqne) hoperator
    -- the operator and what follows it end the text before `u`
    have hskip := (hp []).1
    rw [List.append_nil, List.append_nil] at hskip
    obtain ⟨b, -, rfl⟩ := exists_append_of_skipBlank hskip
    rw [← List.append_assoc] at hcut
    exact hcut.of_append
  -- the value may come up to the seam, where it stops
  have hvalue' : valueOperand? (w₃ ++ (r ++ u')) = some ⟨y, w₃, r ++ u'⟩ := by
    refine conditionOperand?_append Condition.bareClass_isValueChar hright fun c hc hbare => ?_
    cases r with
    | cons d r => exact hc
    | nil =>
      have hres := Condition.bareClass_isValueChar.reserved c hbare
      rw [hu c hc] at hres
      cases hres
  rw [← (hp u').1] at hoperator'
  rw [← (hq u').1] at hvalue'
  have hread := readCondition_of_parts hfield' hoperator' hvalue'
  simp only [(hp u').2, (hq u').2] at hread
  rw [List.append_assoc, hread]

/-- A field that is read is read by itself also, where the text is cut off after it. -/
theorem fieldOperand?_cut {x : String} {w p : List Char}
    (h : fieldOperand? (s ++ u) = some ⟨x, w, p ++ u⟩) :
    s = w ++ p ∧ fieldOperand? s = some ⟨x, w, p⟩ := by
  obtain rfl : s = w ++ p := (readsFrom_of_conditionOperand? h).of_rest rfl
  rw [List.append_assoc] at h
  have hread := conditionOperand?_within Condition.bareClass_isFieldChar h (.inr rfl)
  rw [List.append_nil] at hread
  exact ⟨rfl, hread⟩

/-- **Where a part of a condition is missing**, the text before that place does not end between two word
characters, and read by itself it misses the same part at its end. -/
theorem readCondition_cut {expected : KindSet} (hs : s ≠ [])
    (h : readCondition (s ++ u) = .wants expected u) :
    Cut s u ∧ readCondition s = .wants expected [] := by
  cases breaksOff_of_wants h with
  | field _ hsu =>
    -- nothing stands before a field that is missing
    exact absurd (List.append_left_eq_self.mp hsu) hs
  | @operator left hleft _ hskip =>
    obtain ⟨x, w₁, r₁⟩ := left
    obtain ⟨b, hb, rfl⟩ : ∃ b, (∀ c ∈ b, isBlank c = true) ∧ r₁ = b ++ u :=
      exists_append_of_skipBlank hskip
    obtain ⟨rfl, hread⟩ := fieldOperand?_cut hleft
    have hcut : Cut w₁ (b ++ u) := cut_of_conditionOperand? Condition.bareClass_isFieldChar hleft
    refine ⟨hcut.append_blank hb, ?_⟩
    simp only [readCondition, hread, skipBlank_eq_nil_iff.mpr hb]
    rfl
  | @value left operator hleft hoperator _ hskip =>
    obtain ⟨x, w₁, r₁⟩ := left
    obtain ⟨o, w₂, r₂⟩ := operator
    obtain ⟨b, hb, rfl⟩ : ∃ b, (∀ c ∈ b, isBlank c = true) ∧ r₂ = b ++ u :=
      exists_append_of_skipBlank hskip
    have hcomparison := readsFrom_of_comparison? hoperator
    have hcut : Cut w₂ (b ++ u) := cut_of_comparison? hoperator
    obtain ⟨p, rfl, hp⟩ : ∃ p, r₁ = p ++ u ∧ _ := hcomparison.exists_part rfl
    obtain ⟨rfl, hread⟩ := fieldOperand?_cut hleft
    have hskipped : skipBlank p = w₂ ++ b := by
      have hnil := (hp []).1
      rwa [List.append_nil, List.append_nil] at hnil
    -- the operator is read by itself also, and nothing but white space comes after it
    have hread' : comparison? (skipBlank p) = some ⟨o, w₂, b⟩ := by
      rw [(hp u).1, ← List.append_assoc] at hoperator
      have happ := comparison?_append .nil (hcut.append_blank hb) (.inl rfl) hoperator
      rw [List.append_nil, List.append_nil] at happ
      rw [hskipped, happ]
    refine ⟨?_, ?_⟩
    · obtain ⟨b', -, rfl⟩ := exists_append_of_skipBlank hskipped
      rw [← List.append_assoc]
      exact (hcut.append_blank hb).append_left fun hnil =>
        hcomparison.taken_ne_nil (List.append_eq_nil_iff.mp hnil).1
    · simp only [readCondition, hread, hread', skipBlank_eq_nil_iff.mpr hb]
      rfl

end Following

end Junction
