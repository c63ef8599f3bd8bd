import Junction.Facts.Check
import Junction.Proofs.Text.FinalSigma
import Junction.Proofs.Text.Occurrences

/-!
# Pattern matching

The pieces of a pattern are looked for from left to right, each at the first place where it occurs
behind the one before. That is enough to find them if they occur in turn at all, so each step of the
matcher has an answer and the answer is right; `Decides` says this of a question that might have none.

* `matchesPattern_iff_woven`: **a pattern matches a value** just if the value in lower case is the
  pieces of the pattern in lower case, with texts between them.
* `check_like_of_check`: **what begins, ends or occurs in a value is matched with a `%`** on its other
  sides, unless a capital sigma in it is final there and not in the value, or the other way round.
-/

namespace Junction

open Text

/-! ### Questions with an answer -/

/-- **The question whether `P`** has been answered, and rightly. -/
def Decides (answer : Option Bool) (P : Prop) : Prop := ∃ b, answer = some b ∧ (b = true ↔ P)

namespace Decides

variable {answer : Option Bool} {P Q : Prop}

theorem yes (h : P) : Decides (some true) P := ⟨true, rfl, fun _ => h, fun _ => rfl⟩

theorem no (h : ¬ P) : Decides (some false) P := ⟨false, rfl, nofun, fun hP => absurd hP h⟩

theorem congr (h : Decides answer P) (hPQ : P ↔ Q) : Decides answer Q := by
  obtain ⟨b, hb, hP⟩ := h
  exact ⟨b, hb, hP.trans hPQ⟩

end Decides

/-! ### Pieces -/

/-- **Looking for each piece at its first place** finds the pieces if they occur in turn. -/
theorem decides_occurInTurn? (pieces : List (List Char)) (cs : List Char) :
    Decides (occurInTurn? pieces cs) (InTurn pieces cs) := by
  induction pieces generalizing cs with
  | nil => exact .yes trivial
  | cons piece later ih =>
    rw [occurInTurn?]
    cases hfind : find? piece cs with
    | none =>
      refine .no ?_
      rintro ⟨gap, rest, hcs, -⟩
      exact ne_append_of_find? hfind gap rest hcs
    | some place =>
      obtain ⟨s, t, rfl, rfl, hfirst⟩ := find?_eq_some hfind
      have hslice : slice? (byteSize s + byteSize piece) (byteSize (s ++ (piece ++ t)))
          (s ++ (piece ++ t)) = some t := by
        rw [← byteSize_append, ← List.append_assoc]
        exact slice?_append_end (s ++ piece) t
      simp only [hslice, Option.bind_some]
      refine (ih t).congr ⟨fun hlater => ⟨s, t, rfl, hlater⟩, ?_⟩
      rintro ⟨gap, rest, hgap, hlater⟩
      -- the later pieces follow another place of this one, and so they follow the first
      obtain ⟨front, rfl⟩ := hfirst gap rest hgap
      exact hlater.append_left front

/-- **The pieces of a pattern** are found in a value if it begins with the first and ends with the last,
and the others occur in turn in between. -/
theorem decides_matchesPieces? (first : List Char) (middle : List (List Char))
    (last value : List Char) :
    Decides (matchesPieces? first middle last value)
      (∃ between, value = first ++ (between ++ last) ∧ InTurn middle between) := by
  unfold matchesPieces?
  -- a value that is too short, that begins or that ends otherwise does not match
  by_cases hsize : byteSize value < byteSize first + byteSize last
  · rw [if_pos hsize]
    refine .no ?_
    rintro ⟨between, rfl, -⟩
    simp only [byteSize_append] at hsize
    omega
  rw [if_neg hsize]
  cases hfirst : first.isPrefixOf value with
  | false =>
    refine .no ?_
    rintro ⟨between, rfl, -⟩
    exact Bool.false_ne_true (hfirst.symm.trans (List.isPrefixOf_iff_prefix.mpr ⟨_, rfl⟩))
  | true =>
    obtain ⟨behind, rfl⟩ := List.isPrefixOf_iff_prefix.mp hfirst
    simp only [Bool.not_true, Bool.false_eq_true, if_false, slice?_append_end, Option.bind_eq_bind,
      Option.bind_some]
    cases hlast : last.isSuffixOf behind with
    | false =>
      refine .no ?_
      rintro ⟨between, hvalue, -⟩
      obtain rfl := List.append_cancel_left hvalue
      exact Bool.false_ne_true (hlast.symm.trans (List.isSuffixOf_iff_suffix.mpr ⟨between, rfl⟩))
    | true =>
      obtain ⟨between, rfl⟩ := List.isSuffixOf_iff_suffix.mp hlast
      -- the second slice ends where the last piece begins
      have hend : byteSize (first ++ (between ++ last)) - byteSize last
          = byteSize first + byteSize between := by
        simp only [byteSize_append]
        omega
      rw [hend, slice?_append]
      refine (decides_occurInTurn? _ between).congr (inTurn_filter.trans ⟨fun h => ⟨_, rfl, h⟩, ?_⟩)
      rintro ⟨between', hvalue, h⟩
      obtain rfl := List.append_cancel_right (List.append_cancel_left hvalue)
      exact h

/-- The last piece is the one that nothing follows. -/
theorem exists_between_iff_woven {first last value : List Char} {middle : List (List Char)} :
    (∃ between, value = first ++ (between ++ last) ∧ InTurn middle between)
      ↔ ∃ gaps, gaps.length = (middle ++ [last]).length
        ∧ value = first ++ woven gaps (middle ++ [last]) := by
  constructor
  · -- what is left behind the pieces is the gap in front of `last`
    rintro ⟨between, rfl, h⟩
    obtain ⟨gaps, rest, hlength, rfl⟩ := inTurn_iff_woven.mp h
    refine ⟨gaps ++ [rest], by simp [hlength], ?_⟩
    rw [woven_concat hlength, List.append_assoc]
  · rintro ⟨gaps, hlength, rfl⟩
    have hne : gaps ≠ [] := by
      rintro rfl
      simp at hlength
    -- and the last gap is what is left behind the other pieces
    obtain ⟨gaps, gap, rfl⟩ : ∃ s gap, gaps = s ++ [gap] :=
      ⟨_, _, (List.dropLast_append_getLast hne).symm⟩
    have hlength' : gaps.length = middle.length := by simpa using hlength
    refine ⟨woven gaps middle ++ gap, ?_, inTurn_iff_woven.mpr ⟨gaps, gap, hlength', rfl⟩⟩
    rw [woven_concat hlength', List.append_assoc]

/-! ### Patterns -/

/-- The question whether a pattern matches has an answer. -/
theorem decides_matchesPattern? (pattern value : String) :
    Decides (matchesPattern? pattern value)
      (∃ gaps, gaps.length = (pieces '%' (lowercase pattern.toList)).2.length
        ∧ lowercase value.toList = (pieces '%' (lowercase pattern.toList)).1
          ++ woven gaps (pieces '%' (lowercase pattern.toList)).2) := by
  rw [matchesPattern?]
  match pieces '%' (lowercase pattern.toList) with
  | (whole, []) =>
    -- without a mark the two texts are the same
    refine ⟨whole == lowercase value.toList, rfl, ?_⟩
    rw [beq_iff_eq]
    constructor
    · rintro rfl
      exact ⟨[], rfl, (List.append_nil _).symm⟩
    · rintro ⟨gaps, hlength, hvalue⟩
      obtain rfl := List.length_eq_zero_iff.mp hlength
      exact (List.append_nil whole).symm.trans hvalue.symm
  | (first, piece :: later) =>
    -- with marks the last piece is taken from the end of the value
    have hsplit := List.dropLast_append_getLast (List.cons_ne_nil piece later)
    refine (decides_matchesPieces? first _ _ _).congr ?_
    rw [exists_between_iff_woven, hsplit]

/-- The answer is that of the matcher. -/
theorem matchesPattern_of_decides {pattern value : String} {P : Prop}
    (h : Decides (matchesPattern? pattern value) P) :
    matchesPattern? pattern value = some (matchesPattern pattern value)
      ∧ (matchesPattern pattern value = true ↔ P) := by
  obtain ⟨answer, hanswer, hP⟩ := h
  have hmatches : matchesPattern pattern value = answer := by
    rw [matchesPattern, hanswer]
    cases answer <;> rfl
  rw [hmatches]
  exact ⟨hanswer, hP⟩

/-- **Pattern matching is filling in the gaps.** The pattern in lower case is its pieces with `%` between
each two. It matches a value just if the value in lower case is the pieces with some texts between
each two; and no slice that is taken to find out is out of range, reversed or inside a character. -/
theorem matchesPattern_iff_woven (pattern value : String) :
    let split := pieces '%' (lowercase pattern.toList)
    (lowercase pattern.toList = split.1 ++ split.2.flatMap ('%' :: ·)
        ∧ ∀ piece ∈ split.1 :: split.2, '%' ∉ piece)
      ∧ matchesPattern? pattern value = some (matchesPattern pattern value)
      ∧ (matchesPattern pattern value = true
        ↔ ∃ gaps : List (List Char), gaps.length = split.2.length
          ∧ lowercase value.toList = split.1 ++ woven gaps split.2) := by
  intro split
  obtain ⟨hanswer, hiff⟩ := matchesPattern_of_decides (decides_matchesPattern? pattern value)
  exact ⟨pieces_spec '%' _, hanswer, hiff⟩

/-! ### Patterns around a text -/

theorem matchesPattern_iff_wild {pattern value : String} :
    matchesPattern pattern value = true ↔ Wild (lowercase pattern.toList) (lowercase value.toList) :=
  (matchesPattern_of_decides (decides_matchesPattern? pattern value)).2.trans wild_iff_woven.symm

variable {value text : String} {s t : List Char}

/-- **A text that occurs in a value is matched**, with a `%` on each side where more of the value stands,
if it keeps its sigmas there. -/
theorem matchesPattern_of_keepsSigmas {pattern : String} {a b : List Char}
    (hvalue : value.toList = s ++ (text.toList ++ t)) (hkeeps : KeepsSigmas s text.toList t)
    (hpattern : pattern.toList = a ++ (text.toList ++ b)) (ha : a = [] ∧ s = [] ∨ a = ['%'])
    (hb : b = [] ∧ t = [] ∨ b = ['%']) : matchesPattern pattern value = true := by
  rw [matchesPattern_iff_wild, hpattern, lowercase_mark (ha.imp_left And.left) (hb.imp_left And.left),
    hvalue, lowercase_append, keepsSigmas_iff.mp hkeeps]
  -- the text fills in itself, and each mark what is on its side
  refine Wild.append ?_ ((Wild.refl _).append ?_)
  · rcases ha with ⟨rfl, rfl⟩ | rfl
    · exact .nil
    · exact .mark_nil _
  · rcases hb with ⟨rfl, rfl⟩ | rfl
    · exact .nil
    · exact .mark_nil _

/-- A text at the beginning of a value is matched only if it keeps its sigmas. -/
theorem keepsSigmas_of_matches_beginning (hvalue : value.toList = text.toList ++ t)
    (htext : '%' ∉ text.toList) (h : matchesPattern (text ++ "%") value = true) :
    KeepsSigmas [] text.toList t := by
  -- the mark has no case, so the text is lower-cased as it is by itself
  have hlower : lowercase (text ++ "%").toList = lowercase text.toList ++ ['%'] := by
    rw [String.toList_append]
    exact lowercase_mark (s := []) (.inl rfl) (.inr rfl) text.toList
  have hparts := lowercase_append [] text.toList t
  rw [matchesPattern_iff_wild, hlower, hvalue] at h
  obtain ⟨rest, hrest, -⟩ := h.of_notMem (mark_notMem_lowercase htext)
  rw [List.nil_append] at hparts
  -- the part of the value has the length of the text, and so is the same
  rw [keepsSigmas_iff]
  exact List.append_inj_left (hparts.symm.trans hrest) (length_lowercaseBetween ..)

/-- So is a text at the end of a value. -/
theorem keepsSigmas_of_matches_end (hvalue : value.toList = s ++ text.toList)
    (htext : '%' ∉ text.toList) (h : matchesPattern ("%" ++ text) value = true) :
    KeepsSigmas s text.toList [] := by
  have hlower : lowercase ("%" ++ text).toList = '%' :: lowercase text.toList := by
    have hmark := lowercase_mark (s := ['%']) (t := []) (.inr rfl) (.inl rfl) text.toList
    rw [List.append_nil, List.append_nil] at hmark
    rw [String.toList_append]
    exact hmark
  have hparts := lowercase_append s text.toList []
  rw [matchesPattern_iff_wild, hlower, hvalue] at h
  obtain ⟨gap, rest, hgap, hrest⟩ := h.of_mark
  -- nothing follows the text in the pattern, so nothing follows it in the value
  rw [← List.append_nil (lowercase text.toList)] at hrest
  obtain ⟨_, rfl, ⟨⟩⟩ := hrest.of_notMem (mark_notMem_lowercase htext)
  rw [List.append_nil, lowercaseFrom, List.append_nil] at hparts
  rw [List.append_nil] at hgap
  rw [keepsSigmas_iff]
  exact List.append_inj_right' (hparts.symm.trans hgap) (length_lowercaseBetween ..)

/-! ### Conditions on a known field -/

/-- **What begins, ends or occurs in a value is matched** with a `%` in place of the rest of the value,
if its capital sigmas are final, or not, in the value as they are in the text alone. Where a text at
either end of the value holds no `%` itself, it is not matched otherwise. -/
theorem check_like_of_check {facts : Facts} {field : String} (h : facts.get? field = some value)
    (text : String) :
    (facts.check ⟨field, "STARTSWITH", text⟩ = some true →
      ∃ t, value.toList = text.toList ++ t
        ∧ (KeepsSigmas [] text.toList t → facts.check ⟨field, "LIKE", text ++ "%"⟩ = some true)
        ∧ ('%' ∉ text.toList → facts.check ⟨field, "LIKE", text ++ "%"⟩ = some true →
          KeepsSigmas [] text.toList t))
      ∧ (facts.check ⟨field, "ENDSWITH", text⟩ = some true →
        ∃ s, value.toList = s ++ text.toList
          ∧ (KeepsSigmas s text.toList [] → facts.check ⟨field, "LIKE", "%" ++ text⟩ = some true)
          ∧ ('%' ∉ text.toList → facts.check ⟨field, "LIKE", "%" ++ text⟩ = some true →
            KeepsSigmas s text.toList []))
      ∧ (facts.check ⟨field, "MATCHES", text⟩ = some true →
        (∃ s t, value.toList = s ++ (text.toList ++ t))
          ∧ ∀ s t, value.toList = s ++ (text.toList ++ t) → KeepsSigmas s text.toList t →
            facts.check ⟨field, "LIKE", "%" ++ text ++ "%"⟩ = some true) := by
  -- on a known field the answer is what the operator says of the two texts
  have hcheck : ∀ (o : Comparison) (right : String), o ≠ .is → o ≠ .isNot →
      (facts.check ⟨field, o.text, right⟩ = some true ↔ o.holds value right = true) := by
    intro o right his hisNot
    rw [Facts.check_of_known h his hisNot, Option.some.injEq]
  have hlike : ∀ pattern, facts.check ⟨field, "LIKE", pattern⟩ = some true
      ↔ matchesPattern pattern value = true := fun pattern => hcheck .like pattern nofun nofun
  simp only [hlike]
  refine ⟨fun hstarts => ?_, fun hends => ?_, fun hoccurs => ?_⟩
  · -- the mark stands for what comes after the text
    obtain ⟨t, ht⟩ := List.isPrefixOf_iff_prefix.mp ((hcheck .startsWith text nofun nofun).mp hstarts)
    refine ⟨t, ht.symm, fun hkeeps => ?_, keepsSigmas_of_matches_beginning ht.symm⟩
    exact matchesPattern_of_keepsSigmas (s := []) (a := []) ht.symm hkeeps
      (String.toList_append ..) (.inl ⟨rfl, rfl⟩) (.inr rfl)
  · -- the mark stands for what comes before it
    obtain ⟨s, hs⟩ := List.isSuffixOf_iff_suffix.mp ((hcheck .endsWith text nofun nofun).mp hends)
    refine ⟨s, hs.symm, fun hkeeps => ?_, keepsSigmas_of_matches_end hs.symm⟩
    refine matchesPattern_of_keepsSigmas (t := []) (b := []) ?_ hkeeps ?_ (.inr rfl)
      (.inl ⟨rfl, rfl⟩)
    · rw [List.append_nil, hs]
    · rw [List.append_nil, String.toList_append]
      rfl
  · -- one mark on either side
    refine ⟨occursIn_iff.mp ((hcheck .includes text nofun nofun).mp hoccurs), fun s t hst hkeeps => ?_⟩
    refine matchesPattern_of_keepsSigmas hst hkeeps ?_ (.inr rfl) (.inr rfl)
    rw [String.toList_append, String.toList_append, List.append_assoc]
    rfl

/-- In `ΑΣΑ` the sigma is not final, in `ΑΣ` it is: the value begins with the text and is not matched by
`ΑΣ%`. In `ΣΑ` it is not final either, and `Α` has none. -/
theorem check_like_of_check_sigma :
    let facts := Facts.ofList [("name", "ΑΣΑ")]
    facts.get? "name" = some "ΑΣΑ"
      ∧ facts.check ⟨"name", "STARTSWITH", "ΑΣ"⟩ = some true
      ∧ facts.check ⟨"name", "LIKE", "ΑΣ%"⟩ = some false
      ∧ facts.check ⟨"name", "ENDSWITH", "ΣΑ"⟩ = some true
      ∧ facts.check ⟨"name", "LIKE", "%ΣΑ"⟩ = some true
      ∧ facts.check ⟨"name", "MATCHES", "Α"⟩ = some true
      ∧ facts.check ⟨"name", "LIKE", "%Α%"⟩ = some true := by
  intro facts
  have hknown : facts.get? "name" = some "ΑΣΑ" := rfl
  have hends : facts.check ⟨"name", "ENDSWITH", "ΣΑ"⟩ = some true := by decide
  have hoccurs : facts.check ⟨"name", "MATCHES", "Α"⟩ = some true := by decide
  -- a letter follows the sigma in the text as it does in the value
  obtain ⟨s, hs, hkeeps, -⟩ := (check_like_of_check hknown "ΣΑ").2.1 hends
  obtain rfl : s = ['Α'] := List.append_cancel_right (hs.symm.trans rfl)
  obtain ⟨-, hmatched⟩ := (check_like_of_check hknown "Α").2.2 hoccurs
  exact ⟨hknown, by decide, by decide, hends, hkeeps (by decide), hoccurs,
    hmatched [] ['Σ', 'Α'] rfl (keepsSigmas_of_notMem (by decide))⟩

end Junction
