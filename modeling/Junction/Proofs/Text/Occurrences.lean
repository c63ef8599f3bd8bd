import Junction.Text.Search
import Junction.Text.Slice
import Mathlib.Data.List.Basic

/-!
# Texts that occur in a text

A text may occur at several places. What follows any of them is the end of what follows the first one
(`find?_eq_some`), so whatever occurs behind another place occurs behind the first.

* `InTurn` says that several texts, the **pieces**, occur one after another, and `woven` puts pieces
  together with gaps between them; the two say the same (`inTurn_iff_woven`);
* `Wild` says of a pattern, character by character, that `%` stands for any text, and each other
  character for itself. It is the same as to cut the pattern at each `%` and to weave the pieces with
  some gaps (`wild_iff_woven`).
-/

namespace Junction.Text

/-! ### Places -/

/-- The first place of a text: what stands before it, what follows it, and that what follows any other
place ends in the same way. -/
theorem find?_eq_some {sought cs : List Char} {place : Nat} (h : find? sought cs = some place) :
    ∃ s t, cs = s ++ (sought ++ t) ∧ place = byteSize s
      ∧ ∀ s' t', cs = s' ++ (sought ++ t') → t' <:+ t := by
  induction cs generalizing place with
  | nil =>
    rw [find?, Option.ite_none_right_eq_some, List.isPrefixOf_iff_prefix, List.prefix_nil] at h
    obtain ⟨rfl, hplace⟩ := h
    refine ⟨[], [], rfl, (Option.some.inj hplace).symm, fun s' t' ht' => ?_⟩
    have hnil := List.append_eq_nil_iff.mp ht'.symm
    exact (List.append_eq_nil_iff.mp hnil.2).2 ▸ List.nil_suffix
  | cons c cs ih =>
    rw [find?] at h
    split at h
    · -- it occurs in front
      rename_i hprefix
      obtain ⟨t, ht⟩ := List.isPrefixOf_iff_prefix.mp hprefix
      refine ⟨[], t, ht.symm, (Option.some.inj h).symm, fun s' t' ht' => ?_⟩
      have hlength : t'.length ≤ t.length := by
        have hsizes := congrArg List.length (ht.trans ht')
        rw [List.length_append, List.length_append, List.length_append] at hsizes
        omega
      have hsuffix : t' <:+ sought ++ t := by
        rw [ht, ht', ← List.append_assoc]
        exact List.suffix_append _ _
      exact List.suffix_of_suffix_length_le hsuffix (List.suffix_append _ _) hlength
    · rename_i hprefix
      obtain ⟨place', hfind, rfl⟩ := Option.map_eq_some_iff.mp h
      obtain ⟨s, t, rfl, rfl, hfirst⟩ := ih hfind
      refine ⟨c :: s, t, rfl, rfl, fun s' t' ht' => ?_⟩
      -- another place is not in front either
      cases s' with
      | nil => exact absurd (List.isPrefixOf_iff_prefix.mpr ⟨t', ht'.symm⟩) hprefix
      | cons d s' => exact hfirst s' t' (List.cons.inj ht').2

/-- A text without a first place does not occur. -/
theorem ne_append_of_find? {sought cs : List Char} (h : find? sought cs = none) (s t : List Char) :
    cs ≠ s ++ (sought ++ t) := by
  induction cs generalizing s with
  | nil =>
    intro hcs
    have hnil := List.append_eq_nil_iff.mp hcs.symm
    obtain rfl := (List.append_eq_nil_iff.mp hnil.2).1
    cases h
  | cons c cs ih =>
    rw [find?] at h
    split at h
    · cases h
    · rename_i hprefix
      intro hcs
      -- at the front it would have been found, and further on it is left to the induction
      cases s with
      | nil => exact hprefix (List.isPrefixOf_iff_prefix.mpr ⟨t, hcs.symm⟩)
      | cons d s => exact ih (Option.map_eq_none_iff.mp h) s (List.cons.inj hcs).2

/-- **A text occurs** between what stands before it and what follows. -/
theorem occursIn_iff {sought cs : List Char} :
    occursIn sought cs = true ↔ ∃ s t, cs = s ++ (sought ++ t) := by
  rw [occursIn]
  cases hfind : find? sought cs with
  | none =>
    refine ⟨nofun, ?_⟩
    rintro ⟨s, t, hcs⟩
    exact absurd hcs (ne_append_of_find? hfind s t)
  | some place =>
    obtain ⟨s, t, hcs, -⟩ := find?_eq_some hfind
    exact ⟨fun _ => ⟨s, t, hcs⟩, fun _ => rfl⟩

/-! ### Texts in turn -/

/-- **The pieces occur one after another**, with any texts between them. -/
def InTurn : List (List Char) → List Char → Prop
  | [], _ => True
  | piece :: later, cs => ∃ gap rest, cs = gap ++ (piece ++ rest) ∧ InTurn later rest

/-- They still do with more text in front. -/
theorem InTurn.append_left {pieces : List (List Char)} {cs : List Char} (h : InTurn pieces cs)
    (front : List Char) : InTurn pieces (front ++ cs) := by
  cases pieces with
  | nil => trivial
  | cons piece later =>
    obtain ⟨gap, rest, rfl, hlater⟩ := h
    exact ⟨front ++ gap, rest, (List.append_assoc front gap _).symm, hlater⟩

/-- Pieces of no character occur anywhere. -/
theorem inTurn_filter {pieces : List (List Char)} {cs : List Char} :
    InTurn (pieces.filter fun piece => piece ≠ []) cs ↔ InTurn pieces cs := by
  induction pieces generalizing cs with
  | nil => rfl
  | cons piece later ih =>
    by_cases hpiece : piece = []
    · subst hpiece
      rw [List.filter_cons_of_neg (by simp), ih]
      refine ⟨fun h => ⟨[], cs, rfl, h⟩, ?_⟩
      -- an empty piece leaves its gap to the next one
      rintro ⟨gap, rest, rfl, hlater⟩
      exact hlater.append_left gap
    · rw [List.filter_cons_of_pos (by simpa using hpiece)]
      simp only [InTurn, ih]

/-! ### Gaps -/

/-- The gaps and the pieces, put together in turn. -/
def woven (gaps pieces : List (List Char)) : List Char := (List.zipWith (· ++ ·) gaps pieces).flatten

@[simp] theorem woven_nil : woven [] [] = [] := rfl

@[simp] theorem woven_cons (gap piece : List Char) (gaps pieces : List (List Char)) :
    woven (gap :: gaps) (piece :: pieces) = gap ++ (piece ++ woven gaps pieces) :=
  List.append_assoc gap piece _

theorem woven_concat {gaps pieces : List (List Char)} (h : gaps.length = pieces.length)
    (gap piece : List Char) :
    woven (gaps ++ [gap]) (pieces ++ [piece]) = woven gaps pieces ++ (gap ++ piece) := by
  rw [woven, List.zipWith_append h, List.flatten_append]
  simp [woven]

/-- Pieces that occur in turn are put together with some gaps, and something follows. -/
theorem inTurn_iff_woven {pieces : List (List Char)} {cs : List Char} :
    InTurn pieces cs
      ↔ ∃ gaps rest, gaps.length = pieces.length ∧ cs = woven gaps pieces ++ rest := by
  induction pieces generalizing cs with
  | nil =>
    refine ⟨fun _ => ⟨[], cs, rfl, rfl⟩, fun _ => trivial⟩
  | cons piece later ih =>
    constructor
    · rintro ⟨gap, rest, rfl, hlater⟩
      obtain ⟨gaps, rest, hlength, rfl⟩ := ih.mp hlater
      exact ⟨gap :: gaps, rest, congrArg (· + 1) hlength, by simp⟩
    · rintro ⟨gaps, rest, hlength, rfl⟩
      obtain ⟨gap, gaps, rfl⟩ := List.exists_cons_of_length_eq_add_one hlength
      refine ⟨gap, woven gaps later ++ rest, by simp, ih.mpr ⟨gaps, rest, ?_, rfl⟩⟩
      exact Nat.succ.inj hlength

/-! ### Patterns -/

/-- A text is its pieces with the mark between each two, and no piece holds the mark. -/
theorem pieces_spec (mark : Char) (cs : List Char) :
    cs = (pieces mark cs).1 ++ (pieces mark cs).2.flatMap (mark :: ·)
      ∧ ∀ piece ∈ (pieces mark cs).1 :: (pieces mark cs).2, mark ∉ piece := by
  induction cs with
  | nil => simp [pieces]
  | cons c cs ih =>
    obtain ⟨hcs, hpieces⟩ := ih
    by_cases hc : c = mark
    · -- the mark ends a first piece that is empty
      subst hc
      simp only [pieces, if_true]
      refine ⟨?_, ?_⟩
      · rw [List.nil_append, List.flatMap_cons, List.cons_append, ← hcs]
      · exact List.forall_mem_cons.mpr ⟨List.not_mem_nil, hpieces⟩
    · -- any other character goes to the front of the first piece
      simp only [pieces, if_neg hc]
      rw [List.forall_mem_cons] at hpieces ⊢
      refine ⟨by rw [List.cons_append, ← hcs], fun hmark => ?_, hpieces.2⟩
      rcases List.mem_cons.mp hmark with hmark | hmark
      · exact hc hmark.symm
      · exact hpieces.1 hmark

/-- **The pattern is filled in**: `%` stands for any text, and each other character for itself. -/
inductive Wild : List Char → List Char → Prop
  | nil : Wild [] []
  | mark (gap : List Char) {pattern cs : List Char} (h : Wild pattern cs) :
      Wild ('%' :: pattern) (gap ++ cs)
  | char {c : Char} (hc : c ≠ '%') {pattern cs : List Char} (h : Wild pattern cs) :
      Wild (c :: pattern) (c :: cs)

namespace Wild

/-- A `%` stands for itself too. -/
theorem refl (cs : List Char) : Wild cs cs := by
  induction cs with
  | nil => exact .nil
  | cons c cs ih =>
    by_cases hc : c = '%'
    · subst hc
      exact .mark ['%'] ih
    · exact .char hc ih

/-- A `%` alone stands for any text. -/
theorem mark_nil (cs : List Char) : Wild ['%'] cs := by
  have h := Wild.mark cs .nil
  rwa [List.append_nil] at h

/-- Patterns are filled in one behind the other. -/
theorem append {pattern pattern' cs cs' : List Char} (h : Wild pattern cs) (h' : Wild pattern' cs') :
    Wild (pattern ++ pattern') (cs ++ cs') := by
  induction h with
  | nil => exact h'
  | mark gap _ ih =>
    rw [List.append_assoc]
    exact .mark gap ih
  | char hc _ ih => exact .char hc ih

/-- What a leading `%` stands for. -/
theorem of_mark {pattern cs : List Char} (h : Wild ('%' :: pattern) cs) :
    ∃ gap rest, cs = gap ++ rest ∧ Wild pattern rest := by
  cases h with
  | mark gap h => exact ⟨gap, _, rfl, h⟩
  | char hc _ => exact absurd rfl hc

/-- What stands in front of the first `%` stands for itself. -/
theorem of_notMem {front pattern cs : List Char} (hfront : '%' ∉ front)
    (h : Wild (front ++ pattern) cs) : ∃ rest, cs = front ++ rest ∧ Wild pattern rest := by
  induction front generalizing cs with
  | nil => exact ⟨cs, rfl, h⟩
  | cons c front ih =>
    rw [List.cons_append] at h
    cases h with
    | mark gap _ => exact absurd List.mem_cons_self hfront
    | char _ h =>
      -- a character that is no mark stands for itself
      obtain ⟨rest, rfl, hrest⟩ := ih (fun hmem => hfront (List.mem_cons_of_mem c hmem)) h
      exact ⟨rest, rfl, hrest⟩

end Wild

/-- **To fill in a pattern** is to weave its pieces with some gaps. -/
theorem wild_iff_woven {pattern cs : List Char} :
    Wild pattern cs ↔ ∃ gaps, gaps.length = (pieces '%' pattern).2.length
      ∧ cs = (pieces '%' pattern).1 ++ woven gaps (pieces '%' pattern).2 := by
  induction pattern generalizing cs with
  | nil =>
    constructor
    · rintro ⟨⟩
      exact ⟨[], rfl, rfl⟩
    · rintro ⟨gaps, hlength, rfl⟩
      obtain rfl := List.length_eq_zero_iff.mp hlength
      exact .nil
  | cons c pattern ih =>
    by_cases hc : c = '%'
    · -- the gap for the mark, and the gaps of what follows it
      subst hc
      simp only [pieces, if_true, List.nil_append]
      constructor
      · intro h
        cases h with
        | mark gap h =>
          obtain ⟨gaps, hlength, rfl⟩ := ih.mp h
          exact ⟨gap :: gaps, congrArg (· + 1) hlength, (woven_cons ..).symm⟩
        | char hc _ => exact absurd rfl hc
      · rintro ⟨gaps, hlength, rfl⟩
        obtain ⟨gap, gaps, rfl⟩ := List.exists_cons_of_length_eq_add_one hlength
        rw [woven_cons]
        exact .mark gap (ih.mpr ⟨gaps, Nat.succ.inj hlength, rfl⟩)
    · -- any other character stands for itself, at the front of the first piece
      simp only [pieces, if_neg hc, List.cons_append]
      constructor
      · intro h
        cases h with
        | mark gap _ => exact absurd rfl hc
        | char _ h =>
          obtain ⟨gaps, hlength, rfl⟩ := ih.mp h
          exact ⟨gaps, hlength, rfl⟩
      · rintro ⟨gaps, hlength, rfl⟩
        exact .char hc (ih.mpr ⟨gaps, hlength, rfl⟩)

end Junction.Text
