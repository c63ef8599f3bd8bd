import Junction.Proofs.Text.Whole
import Junction.Text.Lowercase
import Mathlib.Data.List.Basic

/-!
# Lower case of parts of a text

Each character is lower-cased by itself, but for the capital sigma: whether it is the final one of a
word depends on the text around it. So the lower case of a part of a text may differ from that of
the part alone, in its sigmas and nowhere else.

* `lowercaseBetween` is the lower case of a part, given what stands around it (`lowercase_append`);
* `KeepsSigmas` says that each sigma of the part is final in the whole text just if it is in the part
  alone, and **then, and only then, the lower case of the part is that of the part alone**
  (`keepsSigmas_iff`);
* a character that is neither cased nor passed over ends a word, as the blank and `%` do, and so
  a text keeps its sigmas beside it (`keepsSigmas_mark`).
-/

namespace Junction.Text

/-- A capital sigma is final between these texts, the one before it read backwards. -/
def isFinal (before after : List Char) : Bool := meetsCased before && !meetsCased after

/-- The lower case of a part of a text, where `before`, the nearest character first, and `after` stand
around it. -/
def lowercaseBetween (before after : List Char) : List Char → List Char
  | [] => []
  | c :: cs =>
    (if c = 'Σ' then [if isFinal before (cs ++ after) then 'ς' else 'σ'] else lowerChar c)
      ++ lowercaseBetween (c :: before) after cs

/-- **The lower case of a text** is that of its parts, each between the others. -/
theorem lowercaseFrom_append (before s t : List Char) :
    lowercaseFrom before (s ++ t)
      = lowercaseBetween before t s ++ lowercaseFrom (s.reverse ++ before) t := by
  induction s generalizing before with
  | nil => rfl
  | cons c s ih =>
    rw [List.cons_append, lowercaseFrom, ih, lowercaseBetween, List.append_assoc,
      List.reverse_cons, List.append_assoc, List.singleton_append]
    rfl

theorem lowercase_append (s part t : List Char) :
    lowercase (s ++ (part ++ t)) = lowercaseBetween [] (part ++ t) s
      ++ (lowercaseBetween s.reverse t part ++ lowercaseFrom (part.reverse ++ s.reverse) t) := by
  rw [lowercase, lowercaseFrom_append, lowercaseFrom_append, List.append_nil]

theorem lowercase_eq (cs : List Char) : lowercase cs = lowercaseBetween [] [] cs := by
  have happend := lowercaseFrom_append [] cs []
  rwa [List.append_nil, lowercaseFrom, List.append_nil] at happend

/-! ### The sigmas of a part -/

/-- The places of a character are the first one, if it stands there, and the later ones. -/
theorem forall_split_cons_iff {c d : Char} {cs : List Char} {P : List Char → List Char → Prop} :
    (∀ x y, c :: cs = x ++ d :: y → P x y)
      ↔ (c = d → P [] cs) ∧ ∀ x y, cs = x ++ d :: y → P (c :: x) y := by
  constructor
  · intro h
    exact ⟨fun hc => h [] cs (hc ▸ rfl), fun x y hxy => h (c :: x) y (hxy ▸ rfl)⟩
  · rintro ⟨hfirst, hlater⟩ x y hxy
    cases x with
    | nil =>
      obtain ⟨hc, rfl⟩ := List.cons.inj hxy
      exact hfirst hc
    | cons e x =>
      obtain ⟨rfl, hrest⟩ := List.cons.inj hxy
      exact hlater x y hrest

/-- A part has the same lower case between two pairs of texts just if each of its sigmas is final between
both or between none. -/
theorem lowercaseBetween_eq_iff {before before' after after' cs : List Char} :
    lowercaseBetween before after cs = lowercaseBetween before' after' cs
      ↔ ∀ x y, cs = x ++ 'Σ' :: y →
        isFinal (x.reverse ++ before) (y ++ after) = isFinal (x.reverse ++ before') (y ++ after') := by
  induction cs generalizing before before' with
  | nil => exact ⟨fun _ x y hxy => absurd hxy (by simp), fun _ => rfl⟩
  | cons c cs ih =>
    -- behind the first character, which then stands in front
    have hlater : lowercaseBetween (c :: before) after cs = lowercaseBetween (c :: before') after' cs
        ↔ ∀ x y, cs = x ++ 'Σ' :: y → isFinal ((c :: x).reverse ++ before) (y ++ after)
          = isFinal ((c :: x).reverse ++ before') (y ++ after') := by
      simpa using ih
    rw [forall_split_cons_iff, ← hlater, lowercaseBetween, lowercaseBetween]
    by_cases hc : c = 'Σ'
    · rw [if_pos hc, if_pos hc, List.singleton_append, List.singleton_append, List.cons.injEq]
      refine and_congr_left fun _ => ?_
      rw [forall_prop_of_true hc, List.reverse_nil, List.nil_append, List.nil_append]
      cases isFinal before (cs ++ after) <;> cases isFinal before' (cs ++ after') <;> decide
    · rw [if_neg hc, if_neg hc, List.append_cancel_left_eq]
      exact (and_iff_right fun h => absurd h hc).symm

/-- What stands around a part does not change the length of its lower case. -/
theorem length_lowercaseBetween (before after cs : List Char) :
    (lowercaseBetween before after cs).length = (lowercase cs).length := by
  rw [lowercase_eq]
  -- a sigma has one lower case of either form, so the context makes no difference
  suffices h : ∀ before', (lowercaseBetween before after cs).length
      = (lowercaseBetween before' [] cs).length from h []
  induction cs generalizing before with
  | nil => exact fun _ => rfl
  | cons c cs ih =>
    intro before'
    rw [lowercaseBetween, lowercaseBetween, List.length_append, List.length_append,
      ih (c :: before) (c :: before')]
    split <;> rfl

/-- **A part keeps its sigmas** between `s` and `t`: each is final there just if it is in the part alone. -/
def KeepsSigmas (s part t : List Char) : Prop :=
  ∀ x y, part = x ++ 'Σ' :: y → isFinal (x.reverse ++ s.reverse) (y ++ t) = isFinal x.reverse y

/-- **The lower case of a part** is that of the part alone just if it keeps its sigmas. -/
theorem keepsSigmas_iff {s part t : List Char} :
    KeepsSigmas s part t ↔ lowercaseBetween s.reverse t part = lowercase part := by
  rw [lowercase_eq, lowercaseBetween_eq_iff]
  simp only [KeepsSigmas, List.append_nil]

instance (s part t : List Char) : Decidable (KeepsSigmas s part t) :=
  decidable_of_iff _ keepsSigmas_iff.symm

/-- A text without a capital sigma has none to lose. -/
theorem keepsSigmas_of_notMem {s part t : List Char} (h : 'Σ' ∉ part) : KeepsSigmas s part t :=
  fun _ _ hpart => absurd (hpart ▸ List.mem_append_right _ List.mem_cons_self) h

/-! ### Characters that end a word -/

/-- What stands behind a character that is neither cased nor passed over is not seen in front of it. -/
theorem meetsCased_append {c : Char} (hpassed : inRanges caseIgnorableRanges c.toNat = false)
    (hcased : inRanges casedRanges c.toNat = false) (cs t : List Char) :
    meetsCased (cs ++ c :: t) = meetsCased cs := by
  induction cs with
  | nil => simp [meetsCased, hpassed, hcased]
  | cons d cs ih =>
    cases hd : inRanges caseIgnorableRanges d.toNat with
    | true => simpa [meetsCased, hd] using ih
    | false => simp [meetsCased, hd]

theorem meetsCased_append_mark (cs : List Char) : meetsCased (cs ++ ['%']) = meetsCased cs :=
  meetsCased_append (by decide) (by decide) cs []

/-- **A text keeps its sigmas beside a `%`**, in front of it, behind it or both. -/
theorem keepsSigmas_mark {s t : List Char} (hs : s = [] ∨ s = ['%']) (ht : t = [] ∨ t = ['%'])
    (part : List Char) : KeepsSigmas s part t := by
  intro x y _
  -- looking for a letter passes over the mark and finds nothing behind it
  have hbefore : meetsCased (x.reverse ++ s.reverse) = meetsCased x.reverse := by
    rcases hs with rfl | rfl
    · rw [List.reverse_nil, List.append_nil]
    · exact meetsCased_append_mark x.reverse
  have hafter : meetsCased (y ++ t) = meetsCased y := by
    rcases ht with rfl | rfl
    · rw [List.append_nil]
    · exact meetsCased_append_mark y
  rw [isFinal, isFinal, hbefore, hafter]

/-- Such a `%` stays where it is in the lower case. -/
theorem lowercase_mark {s t : List Char} (hs : s = [] ∨ s = ['%']) (ht : t = [] ∨ t = ['%'])
    (part : List Char) : lowercase (s ++ (part ++ t)) = s ++ (lowercase part ++ t) := by
  rw [lowercase_append, keepsSigmas_iff.mp (keepsSigmas_mark hs ht part)]
  rcases hs with rfl | rfl <;> rcases ht with rfl | rfl <;> rfl

/-! ### No other character becomes a mark -/

/-- A code point is kept or goes to a run of lower cases. -/
theorem lowerCode_cases (runs : List CaseRun) (n : Nat) :
    lowerCode runs n = n ∨ ∃ run ∈ runs, run.target ≤ lowerCode runs n := by
  induction runs with
  | nil => exact .inl rfl
  | cons run later ih =>
    rw [lowerCode]
    -- the code point is below the run, inside it or behind it
    split
    · exact .inl rfl
    · split
      · split
        · exact .inr ⟨run, List.mem_cons_self, Nat.le_add_right _ _⟩
        · exact .inl rfl
      · rcases ih with h | ⟨run', hmem, h⟩
        · exact .inl h
        · exact .inr ⟨run', List.mem_cons_of_mem _ hmem, h⟩

/-- **Only `%` is `%` in lower case.** -/
theorem eq_mark_of_mem_lowerChar {c : Char} (h : '%' ∈ lowerChar c) : c = '%' := by
  unfold lowerChar at h
  split at h
  · -- among the characters of ASCII it is no letter
    have hlower : c.toLower = Char.toLower '%' := (List.mem_singleton.mp h).symm
    exact (eq_or_isAlpha_of_toLower_eq hlower).resolve_right fun hboth => nomatch hboth.2
  rename_i hascii
  split at h
  · exact absurd h (by decide)
  · -- beyond ASCII all lower cases are letters
    have htargets : ∀ run ∈ caseRuns, '%'.toNat < run.target := by decide +kernel
    have hcode : '%'.toNat < lowerCode caseRuns c.toNat := by
      rcases lowerCode_cases caseRuns c.toNat with hkept | ⟨run, hrun, htarget⟩
      · rw [hkept]
        exact Nat.lt_of_lt_of_le (by decide) (Nat.le_of_not_lt hascii)
      · exact Nat.lt_of_lt_of_le (htargets run hrun) htarget
    have hmark : '%' = Char.ofNat (lowerCode caseRuns c.toNat) := List.mem_singleton.mp h
    by_cases hvalid : (lowerCode caseRuns c.toNat).isValidChar
    · have hnat : (Char.ofNat (lowerCode caseRuns c.toNat)).toNat = lowerCode caseRuns c.toNat := by
        rw [Char.ofNat, dif_pos hvalid]
        rfl
      rw [← hmark] at hnat
      exact absurd hnat (Nat.ne_of_lt hcode)
    · have hnul : Char.ofNat (lowerCode caseRuns c.toNat) = '\x00' := dif_neg hvalid
      rw [hnul] at hmark
      exact absurd hmark (by decide)

theorem mark_notMem_lowercase {cs : List Char} (h : '%' ∉ cs) : '%' ∉ lowercase cs := by
  -- whatever stands before, for the sigma looks at it
  suffices hfrom : ∀ before, '%' ∉ lowercaseFrom before cs from hfrom []
  induction cs with
  | nil => exact fun _ => List.not_mem_nil
  | cons c cs ih =>
    intro before hmem
    rw [lowercaseFrom] at hmem
    rcases List.mem_append.mp hmem with hmem | hmem
    · split at hmem
      · -- a sigma, final or not
        have hsigma := List.mem_singleton.mp hmem
        split at hsigma <;> exact absurd hsigma (by decide)
      · exact h (eq_mark_of_mem_lowerChar hmem ▸ List.mem_cons_self)
    · exact ih (fun hcs => h (List.mem_cons_of_mem c hcs)) (c :: before) hmem

end Junction.Text
