import Junction.Keywords
import Junction.Text.Slice
import Mathlib.Data.List.Basic

/-!
# Whole words

A word is found in any ASCII case, so what is found agrees with the word in every property that all
letters of ASCII share (`map_eq_of_sameCaseless`): which characters are word characters, and which
are **reserved**, blanks, parentheses and quotes, of which no keyword holds one.

So a word cannot reach over a **seam**, the end of the text or a reserved character: what is found in
front of one is found in the text before it (`word?_append`). A keyword that is not found in a text is
then not found where something else follows the text, as long as its ends are no closer to word
characters than they were (`Lexicon.operator?_append_eq_none`).
-/

namespace Junction

open Text Keywords

namespace Text

/-! ### Letters of ASCII -/

theorem isUpper_iff {c : Char} : c.isUpper = true ↔ 65 ≤ c.toNat ∧ c.toNat ≤ 90 := by
  refine decide_eq_true_iff.trans ?_
  exact and_congr UInt32.le_iff_toNat_le UInt32.le_iff_toNat_le

theorem isLower_iff {c : Char} : c.isLower = true ↔ 97 ≤ c.toNat ∧ c.toNat ≤ 122 := by
  refine Bool.and_eq_true_iff.trans ?_
  rw [decide_eq_true_iff, decide_eq_true_iff]
  exact and_congr UInt32.le_iff_toNat_le UInt32.le_iff_toNat_le

theorem isAlpha_iff {c : Char} :
    c.isAlpha = true ↔ (65 ≤ c.toNat ∧ c.toNat ≤ 90) ∨ (97 ≤ c.toNat ∧ c.toNat ≤ 122) :=
  Bool.or_eq_true_iff.trans (or_congr isUpper_iff isLower_iff)

theorem toLower_of_not_isUpper {c : Char} (h : c.isUpper = false) : c.toLower = c :=
  dif_neg (of_decide_eq_false h)

theorem isLower_toLower_of_isUpper {c : Char} (h : c.isUpper = true) :
    c.toLower.isLower = true := by
  have hle := isUpper_iff.mp h
  have hval : c.toLower.val = c.val + 32 := congrArg Char.val (dif_pos (of_decide_eq_true h))
  have hnat : c.toLower.toNat = c.toNat + 32 := by
    change c.toLower.val.toNat = c.val.toNat + 32
    change 65 ≤ c.val.toNat ∧ c.val.toNat ≤ 90 at hle
    rw [hval, UInt32.toNat_add]
    change (c.val.toNat + 32) % 2 ^ 32 = c.val.toNat + 32
    omega
  rw [isLower_iff, hnat]
  omega

/-- Characters that agree but for case are the same or both letters. -/
theorem eq_or_isAlpha_of_toLower_eq {c d : Char} (h : c.toLower = d.toLower) :
    c = d ∨ c.isAlpha = true ∧ d.isAlpha = true := by
  have hup : ∀ x : Char, x.isUpper = true → x.isAlpha = true :=
    fun x hx => Bool.or_eq_true_iff.mpr (.inl hx)
  have hlow : ∀ x : Char, x.isLower = true → x.isAlpha = true :=
    fun x hx => Bool.or_eq_true_iff.mpr (.inr hx)
  -- if they differ, one of them at least is a capital
  cases hc : c.isUpper with
  | false =>
    rw [toLower_of_not_isUpper hc] at h
    cases hd : d.isUpper with
    | false => exact .inl (h.trans (toLower_of_not_isUpper hd))
    | true => exact .inr ⟨hlow c (h ▸ isLower_toLower_of_isUpper hd), hup d hd⟩
  | true =>
    cases hd : d.isUpper with
    | false =>
      rw [toLower_of_not_isUpper hd] at h
      exact .inr ⟨hup c hc, hlow d (h ▸ isLower_toLower_of_isUpper hc)⟩
    | true => exact .inr ⟨hup c hc, hup d hd⟩

theorem isWord_of_isAlpha {c : Char} (h : c.isAlpha = true) : isWord c = true := by
  have hlt : c.toNat < 0x80 := by
    have hr := isAlpha_iff.mp h
    omega
  rw [isWord, isAlphanumeric, if_pos hlt]
  refine Bool.or_eq_true_iff.mpr (.inl ?_)
  exact Bool.or_eq_true_iff.mpr (.inl h)

theorem isReserved_eq_false_iff {c : Char} :
    isReserved c = false ↔ isBlank c = false ∧ isParen c = false ∧ isQuote c = false := by
  rw [isReserved, Bool.or_eq_false_iff, Bool.or_eq_false_iff, and_assoc]

theorem isReserved_eq_false_of_isWord {c : Char} (h : isWord c = true) : isReserved c = false := by
  have hb : isBlank c = false := by
    cases hb : isBlank c with
    | false => rfl
    | true => exact absurd h (by rw [isWord_eq_false_of_isBlank hb]; exact Bool.false_ne_true)
  -- parentheses and quotes are no word characters
  have hne : ∀ d : Char, isWord d = false → (c == d) = false := by
    intro d hd
    refine beq_eq_false_iff_ne.mpr fun hcd => ?_
    rw [hcd, hd] at h
    cases h
  rw [isReserved, isParen, isQuote, hb, hne '(' (by decide), hne ')' (by decide),
    hne '\'' (by decide), hne '"' (by decide)]
  rfl

theorem isWord_eq_false_of_isReserved {c : Char} (h : isReserved c = true) : isWord c = false := by
  refine Bool.eq_false_iff.mpr fun hw => ?_
  have hres := isReserved_eq_false_of_isWord hw
  rw [h] at hres
  cases hres

/-! ### What does not depend on case -/

/-- All letters of ASCII have the same value, of a property true or false. -/
def Caseless {β : Type} (p : Char → β) : Prop :=
  ∀ c d : Char, c.isAlpha = true → d.isAlpha = true → p c = p d

theorem caseless_isWord : Caseless isWord := fun _ _ hc hd =>
  (isWord_of_isAlpha hc).trans (isWord_of_isAlpha hd).symm

theorem caseless_isReserved : Caseless isReserved := fun _ _ hc hd =>
  (isReserved_eq_false_of_isWord (isWord_of_isAlpha hc)).trans
    (isReserved_eq_false_of_isWord (isWord_of_isAlpha hd)).symm

theorem caseless_utf8Size : Caseless Char.utf8Size := by
  have hone : ∀ c : Char, c.isAlpha = true → c.utf8Size = 1 := by
    intro c hc
    refine Char.utf8Size_eq_one_iff.mpr (UInt32.le_iff_toNat_le.mpr ?_)
    change c.toNat ≤ 127
    have hr := isAlpha_iff.mp hc
    omega
  exact fun c d hc hd => (hone c hc).trans (hone d hd).symm

/-- **Texts that agree but for case** agree in each such property, character by character. -/
theorem map_eq_of_sameCaseless {β : Type} {p : Char → β} (hp : Caseless p) {s t : List Char}
    (h : sameCaseless s t = true) : s.map p = t.map p := by
  have hm := sameCaseless_iff.mp h
  clear h
  induction s generalizing t with
  | nil =>
    cases t with
    | nil => rfl
    | cons d t => cases hm
  | cons c s ih =>
    cases t with
    | nil => cases hm
    | cons d t =>
      obtain ⟨hcd, hst⟩ := List.cons.inj hm
      rw [List.map_cons, List.map_cons, ih hst]
      rcases eq_or_isAlpha_of_toLower_eq hcd with rfl | ⟨hc, hd⟩
      · rfl
      · rw [hp c d hc hd]

/-- Texts that agree but for case are of the same size in bytes. -/
theorem utf8ByteSize_eq_of_sameCaseless {s t : List Char} (h : sameCaseless s t = true) :
    (String.ofList s).utf8ByteSize = (String.ofList t).utf8ByteSize := by
  have hsum : ∀ r : List Char, byteSize r = (r.map Char.utf8Size).sum := by
    intro r
    induction r with
    | nil => rfl
    | cons c r ih => rw [byteSize_cons, ih, List.map_cons, List.sum_cons]
  rw [utf8ByteSize_ofList, utf8ByteSize_ofList, hsum, hsum, map_eq_of_sameCaseless caseless_utf8Size h]

theorem sameCaseless_comm (s t : List Char) : sameCaseless s t = sameCaseless t s :=
  Bool.eq_iff_iff.mpr ⟨fun h => sameCaseless_iff.mpr (sameCaseless_iff.mp h).symm,
    fun h => sameCaseless_iff.mpr (sameCaseless_iff.mp h).symm⟩

/-- What is spelled behind a word, and makes it no longer in bytes, is nothing: the two words are the same
but for case. -/
theorem sameCaseless_of_append {v w t r : List Char} (hv : sameCaseless t v = true)
    (hw : sameCaseless (t ++ r) w = true)
    (hsize : (String.ofList w).utf8ByteSize ≤ (String.ofList v).utf8ByteSize) :
    sameCaseless v w = true := by
  rw [← utf8ByteSize_eq_of_sameCaseless hw, ← utf8ByteSize_eq_of_sameCaseless hv,
    String.ofList_append, String.utf8ByteSize_append] at hsize
  have hzero : (String.ofList r).utf8ByteSize = 0 := by omega
  have hr : r = [] := String.ofList_eq_empty_iff.mp (String.utf8ByteSize_eq_zero_iff.mp hzero)
  rw [hr, List.append_nil] at hw
  exact sameCaseless_iff.mpr ((sameCaseless_iff.mp hv).symm.trans (sameCaseless_iff.mp hw))

/-- **Two words of one size that are found at the same place** are the same but for case. -/
theorem sameCaseless_of_word? {v w cs t r t' r' : List Char} (hv : word? v cs = some (t, r))
    (hw : word? w cs = some (t', r'))
    (hsize : (String.ofList v).utf8ByteSize = (String.ofList w).utf8ByteSize) :
    sameCaseless v w = true := by
  obtain ⟨rfl, htv⟩ := word?_eq_some_iff.mp hv
  obtain ⟨hcs, htw⟩ := word?_eq_some_iff.mp hw
  -- one of the two is the beginning of the other
  rcases List.append_eq_append_iff.mp hcs with ⟨a, rfl, -⟩ | ⟨a, rfl, -⟩
  · exact sameCaseless_of_append htv htw (Nat.le_of_eq hsize.symm)
  · rw [sameCaseless_comm]
    exact sameCaseless_of_append htw htv (Nat.le_of_eq hsize)

theorem head?_any_of_sameCaseless {p : Char → Bool} (hp : Caseless p) {s t : List Char}
    (h : sameCaseless s t = true) : s.head?.any p = t.head?.any p := by
  have hm := congrArg List.head? (map_eq_of_sameCaseless hp h)
  rw [List.head?_map, List.head?_map] at hm
  have hany := congrArg (Option.any id) hm
  rwa [Option.any_map, Option.any_map] at hany

theorem getLast?_any_of_sameCaseless {p : Char → Bool} (hp : Caseless p) {s t : List Char}
    (h : sameCaseless s t = true) : s.getLast?.any p = t.getLast?.any p := by
  have hm := congrArg List.getLast? (map_eq_of_sameCaseless hp h)
  rw [List.getLast?_map, List.getLast?_map] at hm
  have hany := congrArg (Option.any id) hm
  rwa [Option.any_map, Option.any_map] at hany

/-! ### Seams -/

/-- **A seam**: the end of the text, or a reserved character. -/
def Seam (u : List Char) : Prop := ∀ c ∈ u.head?, isReserved c = true

theorem Seam.nil : Seam [] := nofun

theorem Seam.cons {c : Char} (h : isReserved c = true) (u : List Char) : Seam (c :: u) := by
  intro d hd
  rwa [← Option.some.inj hd]

/-- **A cut**: where `s` ends and `u` begins no two word characters stand side by side. -/
def Cut (s u : List Char) : Prop := s.getLast?.any isWord = true → u.head?.any isWord = false

theorem Cut.nil (s : List Char) : Cut s [] := fun _ => rfl

/-- Only the end of the text before it makes a cut. -/
theorem Cut.of_append {b s u : List Char} (h : Cut (b ++ s) u) : Cut s u := by
  by_cases hs : s = []
  · subst hs
    exact nofun
  · rwa [Cut, List.getLast?_append_of_ne_nil b hs] at h

theorem Cut.append_left {b s u : List Char} (h : Cut s u) (hs : s ≠ []) : Cut (b ++ s) u := by
  rwa [Cut, List.getLast?_append_of_ne_nil b hs]

/-- No word character begins a seam. -/
theorem Seam.head?_any {u : List Char} (h : Seam u) : u.head?.any isWord = false := by
  cases u with
  | nil => rfl
  | cons c u => exact isWord_eq_false_of_isReserved (h c rfl)

/-- What is found as a word without reserved characters has none. -/
theorem not_isReserved_of_sameCaseless {w t : List Char} (hw : ∀ c ∈ w, isReserved c = false)
    (h : sameCaseless t w = true) : ∀ c ∈ t, isReserved c = false := by
  intro c hc
  have hm : isReserved c ∈ w.map isReserved := by
    rw [← map_eq_of_sameCaseless caseless_isReserved h]
    exact List.mem_map_of_mem hc
  obtain ⟨d, hd, hdc⟩ := List.mem_map.mp hm
  rw [← hdc, hw d hd]

/-- **A word does not reach over a seam.** -/
theorem word?_append {w s u : List Char} (hw : ∀ c ∈ w, isReserved c = false) (hu : Seam u) :
    word? w (s ++ u) = (word? w s).map fun (taken, rest) => (taken, rest ++ u) := by
  cases hs : word? w s with
  | some found =>
    obtain ⟨t, r⟩ := found
    obtain ⟨rfl, hc⟩ := word?_eq_some_iff.mp hs
    exact word?_eq_some_iff.mpr ⟨List.append_assoc t r u, hc⟩
  | none =>
    refine Option.eq_none_iff_forall_ne_some.mpr fun ⟨t, r⟩ ht => ?_
    obtain ⟨hsu, hc⟩ := word?_eq_some_iff.mp ht
    -- the word ends in `s`, or it holds the first character of the seam
    rcases List.append_eq_append_iff.mp hsu with ⟨a, rfl, hua⟩ | ⟨a, rfl, -⟩
    · cases a with
      | nil =>
        have hword : word? w s = some (s ++ [], []) :=
          word?_eq_some_iff.mpr ⟨by rw [List.append_nil, List.append_nil], hc⟩
        rw [hs] at hword
        cases hword
      | cons c a =>
        -- but no word holds a reserved character
        have hres : isReserved c = true := hu c (by rw [hua]; rfl)
        have hnot := not_isReserved_of_sameCaseless hw hc c
          (List.mem_append_right s List.mem_cons_self)
        rw [hres] at hnot
        cases hnot
    · have hword : word? w (t ++ a) = some (t, a) := word?_eq_some_iff.mpr ⟨rfl, hc⟩
      rw [hs] at hword
      cases hword

end Text

/-! ### Keywords -/

/-- A keyword of a pair holds no reserved character. -/
theorem Keywords.not_isReserved_of_mem_lexicon {k : Keywords} {word : List Char} {o : Operator}
    (h : (word, o) ∈ k.lexicon) : ∀ c ∈ word, isReserved c = false := by
  have hf := k.faultless
  simp only [fault?, Option.or_eq_none_iff] at hf
  -- a reserved character in a word is a fault, and neither keyword has one
  have hone : ∀ s : String, wordFault? s = none → ∀ c ∈ s.toList, isReserved c = false := by
    intro s hs c hc
    unfold wordFault? at hs
    split at hs
    · cases hs
    · split at hs
      · cases hs
      · rename_i hany
        exact Bool.eq_false_iff.mpr fun hres => hany (List.any_eq_true.mpr ⟨c, hc, hres⟩)
  unfold lexicon at h
  split at h <;> simp only [List.mem_cons, List.not_mem_nil, or_false, Prod.mk.injEq] at h <;>
    rcases h with ⟨rfl, -⟩ | ⟨rfl, -⟩
  · exact hone _ hf.2.1
  · exact hone _ hf.1
  · exact hone _ hf.1
  · exact hone _ hf.2.1

/-- The keywords of a pair without fault differ. -/
theorem Keywords.sameCaseless_eq_false (k : Keywords) :
    sameCaseless k.conjunction.toList k.disjunction.toList = false := by
  have hf := k.faultless
  simp only [fault?, Option.or_eq_none_iff] at hf
  refine Bool.eq_false_iff.mpr fun hsame => ?_
  rw [if_pos hsame] at hf
  cases hf.2.2

/-- The keywords as they are tried: the longer first, and the two differ. -/
theorem Keywords.exists_lexicon_eq (k : Keywords) : ∃ first second : Operator,
    (∀ o, o = first ∨ o = second)
      ∧ k.lexicon = [((k.keyword first).toList, first), ((k.keyword second).toList, second)]
      ∧ (k.keyword second).utf8ByteSize ≤ (k.keyword first).utf8ByteSize
      ∧ sameCaseless (k.keyword first).toList (k.keyword second).toList = false := by
  unfold Keywords.lexicon
  split
  · rename_i hlt
    exact ⟨.or, .and, fun o => by cases o <;> simp, rfl, Nat.le_of_lt hlt,
      (sameCaseless_comm _ _).trans k.sameCaseless_eq_false⟩
  · rename_i hle
    exact ⟨.and, .or, fun o => by cases o <;> simp, rfl, Nat.le_of_not_lt hle,
      k.sameCaseless_eq_false⟩

section Found

variable {w cs : List Char} {prev : Option Char}

/-- What it says that a keyword is found. -/
theorem keyword?_eq_some_iff {t r : List Char} :
    keyword? w prev cs = some (t, r) ↔ word? w cs = some (t, r)
      ∧ ¬ (w.head?.any isWord = true ∧ prev.any isWord = true)
      ∧ ¬ (w.getLast?.any isWord = true ∧ r.head?.any isWord = true) := by
  unfold keyword?
  -- first the word, then what stands before it, then what stands after it
  cases word? w cs with
  | none => simp
  | some found =>
    obtain ⟨t', r'⟩ := found
    simp only [Bool.and_eq_true]
    split
    · rename_i hleft
      exact ⟨nofun, fun h => absurd hleft h.2.1⟩
    · rename_i hleft
      split
      · rename_i hright
        refine ⟨nofun, fun h => ?_⟩
        obtain ⟨rfl, rfl⟩ := Prod.mk.inj (Option.some.inj h.1)
        exact absurd hright h.2.2
      · rename_i hright
        refine ⟨fun h => ?_, fun h => h.1⟩
        obtain ⟨rfl, rfl⟩ := Prod.mk.inj (Option.some.inj h)
        exact ⟨rfl, hleft, hright⟩

/-- **A keyword that is not found stays so** where `u'` follows the text `s` and not `u`, and `prev'`
stands before it and not `prev`, if the ends of the text still keep word characters off. -/
theorem keyword?_append_eq_none {s u u' : List Char} {prev' : Option Char}
    (hw : ∀ c ∈ w, isReserved c = false) (hne : w ≠ []) (hu : Seam u')
    (hfront : prev.any isWord = true → prev'.any isWord = true ∨ s.head?.any isWord = false)
    (hcut : Cut s u) (h : keyword? w prev (s ++ u) = none) : keyword? w prev' (s ++ u') = none := by
  refine Option.eq_none_iff_forall_ne_some.mpr fun ⟨t, r'⟩ hsome => ?_
  obtain ⟨hword, hleft, hright⟩ := keyword?_eq_some_iff.mp hsome
  rw [word?_append hw hu] at hword
  obtain ⟨⟨t', r⟩, hs, htr⟩ := Option.map_eq_some_iff.mp hword
  obtain ⟨rfl, rfl⟩ := Prod.mk.inj htr
  obtain ⟨rfl, hc⟩ := word?_eq_some_iff.mp hs
  -- the keyword is found in `s`, so that its ends are seen whatever follows
  have hpos : t' ≠ [] := by
    intro ht
    have hl := length_eq_of_sameCaseless hc
    rw [ht] at hl
    exact hne (List.length_eq_zero_iff.mp hl.symm)
  have hhead : (t' ++ r).head?.any isWord = w.head?.any isWord := by
    rw [List.head?_append_of_ne_nil _ hpos, head?_any_of_sameCaseless caseless_isWord hc]
  have hlast : t'.getLast?.any isWord = w.getLast?.any isWord :=
    getLast?_any_of_sameCaseless caseless_isWord hc
  refine Option.eq_none_iff_forall_ne_some.mp h (t', r ++ u) (keyword?_eq_some_iff.mpr ⟨?_, ?_, ?_⟩)
  · exact word?_eq_some_iff.mpr ⟨List.append_assoc t' r u, hc⟩
  · -- what stands before `s` keeps the keyword off, or its first character is no word character
    rintro ⟨hwl, hp⟩
    rcases hfront hp with hp' | hs'
    · exact hleft ⟨hwl, hp'⟩
    · rw [hhead, hwl] at hs'
      nomatch hs'
  · -- what follows the keyword is in `s`, the same for both, or `s` ends with the keyword
    rintro ⟨hwr, hr⟩
    cases r with
    | cons c r => exact hright ⟨hwr, hr⟩
    | nil =>
      rw [List.append_nil, Cut, hlast] at hcut
      rw [List.nil_append, hcut hwr] at hr
      cases hr

/-- **A keyword that is found stays so** where `u'` follows the text and not `u`. -/
theorem keyword?_append_eq_some {s t r u u' : List Char} (hu : Seam u')
    (h : keyword? w prev (s ++ u) = some (t, r ++ u)) :
    keyword? w prev (s ++ u') = some (t, r ++ u') := by
  obtain ⟨hword, hleft, hright⟩ := keyword?_eq_some_iff.mp h
  obtain ⟨hsu, hc⟩ := word?_eq_some_iff.mp hword
  rw [← List.append_assoc] at hsu
  obtain rfl : s = t ++ r := List.append_cancel_right hsu
  refine keyword?_eq_some_iff.mpr ⟨word?_eq_some_iff.mpr ⟨List.append_assoc t r u', hc⟩, hleft, ?_⟩
  rintro ⟨hlast, hnext⟩
  -- the keyword ends at the cut, or before it
  cases r with
  | nil =>
    rw [List.nil_append, hu.head?_any] at hnext
    cases hnext
  | cons c r => exact hright ⟨hlast, hnext⟩

/-- Of what stands before it a keyword sees only whether it is a word character. -/
theorem keyword?_congr {prev' : Option Char} (h : prev.any isWord = prev'.any isWord) :
    keyword? w prev cs = keyword? w prev' cs := by
  unfold keyword?
  rw [h]

end Found

namespace Lexicon

variable {k : Keywords} {prev prev' : Option Char} {cs : List Char}

theorem operator?_eq_none_iff {lexicon : Lexicon} : lexicon.operator? prev cs = none ↔
    ∀ entry ∈ lexicon, keyword? entry.1 prev cs = none := by
  simp only [operator?, List.findSome?_eq_none_iff, Option.map_eq_none_iff]

/-- **An operator that is not found stays so**, as for one keyword. -/
theorem operator?_append_eq_none {s u u' : List Char} (hu : Seam u')
    (hfront : prev.any isWord = true → prev'.any isWord = true ∨ s.head?.any isWord = false)
    (hcut : Cut s u) (h : k.lexicon.operator? prev (s ++ u) = none) :
    k.lexicon.operator? prev' (s ++ u') = none := by
  refine operator?_eq_none_iff.mpr fun ⟨w, o⟩ hm => ?_
  exact keyword?_append_eq_none (not_isReserved_of_mem_lexicon hm) (ne_nil_of_mem_lexicon hm) hu
    hfront hcut (operator?_eq_none_iff.mp h _ hm)

/-- What it says that an operator is found: its keyword is, and none is that is tried before. -/
theorem operator?_eq_some_iff {lexicon : Lexicon} {o : Operator} {t r : List Char} :
    lexicon.operator? prev cs = some ⟨o, t, r⟩ ↔ ∃ before w after,
      lexicon = before ++ (w, o) :: after ∧ keyword? w prev cs = some (t, r)
        ∧ ∀ entry ∈ before, keyword? entry.1 prev cs = none := by
  rw [operator?, List.findSome?_eq_some_iff]
  constructor
  · rintro ⟨before, ⟨w, op⟩, after, hsplit, hfound, hbefore⟩
    obtain ⟨⟨t', r'⟩, hk, hl⟩ := Option.map_eq_some_iff.mp hfound
    obtain ⟨rfl, rfl, rfl⟩ := Lexeme.mk.inj hl
    exact ⟨before, w, after, hsplit, hk, fun entry hm => Option.map_eq_none_iff.mp (hbefore _ hm)⟩
  · rintro ⟨before, w, after, hsplit, hk, hbefore⟩
    exact ⟨before, (w, o), after, hsplit, Option.map_eq_some_iff.mpr ⟨(t, r), hk, rfl⟩,
      fun entry hm => Option.map_eq_none_iff.mpr (hbefore _ hm)⟩

/-- **An operator that is found stays so**, with the same text before what follows it. -/
theorem operator?_append {s t r u u' : List Char} {o : Operator} (hu : Seam u') (hcut : Cut s u)
    (h : k.lexicon.operator? prev (s ++ u) = some ⟨o, t, r ++ u⟩) :
    k.lexicon.operator? prev (s ++ u') = some ⟨o, t, r ++ u'⟩ := by
  obtain ⟨before, w, after, hsplit, hk, hbefore⟩ := operator?_eq_some_iff.mp h
  refine operator?_eq_some_iff.mpr ⟨before, w, after, hsplit, keyword?_append_eq_some hu hk, ?_⟩
  -- what is tried before is not found there either
  intro ⟨w', o'⟩ hm
  have hmem : (w', o') ∈ k.lexicon := by
    rw [hsplit]
    exact List.mem_append_left _ hm
  exact keyword?_append_eq_none (not_isReserved_of_mem_lexicon hmem) (ne_nil_of_mem_lexicon hmem)
    hu .inl hcut (hbefore _ hm)

theorem operator?_congr {lexicon : Lexicon} (h : prev.any isWord = prev'.any isWord) :
    lexicon.operator? prev cs = lexicon.operator? prev' cs := by
  simp only [operator?, keyword?_congr h]

/-- **A keyword is read as its operator** in front of a seam, in any ASCII case and after any character
that is no word character: the other keyword is not found in its place. -/
theorem operator?_keyword {o : Operator} {w u : List Char}
    (hw : sameCaseless w (k.keyword o).toList = true) (hprev : prev.any isWord = false)
    (hu : Seam u) : k.lexicon.operator? prev (w ++ u) = some ⟨o, w, u⟩ := by
  obtain ⟨first, second, hall, hlexicon, hsize, hdiffer⟩ := k.exists_lexicon_eq
  have hk : keyword? (k.keyword o).toList prev (w ++ u) = some (w, u) := by
    refine keyword?_eq_some_iff.mpr ⟨word?_eq_some_iff.mpr ⟨rfl, hw⟩, ?_, ?_⟩
    · rw [hprev]
      exact fun h => nomatch h.2
    · rw [hu.head?_any]
      exact fun h => nomatch h.2
  rw [operator?_eq_some_iff, hlexicon]
  rcases hall o with rfl | rfl
  · -- it is the keyword that is tried first
    exact ⟨[], _, _, rfl, hk, List.forall_mem_nil _⟩
  · refine ⟨[((k.keyword first).toList, first)], _, _, rfl, hk, ?_⟩
    rw [List.forall_mem_singleton]
    refine Option.eq_none_iff_forall_ne_some.mpr fun ⟨t, r⟩ hfound => ?_
    -- the longer keyword would be a part of `w`, and so no longer than the other one
    have hmem : ((k.keyword first).toList, first) ∈ k.lexicon := by
      rw [hlexicon]
      exact List.mem_cons_self
    have hword := (keyword?_eq_some_iff.mp hfound).1
    rw [word?_append (not_isReserved_of_mem_lexicon hmem) hu] at hword
    obtain ⟨⟨t', r'⟩, ht', -⟩ := Option.map_eq_some_iff.mp hword
    obtain ⟨rfl, hc⟩ := word?_eq_some_iff.mp ht'
    have hsame := sameCaseless_of_append hc hw (by rwa [String.ofList_toList, String.ofList_toList])
    rw [hsame] at hdiffer
    cases hdiffer

/-- No operator is found at a seam. -/
theorem operator?_seam (hu : Seam cs) : k.lexicon.operator? prev cs = none := by
  refine operator?_eq_none_iff.mpr fun ⟨w, o⟩ hm => ?_
  refine Option.eq_none_iff_forall_ne_some.mpr fun ⟨t, r⟩ hsome => ?_
  have hword := (keyword?_eq_some_iff.mp hsome).1
  rw [← List.nil_append cs, word?_append (not_isReserved_of_mem_lexicon hm) hu] at hword
  obtain ⟨⟨t', r'⟩, ht', -⟩ := Option.map_eq_some_iff.mp hword
  obtain ⟨hnil, hc⟩ := word?_eq_some_iff.mp ht'
  -- nothing is found in front of a seam but the empty word
  have ht : t' = [] := (List.append_eq_nil_iff.mp hnil.symm).1
  have hl := length_eq_of_sameCaseless hc
  rw [ht] at hl
  exact ne_nil_of_mem_lexicon hm (List.length_eq_zero_iff.mp hl.symm)

/-- An operator is found where there is text that begins with no reserved character. -/
theorem exists_cons_of_operator? {o : Lexeme Operator} (h : k.lexicon.operator? prev cs = some o) :
    ∃ c v, cs = c :: v ∧ isReserved c = false := by
  cases cs with
  | nil =>
    rw [operator?_seam .nil] at h
    cases h
  | cons c v =>
    refine ⟨c, v, rfl, Bool.eq_false_iff.mpr fun hc => ?_⟩
    rw [operator?_seam (.cons hc v)] at h
    cases h

/-- **An operator that is found is a whole word**: it does not touch a word character with one of its
own at either end. -/
theorem whole_of_operator? {o : Lexeme Operator} (h : k.lexicon.operator? prev cs = some o) :
    (prev.any isWord = true → cs.head?.any isWord = false)
      ∧ (o.taken.getLast?.any isWord = true → o.rest.head?.any isWord = false) := by
  obtain ⟨⟨w, op⟩, hm, hs⟩ := List.exists_of_findSome?_eq_some h
  obtain ⟨⟨t, r⟩, hk, rfl⟩ := Option.map_eq_some_iff.mp hs
  obtain ⟨hword, hleft, hright⟩ := keyword?_eq_some_iff.mp hk
  obtain ⟨rfl, hc⟩ := word?_eq_some_iff.mp hword
  have hpos : t ≠ [] := (Keywords.readsFrom_of_operator? h).taken_ne_nil
  refine ⟨fun hp => ?_, fun ht => ?_⟩
  · rw [List.head?_append_of_ne_nil _ hpos, head?_any_of_sameCaseless caseless_isWord hc]
    exact Bool.eq_false_iff.mpr fun hw => hleft ⟨hw, hp⟩
  · rw [getLast?_any_of_sameCaseless caseless_isWord hc] at ht
    exact Bool.eq_false_iff.mpr fun hr => hright ⟨ht, hr⟩

/-- An operator that is found is written as its keyword, in some ASCII case. -/
theorem sameCaseless_of_operator? {o : Lexeme Operator} (h : k.lexicon.operator? prev cs = some o) :
    sameCaseless o.taken (k.keyword o.value).toList = true := by
  obtain ⟨before, word, after, hsplit, hk, -⟩ := operator?_eq_some_iff.mp h
  have hmem : (word, o.value) ∈ k.lexicon := by
    rw [hsplit]
    exact List.mem_append_right _ List.mem_cons_self
  -- each operator has one word in the lexicon, its keyword
  have hword : word = (k.keyword o.value).toList := by
    obtain ⟨first, second, -, hlexicon, -, -⟩ := k.exists_lexicon_eq
    rw [hlexicon] at hmem
    rcases List.mem_cons.mp hmem with he | he
    · obtain ⟨rfl, ho⟩ := Prod.mk.inj he
      rw [ho]
    · obtain ⟨rfl, ho⟩ := Prod.mk.inj (List.mem_singleton.mp he)
      rw [ho]
  rw [← hword]
  exact (keyword?_eq_some hk).2

end Lexicon

end Junction
