import Junction.Comparison
import Junction.Proofs.Text.Trim
import Junction.Proofs.Text.Whole

/-!
# Comparison operators in any spelling

`Text.Written` says how some words are written one after another: each in some ASCII case, with white
space between two of them. `spelled?` finds exactly what is so written (`spelled?_eq_some_iff`).

The operators are tried in a fixed order, and of two whose beginnings agree the longer one comes
first (`Comparison.begins_eq_false`, a check of the table). Two results rest on it:

* `comparison?_written`: **an operator is read from any of its spellings** in front of a quoted value;
* `comparison?_append`: **an operator that is read stays so** where another text follows in front of a
  seam. The hard case is that of an operator of two words with its blank at the seam; then the
  operator that is read would lie inside the first of the two words, and the table has none such.
-/

namespace Junction

open Text Keywords

namespace Text

/-- A text that can be a word: it is not empty and holds no reserved character. -/
def Solid (w : List Char) : Prop := w ≠ [] ∧ ∀ c ∈ w, isReserved c = false

/-- **Some words as they are written**, each in some ASCII case, white space between two of them. -/
inductive Written : List (List Char) → List Char → Prop
  | last {w t : List Char} (spells : sameCaseless t w = true) : Written [w] t
  | more {w w' t b later : List Char} {ws : List (List Char)} (spells : sameCaseless t w = true)
      (apart : b ≠ []) (blank : ∀ c ∈ b, isBlank c = true) (rest : Written (w' :: ws) later) :
      Written (w :: w' :: ws) (t ++ (b ++ later))

theorem isReserved_of_isBlank {c : Char} (h : isBlank c = true) : isReserved c = true := by
  rw [isReserved, h]
  rfl

theorem Solid.of_sameCaseless {w t : List Char} (hw : Solid w) (h : sameCaseless t w = true) :
    Solid t := by
  refine ⟨fun ht => hw.1 ?_, not_isReserved_of_sameCaseless hw.2 h⟩
  have hl := length_eq_of_sameCaseless h
  rw [ht] at hl
  exact List.length_eq_zero_iff.mp hl.symm

/-- A reserved character is not in a solid text. -/
theorem Solid.not_mem {w : List Char} (hw : Solid w) {c : Char} (hc : isReserved c = true) : c ∉ w := by
  intro hmem
  rw [hw.2 c hmem] at hc
  cases hc

/-- A solid text begins with no white space. -/
theorem Solid.skipBlank_append {w : List Char} (hw : Solid w) (u : List Char) :
    skipBlank (w ++ u) = w ++ u := by
  obtain ⟨c, w, rfl⟩ := List.exists_cons_of_ne_nil hw.1
  exact skipBlank_cons (isReserved_eq_false_iff.mp (hw.2 c List.mem_cons_self)).1 _

section Written

variable {ws : List (List Char)} {t : List Char}

theorem Written.exists_solid (hws : ∀ w ∈ ws, Solid w) (h : Written ws t) :
    ∃ s v, t = s ++ v ∧ Solid s := by
  cases h with
  | last spells =>
    exact ⟨_, [], (List.append_nil _).symm, (hws _ List.mem_cons_self).of_sameCaseless spells⟩
  | more spells _ _ _ => exact ⟨_, _, rfl, (hws _ List.mem_cons_self).of_sameCaseless spells⟩

theorem Written.skipBlank_append (hws : ∀ w ∈ ws, Solid w) (h : Written ws t) (u : List Char) :
    skipBlank (t ++ u) = t ++ u := by
  obtain ⟨s, v, rfl, hs⟩ := h.exists_solid hws
  rw [List.append_assoc]
  exact hs.skipBlank_append _

end Written

end Text

/-- **What is found as the words is what is written so**, and what follows it. -/
theorem spelled?_eq_some_iff {ws : List (List Char)} {cs t r : List Char} (hne : ws ≠ [])
    (hws : ∀ w ∈ ws, Solid w) :
    spelled? ws cs = some (t, r) ↔ cs = t ++ r ∧ Written ws t := by
  induction ws generalizing cs t with
  | nil => exact absurd rfl hne
  | cons w ws ih =>
    cases ws with
    | nil =>
      -- the last word, with no white space behind it
      rw [spelled?, word?_eq_some_iff]
      refine and_congr_right fun _ => ⟨.last, fun h => ?_⟩
      cases h with
      | last spells => exact spells
    | cons w' ws =>
      have hlater : ∀ v ∈ w' :: ws, Solid v := fun v hv => hws v (List.mem_cons_of_mem _ hv)
      have ih : ∀ {cs t}, spelled? (w' :: ws) cs = some (t, r) ↔ cs = t ++ r ∧ Written (w' :: ws) t :=
        ih (List.cons_ne_nil w' ws) hlater
      constructor
      · intro h
        refine ⟨(spelled?_append h).symm, ?_⟩
        rw [spelled?] at h
        split at h
        · cases h
        · rename_i first cs' hfirst
          split at h
          · cases h
          · rename_i hb
            -- a word, white space, and the later words
            obtain ⟨⟨more, r'⟩, hmore, he⟩ := Option.map_eq_some_iff.mp h
            obtain ⟨rfl, hr⟩ := Prod.mk.inj he
            rw [hr] at hmore
            rw [List.append_assoc]
            exact .more (word?_eq_some_iff.mp hfirst).2 hb isBlank_of_mem_takeWhile
              (ih.mp hmore).2
      · rintro ⟨rfl, h⟩
        cases h with
        | @more _ _ t b later _ spells apart blank rest =>
          -- the white space after the first word is all that there is before the next one
          have hskip : skipBlank (later ++ r) = later ++ r := rest.skipBlank_append hlater r
          have hfirst : word? w (t ++ (b ++ later) ++ r) = some (t, b ++ (later ++ r)) :=
            word?_eq_some_iff.mpr ⟨by simp only [List.append_assoc], spells⟩
          rw [spelled?, hfirst]
          simp only
          rw [takeWhile_isBlank_append blank hskip, if_neg apart, skipBlank_append_of_blank blank,
            hskip, ih.mpr ⟨rfl, rest⟩, Option.map_some, List.append_assoc]

/-- White space is told from a text after it that begins with none. -/
theorem Text.append_inj_of_isBlank {b b' s s' : List Char} (hb : ∀ c ∈ b, isBlank c = true)
    (hb' : ∀ c ∈ b', isBlank c = true) (hs : skipBlank s = s) (hs' : skipBlank s' = s')
    (h : b ++ s = b' ++ s') : s = s' := by
  have hskip := congrArg skipBlank h
  rwa [skipBlank_append_of_blank hb, skipBlank_append_of_blank hb', hs, hs'] at hskip

/-- Texts without reserved characters in front of a reserved one are told from what follows. -/
theorem Text.append_inj_of_isReserved {s s' r r' : List Char} {c c' : Char}
    (hs : ∀ d ∈ s, isReserved d = false) (hs' : ∀ d ∈ s', isReserved d = false)
    (hc : isReserved c = true) (hc' : isReserved c' = true) (h : s ++ c :: r = s' ++ c' :: r') :
    s = s' ∧ c :: r = c' :: r' := by
  -- on both sides the first reserved character is at one place
  induction s generalizing s' with
  | nil =>
    cases s' with
    | nil => exact ⟨rfl, h⟩
    | cons d s' =>
      have hd := hs' d List.mem_cons_self
      rw [← (List.cons.inj h).1, hc] at hd
      cases hd
  | cons d s ih =>
    cases s' with
    | nil =>
      have hd := hs d List.mem_cons_self
      rw [(List.cons.inj h).1, hc'] at hd
      cases hd
    | cons d' s' =>
      obtain ⟨rfl, htail⟩ := List.cons.inj h
      obtain ⟨rfl, hrest⟩ := ih (fun e he => hs e (List.mem_cons_of_mem _ he))
        (fun e he => hs' e (List.mem_cons_of_mem _ he)) htail
      exact ⟨rfl, hrest⟩

/-- **A word is told from what follows it**, and this from the white space between. -/
theorem Text.Solid.append_inj {w w' b b' s s' : List Char} (hw : Solid w) (hw' : Solid w')
    (hb : b ≠ []) (hb' : b' ≠ []) (hblank : ∀ c ∈ b, isBlank c = true)
    (hblank' : ∀ c ∈ b', isBlank c = true) (hs : skipBlank s = s) (hs' : skipBlank s' = s')
    (h : w ++ (b ++ s) = w' ++ (b' ++ s')) : w = w' ∧ s = s' := by
  obtain ⟨d, b, rfl⟩ := List.exists_cons_of_ne_nil hb
  obtain ⟨d', b', rfl⟩ := List.exists_cons_of_ne_nil hb'
  have hd : isReserved d = true := isReserved_of_isBlank (hblank d List.mem_cons_self)
  have hd' : isReserved d' = true := isReserved_of_isBlank (hblank' d' List.mem_cons_self)
  obtain ⟨hword, hrest⟩ := append_inj_of_isReserved hw.2 hw'.2 hd hd' h
  exact ⟨hword, append_inj_of_isBlank hblank hblank' hs hs' hrest⟩

/-- A text that begins with a word, and with another text in front of white space: the word ends before
the white space. -/
theorem Text.Solid.exists_append {w t b r s : List Char} (hw : Solid w) (hb : b ≠ [])
    (hblank : ∀ c ∈ b, isBlank c = true) (h : w ++ r = t ++ (b ++ s)) : ∃ v, t = w ++ v := by
  rcases List.append_eq_append_iff.mp h with ⟨v, rfl, -⟩ | ⟨v, hv, hrest⟩
  · exact ⟨v, rfl⟩
  · cases v with
    | nil => exact ⟨[], by rw [hv, List.append_nil, List.append_nil]⟩
    | cons c v =>
      obtain ⟨d, b, rfl⟩ := List.exists_cons_of_ne_nil hb
      obtain rfl : d = c := (List.cons.inj hrest).1
      -- if `t` ended first, the white space behind it would be in the word
      have hmem : d ∈ w := by
        rw [hv]
        exact List.mem_append_right _ List.mem_cons_self
      exact absurd hmem (hw.not_mem (isReserved_of_isBlank (hblank d List.mem_cons_self)))

namespace Comparison

/-! ### The table -/

/-- The words of the operator as lists of characters. -/
def spelling (c : Comparison) : List (List Char) := c.words.map String.toList

theorem spelling_ne_nil (c : Comparison) : c.spelling ≠ [] := by cases c <;> exact List.cons_ne_nil _ _

theorem solid_of_mem_spelling (c : Comparison) : ∀ w ∈ c.spelling, Solid w := by
  -- there are finitely many words
  have htable : ∀ w ∈ c.spelling, (!w.isEmpty && w.all fun d => !isReserved d) = true := by
    cases c <;> decide
  intro w hw
  obtain ⟨hne, hall⟩ := Bool.and_eq_true_iff.mp (htable w hw)
  refine ⟨fun hnil => ?_, fun d hd => ?_⟩
  · rw [hnil] at hne
    cases hne
  · exact (Bool.not_eq_true' _).mp (List.all_eq_true.mp hall d hd)

theorem spelling_eq (c : Comparison) :
    (∃ w, c.spelling = [w]) ∨ ∃ w w', c.spelling = [w, w'] := by
  cases c
  case notLike => exact .inr ⟨_, _, rfl⟩
  case isNot => exact .inr ⟨_, _, rfl⟩
  case excludes => exact .inr ⟨_, _, rfl⟩
  all_goals exact .inl ⟨_, rfl⟩

/-- The words of an operator end with a word character just if it is written in letters. -/
theorem isWord_getLast?_spelling (c : Comparison) :
    ∀ w ∈ c.spelling, w.getLast?.any isWord = c.isWordy := by
  cases c <;> decide

/-- The operators that are tried before `c`. -/
def before (c : Comparison) : List Comparison := all.takeWhile (· != c)

theorem exists_all_eq (c : Comparison) : ∃ after, all = c.before ++ c :: after := by
  cases c <;> exact ⟨_, rfl⟩

/-- Of two operators one is tried before the other. -/
theorem mem_before_of_not_mem (o : Comparison) {c : Comparison} (hne : c ≠ o) (h : c ∉ o.before) :
    o ∈ c.before := by
  revert hne h
  cases o <;> cases c <;> decide

/-- Some words are a beginning of others, but for case: the last of them may go on. -/
def begins : List (List Char) → List (List Char) → Bool
  | [w], w' :: _ => (w.map Char.toLower).isPrefixOf (w'.map Char.toLower)
  | w :: ws, w' :: ws' => sameCaseless w w' && begins ws ws'
  | _, _ => false

/-- **No operator is tried before one that it is a beginning of.** -/
theorem begins_eq_false (o : Comparison) : ∀ c ∈ o.before, begins c.spelling o.spelling = false := by
  cases o <;> decide

/-- A word that is written at the front of what words spell begins the first of them. -/
theorem begins_singleton {w t r : List Char} {ws : List (List Char)} (ht : Solid t)
    (spells : sameCaseless t w = true) (h : Written ws (t ++ r)) : begins [w] ws = true := by
  -- what begins with `t` begins with `w` too, but for case
  have hlower : ∀ {v w'}, sameCaseless (t ++ v) w' = true →
      (w.map Char.toLower).isPrefixOf (w'.map Char.toLower) = true := by
    intro v w' hv
    rw [← sameCaseless_iff.mp spells, ← sameCaseless_iff.mp hv, List.map_append]
    exact List.isPrefixOf_iff_prefix.mpr (List.prefix_append _ _)
  generalize htr : t ++ r = t' at h
  cases h with
  | last spells' =>
    rw [← htr] at spells'
    exact hlower spells'
  | more spells' apart blank _ =>
    -- the first word goes beyond `t`, which holds no white space
    obtain ⟨v, rfl⟩ := ht.exists_append apart blank htr
    exact hlower spells'

/-- What words spell begins what the words that they begin spell. -/
theorem begins_of_written {ws ws' : List (List Char)} {t r : List Char} (hws : ∀ w ∈ ws, Solid w)
    (hws' : ∀ w ∈ ws', Solid w) (h : Written ws t) (h' : Written ws' (t ++ r)) :
    begins ws ws' = true := by
  -- along the words that are written first, each against the one in its place
  induction h generalizing ws' with
  | @last w t spells =>
    exact begins_singleton ((hws w List.mem_cons_self).of_sameCaseless spells) spells h'
  | @more w w' t b later ws spells apart blank rest ih =>
    have hlater : ∀ v ∈ w' :: ws, Solid v := fun v hv => hws v (List.mem_cons_of_mem _ hv)
    generalize htr : t ++ (b ++ later) ++ r = t' at h'
    rw [List.append_assoc, List.append_assoc] at htr
    cases h' with
    | last spells' =>
      -- a word of its own has no white space in it
      obtain ⟨d, b, rfl⟩ := List.exists_cons_of_ne_nil apart
      have hmem : d ∈ t' := by
        rw [← htr]
        exact List.mem_append_right _ List.mem_cons_self
      have ht' : Solid t' := (hws' _ List.mem_cons_self).of_sameCaseless spells'
      exact absurd hmem (ht'.not_mem (isReserved_of_isBlank (blank d List.mem_cons_self)))
    | @more v v' x b' later' vs spells' apart' blank' rest' =>
      have hx : Solid x := (hws' v List.mem_cons_self).of_sameCaseless spells'
      have ht : Solid t := (hws w List.mem_cons_self).of_sameCaseless spells
      have hlater' : ∀ u ∈ v' :: vs, Solid u := fun u hu => hws' u (List.mem_cons_of_mem _ hu)
      have hskip' : skipBlank later' = later' := by
        have happ := rest'.skipBlank_append hlater' []
        rwa [List.append_nil] at happ
      -- the first words are the same, and the later ones of the first text begin those of the other
      obtain ⟨rfl, rfl⟩ := ht.append_inj hx apart apart' blank blank'
        (rest.skipBlank_append hlater r) hskip' htr
      have hsame : sameCaseless w v = true :=
        sameCaseless_iff.mpr ((sameCaseless_iff.mp spells).symm.trans (sameCaseless_iff.mp spells'))
      exact Bool.and_eq_true_iff.mpr ⟨hsame, ih hlater hlater' rest'⟩

/-- So none that is tried before one is written at the front of its text. -/
theorem not_written_of_before {o c : Comparison} {t r : List Char} (hc : c ∈ o.before)
    (h : Written o.spelling (t ++ r)) : ¬ Written c.spelling t := by
  intro h'
  have hbegins := begins_of_written c.solid_of_mem_spelling o.solid_of_mem_spelling h' h
  rw [begins_eq_false o c hc] at hbegins
  cases hbegins

/-- **No operator of one word is a proper beginning of the first of two words.** -/
theorem length_eq_of_begins : ∀ o ∈ all, ∀ c ∈ all, ∀ p w w' : List Char, o.spelling = [p] →
    c.spelling = [w, w'] → begins [p] [w] = true → p.length = w.length := by
  intro o ho c hc p w w' hp hw
  -- there are finitely many pairs of operators
  have htable : ∀ o ∈ all, ∀ c ∈ all, o.spelling.length = 1 → c.spelling.length = 2 →
      begins o.spelling (c.spelling.take 1) = true →
        o.spelling.map List.length = (c.spelling.take 1).map List.length := by
    decide
  have hrow := htable o ho c hc
  rw [hp, hw] at hrow
  exact fun h => (List.cons.inj (hrow rfl rfl h)).1

/-! ### Reading one -/

theorem read?_eq_some_iff {c : Comparison} {cs : List Char} {l : Lexeme Comparison} :
    c.read? cs = some l ↔ ∃ t r, l = ⟨c, t, r⟩ ∧ cs = t ++ r ∧ Written c.spelling t
      ∧ ¬ (c.isWordy = true ∧ r.head?.any isWord = true) := by
  have hspelled : ∀ {t r}, spelled? c.spelling cs = some (t, r) ↔ cs = t ++ r ∧ Written c.spelling t :=
    spelled?_eq_some_iff c.spelling_ne_nil c.solid_of_mem_spelling
  unfold read?
  -- what is written is found, but a word is not read if it goes on
  constructor
  · intro h
    split at h
    · cases h
    · rename_i t r hs
      split at h
      · cases h
      · rename_i hedge
        obtain ⟨hcs, hwritten⟩ := hspelled.mp hs
        exact ⟨t, r, (Option.some.inj h).symm, hcs, hwritten,
          fun hboth => hedge (Bool.and_eq_true_iff.mpr hboth)⟩
  · rintro ⟨t, r, rfl, hcs, hwritten, hedge⟩
    have hs : spelled? (c.words.map String.toList) cs = some (t, r) :=
      hspelled.mpr ⟨hcs, hwritten⟩
    rw [hs]
    exact if_neg fun hboth => hedge (Bool.and_eq_true_iff.mp hboth)

end Comparison

/-- What it says that an operator is read: it is one at the front of the text, and none is that is
tried before. -/
theorem comparison?_eq_some_iff {cs : List Char} {o : Comparison} {t r : List Char} :
    comparison? cs = some ⟨o, t, r⟩
      ↔ o.read? cs = some ⟨o, t, r⟩ ∧ ∀ c ∈ o.before, c.read? cs = none := by
  have hnodup : Comparison.all.Nodup := by decide
  rw [comparison?, List.findSome?_eq_some_iff]
  constructor
  · rintro ⟨first, c, later, hsplit, hread, hfirst⟩
    obtain ⟨t', r', hl, -⟩ := Comparison.read?_eq_some_iff.mp hread
    obtain ⟨rfl, rfl, rfl⟩ := Lexeme.mk.inj hl
    refine ⟨hread, fun c hc => hfirst c ?_⟩
    -- an operator stands in the table once
    have hnot : ∀ c ∈ first, (c != o) = true := by
      intro c hc
      rw [hsplit] at hnodup
      have hne := (List.nodup_append.mp hnodup).2.2 c hc o List.mem_cons_self
      exact bne_iff_ne.mpr hne
    rwa [Comparison.before, hsplit, List.takeWhile_append_of_pos hnot,
      List.takeWhile_cons_of_neg (by simp), List.append_nil] at hc
  · rintro ⟨hread, hbefore⟩
    obtain ⟨after, hsplit⟩ := o.exists_all_eq
    exact ⟨o.before, o, after, hsplit, hread, hbefore⟩

section Read

variable {o : Comparison} {t : List Char}

/-- Words are written without a reserved character, or over white space between two of them. -/
theorem Text.Written.crosses {c : Comparison} {s y : List Char} {d : Char} (hd : isReserved d = true)
    (h : Written c.spelling (s ++ d :: y)) : ∃ w w' t b b' t', c.spelling = [w, w'] ∧ s = t ++ b
      ∧ d :: y = b' ++ t' ∧ sameCaseless t w = true ∧ sameCaseless t' w' = true
      ∧ (∀ e ∈ b, isBlank e = true) ∧ ∀ e ∈ b', isBlank e = true := by
  have hsolid := c.solid_of_mem_spelling
  -- no word of the operator holds the character at the seam
  have hnot : ∀ {t w : List Char}, w ∈ c.spelling → sameCaseless t w = true → d ∉ t :=
    fun hw ht => ((hsolid _ hw).of_sameCaseless ht).not_mem hd
  have hmem : d ∈ s ++ d :: y := List.mem_append_right _ List.mem_cons_self
  rcases c.spelling_eq with ⟨w, hw⟩ | ⟨w, w', hw⟩
  · rw [hw] at h
    -- one word cannot reach over the seam
    cases h with
    | last spells => exact absurd hmem (hnot (by rw [hw]; exact List.mem_cons_self) spells)
  · have hfirst : w ∈ c.spelling := by rw [hw]; exact List.mem_cons_self
    have hlast : w' ∈ c.spelling := by rw [hw]; exact List.mem_cons_of_mem _ List.mem_cons_self
    rw [hw] at h
    generalize hsy : s ++ d :: y = sy at h
    cases h with
    | @more _ _ t b t' _ spells apart blank rest =>
      cases rest with
      | last spells' =>
        rw [← List.append_assoc] at hsy
        rcases List.append_eq_append_iff.mp hsy with ⟨as, hs, hy⟩ | ⟨bs, -, hy⟩
        · -- the seam comes before the second word
          rcases List.append_eq_append_iff.mp hs with ⟨bs, rfl, hb⟩ | ⟨bs, ht, has⟩
          · -- inside the white space
            refine ⟨w, w', t, bs, as, t', hw, rfl, hy, spells, spells', fun e he => ?_, fun e he => ?_⟩
            · exact blank e (by rw [hb]; exact List.mem_append_left _ he)
            · exact blank e (by rw [hb]; exact List.mem_append_right _ he)
          · -- or at the end of the first word, but not inside it
            cases bs with
            | nil =>
              refine ⟨w, w', t, [], b, t', hw, ?_, ?_, spells, spells', List.forall_mem_nil _, blank⟩
              · rw [ht, List.append_nil, List.append_nil]
              · rw [hy, has]
                rfl
            | cons e bs =>
              rw [has] at hy
              obtain rfl : d = e := (List.cons.inj hy).1
              exact absurd (by rw [ht]; exact List.mem_append_right _ List.mem_cons_self)
                (hnot hfirst spells)
        · -- it cannot come inside the second word
          exact absurd (by rw [hy]; exact List.mem_append_right _ List.mem_cons_self)
            (hnot hlast spells')

/-- The last character of a written operator is a word character just if it is written in letters. -/
theorem Text.Written.isWord_getLast? {c : Comparison} (h : Written c.spelling t) :
    t.getLast?.any isWord = c.isWordy := by
  have hlast := c.isWord_getLast?_spelling
  have hsolid := c.solid_of_mem_spelling
  generalize c.spelling = ws at h hlast hsolid
  induction h with
  | last spells =>
    rw [getLast?_any_of_sameCaseless caseless_isWord spells]
    exact hlast _ List.mem_cons_self
  | @more w w' t b later ws _ _ _ rest ih =>
    have htail : ∀ v ∈ w' :: ws, Solid v := fun v hv => hsolid v (List.mem_cons_of_mem _ hv)
    -- the later words are not empty, and so end the whole
    obtain ⟨x, y, rfl, hx⟩ := rest.exists_solid htail
    have hne : x ++ y ≠ [] := fun hnil => hx.1 (List.append_eq_nil_iff.mp hnil).1
    rw [← List.append_assoc, List.getLast?_append_of_ne_nil _ hne]
    exact ih (fun v hv => hlast v (List.mem_cons_of_mem _ hv)) htail

/-- An operator at the front of a text is there also where `u'` follows and not `u`, if this does not
carry on a word at its end. -/
theorem Comparison.read?_append {v u u' : List Char} (hcut : Cut (t ++ v) u')
    (h : o.read? (t ++ (v ++ u)) = some ⟨o, t, v ++ u⟩) :
    o.read? (t ++ (v ++ u')) = some ⟨o, t, v ++ u'⟩ := by
  obtain ⟨t₀, r₀, hl, -, hwritten, hedge⟩ := read?_eq_some_iff.mp h
  obtain ⟨-, rfl, rfl⟩ := Lexeme.mk.inj hl
  refine read?_eq_some_iff.mpr ⟨t, v ++ u', rfl, rfl, hwritten, fun hboth => ?_⟩
  cases v with
  | nil =>
    -- nothing stands between the operator and the cut
    have hlast := hwritten.isWord_getLast?
    rw [List.append_nil] at hcut
    rw [hboth.1] at hlast
    rw [List.nil_append, hcut hlast] at hboth
    cases hboth.2
  | cons d v => exact hedge hboth

/-! ### Any spelling, and any text that follows -/

/-- **An operator is read from any of its spellings** in front of a quoted text, white space between
them or not. -/
theorem comparison?_written {v x : List Char} (h : Written o.spelling t)
    (hv : skipBlank v = '\'' :: x) : comparison? (t ++ v) = some ⟨o, t, v⟩ := by
  -- what follows is white space or the quote, and reserved
  have hseam : Seam v := by
    cases v with
    | nil => exact .nil
    | cons d v =>
      cases hd : isBlank d with
      | true => exact .cons (isReserved_of_isBlank hd) v
      | false =>
        rw [skipBlank_cons hd] at hv
        rw [(List.cons.inj hv).1]
        exact .cons (by decide) v
  refine comparison?_eq_some_iff.mpr ⟨?_, fun c hc => ?_⟩
  · -- the operator itself is read, no word character following it
    refine Comparison.read?_eq_some_iff.mpr ⟨t, v, rfl, rfl, h, fun hedge => ?_⟩
    rw [hseam.head?_any] at hedge
    cases hedge.2
  · refine Option.eq_none_iff_forall_ne_some.mpr fun l hl => ?_
    obtain ⟨t', r', -, hsplit, hc', -⟩ := Comparison.read?_eq_some_iff.mp hl
    -- one that is tried before would be a beginning of `o`, or have its second word at the quote
    rcases List.append_eq_append_iff.mp hsplit with ⟨y, rfl, hy⟩ | ⟨r, rfl, -⟩
    · cases y with
      | nil =>
        rw [List.append_nil] at hc'
        rw [← List.append_nil t] at h
        exact Comparison.not_written_of_before hc h hc'
      | cons d y =>
        -- it reaches over the seam, and its second word begins with the quote
        have hd : isReserved d = true := hseam d (by rw [hy]; rfl)
        obtain ⟨w, w', -, -, b', t'', hw, -, hdy, -, spells', -, hb'⟩ := hc'.crosses hd
        have ht'' : Solid t'' := by
          refine (c.solid_of_mem_spelling w' ?_).of_sameCaseless spells'
          rw [hw]
          exact List.mem_cons_of_mem _ List.mem_cons_self
        rw [hy, hdy, List.append_assoc, skipBlank_append_of_blank hb', ht''.skipBlank_append] at hv
        obtain ⟨e, t'', rfl⟩ := List.exists_cons_of_ne_nil ht''.1
        obtain rfl : e = '\'' := (List.cons.inj hv).1
        exact ht''.not_mem (by decide) List.mem_cons_self
    · exact Comparison.not_written_of_before hc h hc'

/-- An operator of two words does not have its first one, and white space, where `o` is read and more
than white space comes after it. -/
theorem Text.Written.not_first {c : Comparison} {w w' t' v b : List Char} (h : Written o.spelling t)
    (hw : c.spelling = [w, w']) (spells : sameCaseless t' w = true) (hv : skipBlank v ≠ [])
    (hb : ∀ e ∈ b, isBlank e = true) : t ++ v ≠ t' ++ b := by
  intro hsplit
  have hsolid : Solid w := c.solid_of_mem_spelling w (by rw [hw]; exact List.mem_cons_self)
  have ht' : Solid t' := hsolid.of_sameCaseless spells
  have hblank : ∀ x y, b = x ++ y → skipBlank y = [] := by
    rintro x y rfl
    exact skipBlank_eq_nil_iff.mpr fun e he => hb e (List.mem_append_right _ he)
  rcases List.append_eq_append_iff.mp hsplit with ⟨as, rfl, has⟩ | ⟨bs, -, hbs⟩
  · -- then `o` is a proper part of the first word
    have hlen : as ≠ [] := fun hnil => hv (by rw [has, hnil]; exact hblank [] b rfl)
    rcases o.spelling_eq with ⟨p, hp⟩ | ⟨p, p', hp⟩
    · have hbegins : Comparison.begins [p] [w] = true := by
        refine Comparison.begins_of_written (t := t) (r := as) ?_ ?_ (hp ▸ h) (.last spells)
        · exact hp ▸ o.solid_of_mem_spelling
        · exact List.forall_mem_singleton.mpr hsolid
      have hl := Comparison.length_eq_of_begins o o.mem_all c c.mem_all p w w' hp hw hbegins
      rw [hp] at h
      cases h with
      | last spells' =>
        have hlt := length_eq_of_sameCaseless spells'
        have hlw := length_eq_of_sameCaseless spells
        rw [List.length_append] at hlw
        exact hlen (List.length_eq_zero_iff.mp (by omega))
    · rw [hp] at h
      cases h with
      | @more _ _ x b' later _ _ apart blank _ =>
        -- and a word has no white space in it
        obtain ⟨d, b', rfl⟩ := List.exists_cons_of_ne_nil apart
        exact ht'.not_mem (isReserved_of_isBlank (blank d List.mem_cons_self)) (by simp)
  · exact hv (hblank bs v hbs)

/-- An operator that is read is written in one of its spellings, and no word goes on after it. -/
theorem written_of_comparison? {cs r : List Char} (h : comparison? cs = some ⟨o, t, r⟩) :
    Written o.spelling t ∧ ¬(o.isWordy = true ∧ r.head?.any isWord = true) := by
  obtain ⟨hread, -⟩ := comparison?_eq_some_iff.mp h
  obtain ⟨t', r', hl, -, hwritten, hedge⟩ := Comparison.read?_eq_some_iff.mp hread
  obtain ⟨-, rfl, rfl⟩ := Lexeme.mk.inj hl
  exact ⟨hwritten, hedge⟩

/-- **The operator that is read is the longest** of those that are written there. -/
theorem length_le_of_comparison? {o' : Comparison} {r t' r' : List Char}
    (h : comparison? (t' ++ r') = some ⟨o, t, r⟩) (h' : Written o'.spelling t')
    (hedge : ¬ (o'.isWordy = true ∧ r'.head?.any isWord = true)) : t'.length ≤ t.length := by
  obtain ⟨hread, hbefore⟩ := comparison?_eq_some_iff.mp h
  have hread' : o'.read? (t' ++ r') = some ⟨o', t', r'⟩ :=
    Comparison.read?_eq_some_iff.mpr ⟨t', r', rfl, rfl, h', hedge⟩
  by_contra hlt
  by_cases hsame : o' = o
  · -- one operator is read in one way
    subst hsame
    obtain ⟨-, rfl, -⟩ := Lexeme.mk.inj (Option.some.inj (hread'.symm.trans hread))
    exact hlt (Nat.le_refl _)
  · -- another one was tried later, so that the one that is read is no beginning of it
    have hnot : o' ∉ o.before := fun hmem => by
      rw [hbefore o' hmem] at hread'
      cases hread'
    have hsplit : t ++ r = t' ++ r' := (readsFrom_of_comparison? h).taken_append_rest
    obtain ⟨v, rfl⟩ : ∃ v, t' = t ++ v := by
      rcases List.append_eq_append_iff.mp hsplit with ⟨v, hv, -⟩ | ⟨v, rfl, -⟩
      · exact ⟨v, hv⟩
      · exact absurd (List.length_append ▸ Nat.le_add_right _ _) hlt
    exact Comparison.not_written_of_before (o.mem_before_of_not_mem hsame hnot) h'
      (written_of_comparison? h).1

/-- **An operator does not end between two word characters.** -/
theorem cut_of_comparison? {cs : List Char} {l : Lexeme Comparison} (h : comparison? cs = some l) :
    Cut l.taken l.rest := by
  obtain ⟨hwritten, hedge⟩ := written_of_comparison? h
  intro hlast
  rw [hwritten.isWord_getLast?] at hlast
  exact Bool.eq_false_iff.mpr fun hnext => hedge ⟨hlast, hnext⟩

/-- **An operator that is read stays so** where `u'` follows the text and not `u`. If `u'` is not empty,
more than white space has to come after the operator before it. -/
theorem comparison?_append {s v u u' : List Char} (hu : Seam u') (hcut : Cut s u)
    (hv : u' = [] ∨ skipBlank v ≠ []) (h : comparison? (s ++ u) = some ⟨o, t, v ++ u⟩) :
    comparison? (s ++ u') = some ⟨o, t, v ++ u'⟩ := by
  obtain ⟨hread, hbefore⟩ := comparison?_eq_some_iff.mp h
  obtain ⟨t₀, r₀, hl, hsplit, hwritten, -⟩ := Comparison.read?_eq_some_iff.mp hread
  obtain ⟨-, rfl, rfl⟩ := Lexeme.mk.inj hl
  rw [← List.append_assoc] at hsplit
  obtain rfl : s = t ++ v := List.append_cancel_right hsplit
  rw [List.append_assoc] at hread ⊢
  have hread' := Comparison.read?_append (fun _ => hu.head?_any) hread
  refine comparison?_eq_some_iff.mpr ⟨hread', fun c hc => ?_⟩
  -- none that is tried before is found now: in front of `u'` it was there before, and over the seam
  -- it would have its second word behind white space only
  refine Option.eq_none_iff_forall_ne_some.mpr fun l hl => ?_
  obtain ⟨t', r', rfl, hsplit', hc', -⟩ := Comparison.read?_eq_some_iff.mp hl
  have hinside : ∀ r, t ++ v = t' ++ r → r' = r ++ u' → False := by
    rintro r hr rfl
    rw [hr] at hcut
    rw [hsplit'] at hl
    have hfound := Comparison.read?_append hcut hl
    rw [← List.append_assoc, ← hr, hbefore c hc] at hfound
    cases hfound
  rw [← List.append_assoc] at hsplit'
  rcases List.append_eq_append_iff.mp hsplit' with ⟨y, hy, hu'⟩ | ⟨r, hr, hr'⟩
  · cases y with
    | nil => exact hinside [] (by rw [hy, List.append_nil, List.append_nil]) hu'.symm
    | cons d y =>
      have hd : isReserved d = true := hu d (by rw [hu']; rfl)
      rw [hy] at hc'
      obtain ⟨w, w', t'', b, b', -, hw, hs, -, spells, -, hb, -⟩ := hc'.crosses hd
      rcases hv with hv | hv
      · rw [hv] at hu'
        cases hu'
      · exact hwritten.not_first hw spells hv hb hs
  · exact hinside r hr hr'

end Read

end Junction
