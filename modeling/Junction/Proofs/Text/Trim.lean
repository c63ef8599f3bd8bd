import Junction.Text.Blank
import Mathlib.Data.List.TakeWhile

/-!
# White space at the ends of a text

Skipping leading white space does nothing where there is none (`skipBlank_cons`), and takes one blank
where there is one (`skipBlank_space`). Trimming cuts white space off the end (`exists_trimEnd_append`)
and nothing else: a text that ends with no white space is what is left when white space is added to
it and trimmed (`trimEnd_append`).
-/

namespace Junction.Text

/-! ### At the front -/

theorem skipBlank_cons {c : Char} (h : isBlank c = false) (cs : List Char) :
    skipBlank (c :: cs) = c :: cs :=
  List.dropWhile_cons_of_neg (by rw [h]; exact Bool.false_ne_true)

theorem takeWhile_isBlank_cons {c : Char} (h : isBlank c = false) (cs : List Char) :
    (c :: cs).takeWhile isBlank = [] :=
  List.takeWhile_cons_of_neg (by rw [h]; exact Bool.false_ne_true)

theorem skipBlank_space (cs : List Char) : skipBlank (' ' :: cs) = skipBlank cs :=
  List.dropWhile_cons_of_pos (by decide)

theorem isBlank_of_mem_space : ∀ c ∈ [' '], isBlank c = true := by
  intro c hc
  rw [List.mem_singleton.mp hc]
  rfl

/-- One blank in front of what is not white space is all there is to skip. -/
theorem takeWhile_isBlank_space {cs : List Char} (h : skipBlank cs = cs) :
    (' ' :: cs).takeWhile isBlank = [' '] := by
  have happ := takeWhile_append_skipBlank (' ' :: cs)
  rw [skipBlank_space, h] at happ
  exact List.append_cancel_right happ

/-- What is left after a run of a class begins with no character of it. -/
theorem eq_false_of_head?_dropWhile {p : Char → Bool} {cs : List Char} {d : Char}
    (h : (cs.dropWhile p).head? = some d) : p d = false := by
  have hnot := List.head?_dropWhile_not p cs
  rwa [h] at hnot

/-- What is left begins with no white space. -/
theorem isBlank_of_skipBlank_eq {cs s : List Char} {c : Char} (h : skipBlank cs = c :: s) :
    isBlank c = false := by
  have hhead : (cs.dropWhile isBlank).head? = some c := by
    rw [show cs.dropWhile isBlank = c :: s from h]
    rfl
  exact eq_false_of_head?_dropWhile hhead

theorem skipBlank_append_of_blank {b : List Char} (hb : ∀ c ∈ b, isBlank c = true) (cs : List Char) :
    skipBlank (b ++ cs) = skipBlank cs := List.dropWhile_append_of_pos hb

theorem skipBlank_eq_nil_iff {cs : List Char} : skipBlank cs = [] ↔ ∀ c ∈ cs, isBlank c = true :=
  List.dropWhile_eq_nil_iff

theorem isBlank_of_mem_takeWhile {cs : List Char} : ∀ c ∈ cs.takeWhile isBlank, isBlank c = true :=
  fun _ hc => List.mem_takeWhile_imp hc

/-- The white space that is skipped in front of a text. -/
theorem exists_append_of_skipBlank {cs s : List Char} (h : skipBlank cs = s) :
    ∃ b, (∀ c ∈ b, isBlank c = true) ∧ cs = b ++ s := by
  refine ⟨cs.takeWhile isBlank, isBlank_of_mem_takeWhile, ?_⟩
  rw [← h, takeWhile_append_skipBlank]

/-- What white space was skipped in front of begins with none, whatever follows it. -/
theorem skipBlank_append_of_skipBlank {cs s u : List Char} (h : skipBlank cs = s ++ u) (hs : s ≠ [])
    (v : List Char) : skipBlank (s ++ v) = s ++ v := by
  obtain ⟨c, s, rfl⟩ := List.exists_cons_of_ne_nil hs
  exact skipBlank_cons (isBlank_of_skipBlank_eq h) _

/-- White space in front of a text that begins with none is what there is of it. -/
theorem takeWhile_isBlank_append {b cs : List Char} (hb : ∀ c ∈ b, isBlank c = true)
    (h : skipBlank cs = cs) : (b ++ cs).takeWhile isBlank = b := by
  have hsplit := takeWhile_append_skipBlank (b ++ cs)
  rw [skipBlank_append_of_blank hb, h] at hsplit
  exact List.append_cancel_right hsplit

/-- What is skipped in front of the text `w` before `u` is skipped also where `v` comes in the place of
`u`. -/
theorem exists_append_of_skipBlank_append {t u w s : List Char} (hw : w ≠ [])
    (h : skipBlank (t ++ u) = w ++ (s ++ u)) : ∃ b, t = b ++ (w ++ s)
      ∧ ∀ v, skipBlank (t ++ v) = w ++ (s ++ v) ∧ (t ++ v).takeWhile isBlank = b := by
  have hne : w ++ s ≠ [] := fun hnil => hw (List.append_eq_nil_iff.mp hnil).1
  rw [← List.append_assoc] at h
  obtain ⟨b, hb, htu⟩ := exists_append_of_skipBlank h
  rw [← List.append_assoc] at htu
  obtain rfl : t = b ++ (w ++ s) := List.append_cancel_right htu
  refine ⟨b, rfl, fun v => ?_⟩
  have hskip := skipBlank_append_of_skipBlank h hne v
  rw [List.append_assoc b, ← List.append_assoc w]
  exact ⟨(skipBlank_append_of_blank hb _).trans hskip, takeWhile_isBlank_append hb hskip⟩

/-! ### At the end -/

/-- What is trimmed off is white space. -/
theorem exists_trimEnd_append (cs : List Char) :
    ∃ b, trimEnd cs ++ b = cs ∧ ∀ c ∈ b, isBlank c = true := by
  refine ⟨(cs.reverse.takeWhile isBlank).reverse, ?_, fun c hc => ?_⟩
  · rw [trimEnd, ← List.reverse_append, List.takeWhile_append_dropWhile, List.reverse_reverse]
  · exact List.mem_takeWhile_imp (List.mem_reverse.mp hc)

theorem isBlank_getLast?_trimEnd {cs : List Char} {c : Char} (h : (trimEnd cs).getLast? = some c) :
    isBlank c = false := by
  rw [trimEnd, List.getLast?_reverse] at h
  exact eq_false_of_head?_dropWhile h

theorem trimEnd_append {t b : List Char} {c : Char} (ht : t.getLast? = some c)
    (hc : isBlank c = false) (hb : ∀ c ∈ b, isBlank c = true) : trimEnd (t ++ b) = t := by
  have hrev : ∀ d ∈ b.reverse, isBlank d = true := fun d hd => hb d (List.mem_reverse.mp hd)
  rw [trimEnd, List.reverse_append, List.dropWhile_append_of_pos hrev]
  -- the last character of `t` is the first one of its reverse, and is not dropped
  rw [← List.head?_reverse] at ht
  obtain ⟨s, hs⟩ := List.head?_eq_some_iff.mp ht
  have hdrop : t.reverse.dropWhile isBlank = t.reverse := by
    rw [hs]
    exact skipBlank_cons hc s
  rw [hdrop, List.reverse_reverse]

theorem trimEnd_append_of_blank {b : List Char} (hb : ∀ c ∈ b, isBlank c = true) (t : List Char) :
    trimEnd (t ++ b) = trimEnd t := by
  have hrev : ∀ d ∈ b.reverse, isBlank d = true := fun d hd => hb d (List.mem_reverse.mp hd)
  rw [trimEnd, List.reverse_append, List.dropWhile_append_of_pos hrev]
  rfl

/-- **A text without white space** is not trimmed. -/
theorem trim_eq_self {cs : List Char} (h : ∀ c ∈ cs, isBlank c = false) : trim cs = cs := by
  have hdrop : ∀ s : List Char, (∀ c ∈ s, isBlank c = false) → skipBlank s = s := by
    intro s hs
    cases s with
    | nil => rfl
    | cons c s => exact skipBlank_cons (hs c List.mem_cons_self) s
  rw [trim, hdrop cs h, trimEnd, show cs.reverse.dropWhile isBlank = cs.reverse from
    hdrop _ fun c hc => h c (List.mem_reverse.mp hc), List.reverse_reverse]

/-- Where a text begins with no white space, trimming its end leaves its first character. -/
theorem exists_trimEnd_eq {c : Char} (hc : isBlank c = false) {s t rest : List Char}
    (hne : t ≠ []) (h : t ++ rest = c :: s) : ∃ a, trimEnd t = c :: a := by
  obtain ⟨b, hb, hblank⟩ := exists_trimEnd_append t
  cases ht : trimEnd t with
  | nil =>
    -- then all of `t` were white space, its first character too
    rw [ht, List.nil_append] at hb
    subst hb
    obtain ⟨d, b, rfl⟩ := List.exists_cons_of_ne_nil hne
    obtain rfl : d = c := (List.cons.inj h).1
    rw [hblank d List.mem_cons_self] at hc
    cases hc
  | cons d a =>
    rw [ht] at hb
    rw [← hb, List.append_assoc] at h
    exact ⟨a, by rw [(List.cons.inj h).1]⟩

end Junction.Text
