/-!
# ASCII case

Keywords and comparison words match whatever the case of their ASCII letters; every other
character stands for itself.

* `Text.sameCaseless` compares two texts in this way;
* `Text.word?` takes a word off the front of a text.
-/

namespace Junction.Text

/-- Two texts agree but for the case of ASCII letters. -/
def sameCaseless (s t : List Char) : Bool := s.map Char.toLower == t.map Char.toLower

/-- `word? w cs`: the characters at the front of `cs` that spell `w` in some case, and the
characters after them. -/
def word? (w cs : List Char) : Option (List Char × List Char) :=
  if sameCaseless (cs.take w.length) w then some (cs.splitAt w.length) else none

theorem sameCaseless_iff {s t : List Char} :
    sameCaseless s t = true ↔ s.map Char.toLower = t.map Char.toLower := by
  simp [sameCaseless]

theorem length_eq_of_sameCaseless {s t : List Char} (h : sameCaseless s t = true) :
    s.length = t.length := by
  simpa using congrArg List.length (sameCaseless_iff.mp h)

/-- What `word?` takes and what it leaves make up the text, and what it takes spells the word. -/
theorem word?_eq_some_iff {w cs taken rest : List Char} :
    word? w cs = some (taken, rest) ↔ cs = taken ++ rest ∧ sameCaseless taken w = true := by
  unfold word?
  constructor
  · intro h
    split at h
    · rename_i hs
      simp only [List.splitAt_eq, Option.some.injEq, Prod.mk.injEq] at h
      obtain ⟨rfl, rfl⟩ := h
      exact ⟨(List.take_append_drop _ _).symm, hs⟩
    · exact absurd h (by simp)
  · rintro ⟨rfl, hs⟩
    -- what agrees with the word but for case has as many characters
    have hl := length_eq_of_sameCaseless hs
    simp [List.splitAt_eq, ← hl, hs]

end Junction.Text
