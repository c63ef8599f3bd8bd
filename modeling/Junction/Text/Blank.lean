import Junction.Text.Ranges

/-!
# White space

White space is the White_Space property of Unicode, so it takes in the no-break space, the
ideographic space and the two separators of lines and paragraphs as well as the ASCII blanks.

* `Text.isBlank` is the class;
* `Text.skipBlank` drops a leading run of it, `Text.trimEnd` a trailing one, `Text.trim` both.
-/

namespace Junction.Text

/-- The characters with the White_Space property. -/
def blankRanges : List (Nat × Nat) := [
  (0x0009, 0x000D), (0x0020, 0x0020), (0x0085, 0x0085), (0x00A0, 0x00A0), (0x1680, 0x1680),
  (0x2000, 0x200A), (0x2028, 0x2029), (0x202F, 0x202F), (0x205F, 0x205F), (0x3000, 0x3000)]

/-- **White space.** -/
def isBlank (c : Char) : Bool := inRanges blankRanges c.toNat

/-- The text from its first character that is not white space on. -/
def skipBlank (cs : List Char) : List Char := cs.dropWhile isBlank

/-- The text up to its last character that is not white space. -/
def trimEnd (cs : List Char) : List Char := (cs.reverse.dropWhile isBlank).reverse

/-- The text without white space at either end. -/
def trim (cs : List Char) : List Char := trimEnd (skipBlank cs)

@[simp] theorem skipBlank_nil : skipBlank [] = [] := rfl

@[simp] theorem trimEnd_nil : trimEnd [] = [] := rfl

/-- Leading white space and what follows it make up the text. -/
theorem takeWhile_append_skipBlank (cs : List Char) :
    cs.takeWhile isBlank ++ skipBlank cs = cs := List.takeWhile_append_dropWhile

/-- Skipping white space never lengthens a text. -/
theorem length_skipBlank_le (cs : List Char) : (skipBlank cs).length ≤ cs.length := by
  have h := congrArg List.length (takeWhile_append_skipBlank cs)
  rw [List.length_append] at h
  omega

end Junction.Text
