/-!
# Slices of a text

Places in a text are counted in the bytes of its UTF-8. A text can be cut before a character or at its
end, and nowhere else: the bytes inside a character and those beyond the end are no places.

* `Text.byteSize` is the length of a text, and so the place at its end;
* `Text.cutAt?` cuts a text at a place;
* `Text.slice?` takes what stands between two places, and is none where one of them is no place or
  the second comes before the first.
-/

namespace Junction.Text

/-- The length of a text in bytes. -/
def byteSize : List Char → Nat
  | [] => 0
  | c :: cs => c.utf8Size + byteSize cs

/-- What stands before a place, and what stands after it. -/
def cutAt? : Nat → List Char → Option (List Char × List Char)
  | 0, cs => some ([], cs)
  | _ + 1, [] => none
  | n + 1, c :: cs =>
    if n + 1 < c.utf8Size then none
    else (cutAt? (n + 1 - c.utf8Size) cs).map fun (front, rest) => (c :: front, rest)

/-- **What stands between two places.** -/
def slice? (first last : Nat) (cs : List Char) : Option (List Char) :=
  if last < first then none
  else (cutAt? last cs).bind fun cut => (cutAt? first cut.1).map Prod.snd

@[simp] theorem byteSize_nil : byteSize [] = 0 := rfl

@[simp] theorem byteSize_cons (c : Char) (cs : List Char) :
    byteSize (c :: cs) = c.utf8Size + byteSize cs := rfl

@[simp] theorem byteSize_append (s t : List Char) : byteSize (s ++ t) = byteSize s + byteSize t := by
  induction s with
  | nil => simp
  | cons c s ih => simp [ih, Nat.add_assoc]

/-- It is the length of the string in UTF-8. -/
theorem utf8ByteSize_ofList (cs : List Char) : (String.ofList cs).utf8ByteSize = byteSize cs := by
  induction cs with
  | nil => rfl
  | cons c cs ih =>
    rw [String.ofList_cons, String.utf8ByteSize_append, String.utf8ByteSize_singleton, ih, byteSize_cons]

/-- A text is cut where one part of it ends. -/
theorem cutAt?_append (s t : List Char) : cutAt? (byteSize s) (s ++ t) = some (s, t) := by
  induction s with
  | nil => cases t <;> rfl
  | cons c s ih =>
    obtain ⟨n, hn⟩ := Nat.exists_eq_add_of_lt c.utf8Size_pos
    -- the place is behind the first character, for this takes a byte at least
    have hplace : byteSize (c :: s) = n + byteSize s + 1 := by
      rw [byteSize_cons]
      omega
    have hrest : n + byteSize s + 1 - c.utf8Size = byteSize s := by omega
    rw [hplace, List.cons_append, cutAt?, if_neg (by omega), hrest, ih]
    rfl

/-- **A part of a text is a slice of it.** -/
theorem slice?_append (s t u : List Char) :
    slice? (byteSize s) (byteSize s + byteSize t) (s ++ (t ++ u)) = some t := by
  have hcut := cutAt?_append (s ++ t) u
  rw [byteSize_append, List.append_assoc] at hcut
  rw [slice?, if_neg (by omega), hcut, Option.bind_some, cutAt?_append, Option.map_some]

/-- So is the end of it. -/
theorem slice?_append_end (s t : List Char) :
    slice? (byteSize s) (byteSize (s ++ t)) (s ++ t) = some t := by
  have hslice := slice?_append s t []
  rwa [List.append_nil, ← byteSize_append] at hslice

end Junction.Text
