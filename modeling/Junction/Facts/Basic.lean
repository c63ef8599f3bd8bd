/-!
# Facts

The facts are the known values of fields. A field has one value at most: `Facts.insert` replaces
the one it has.
-/

namespace Junction

/-- **The known values of fields**, each field with one value. -/
structure Facts where
  entries : List (String × String)
  nodup : (entries.map Prod.fst).Nodup

namespace Facts

/-- Nothing is known. -/
def empty : Facts := ⟨[], List.nodup_nil⟩

/-- The value of a field, if it is known. -/
def get? (facts : Facts) (field : String) : Option String := facts.entries.lookup field

/-- How many fields are known. -/
def size (facts : Facts) : Nat := facts.entries.length

/-- No field is known. -/
def isEmpty (facts : Facts) : Bool := facts.entries.isEmpty

/-- The entries of all other fields. -/
def others (facts : Facts) (field : String) : List (String × String) :=
  facts.entries.filter fun entry => entry.1 ≠ field

/-- **One more fact.** A value that the field had before is forgotten. -/
def insert (facts : Facts) (field value : String) : Facts where
  entries := (field, value) :: facts.others field
  nodup := by
    have hs : (facts.others field).Sublist facts.entries := List.filter_sublist
    refine List.nodup_cons.mpr ⟨?_, facts.nodup.sublist (hs.map _)⟩
    simp [others]

/-- Further facts, inserted one after another. -/
def insertAll (facts : Facts) (entries : List (String × String)) : Facts :=
  entries.foldl (fun facts entry => facts.insert entry.1 entry.2) facts

/-- The facts listed; of two values for one field the later counts. -/
def ofList (entries : List (String × String)) : Facts := empty.insertAll entries

@[simp] theorem get?_empty (field : String) : empty.get? field = none := rfl

theorem lookup_filter_ne {entries : List (String × String)} {field other : String}
    (h : other ≠ field) :
    (entries.filter fun entry => entry.1 ≠ field).lookup other = entries.lookup other := by
  induction entries with
  | nil => rfl
  | cons entry entries ih =>
    obtain ⟨k, v⟩ := entry
    by_cases hk : k = field
    · -- an entry for the field is dropped, and `other` does not look at it
      subst hk
      have hb : (other == k) = false := by simpa using h
      simpa [List.lookup_cons, hb] using ih
    · -- any other entry stays, and is found on both sides or on neither
      by_cases ho : other = k
      · subst ho; simp [hk]
      · have hb : (other == k) = false := by simpa using ho
        simpa [hk, List.lookup_cons, hb] using ih

/-- An inserted fact is known, and the other fields keep their values. -/
theorem get?_insert (facts : Facts) (field value other : String) :
    (facts.insert field value).get? other = if other = field then some value
      else facts.get? other := by
  by_cases h : other = field
  · simp [get?, insert, h]
  · have hb : (other == field) = false := by simpa using h
    simp only [get?, insert, List.lookup_cons, hb, h, if_false]
    exact lookup_filter_ne h

end Facts

end Junction
