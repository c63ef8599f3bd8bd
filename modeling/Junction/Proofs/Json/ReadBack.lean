import Mathlib.Data.List.TakeWhile
import Junction.Proofs.Json.Scalars

/-!
# JSON is read back

A JSON value that is written over several lines reads back as it was (`Json.read?_pretty`), so that no two
values are written alike (`Json.pretty_inj`).

A value is read off the front of a text (`Json.ReadsBack`). What follows it may be anything but more of a
number, and a number is the only value that would notice (`Json.Stops`). The items of a list and the fields
of an object are read in one way, as entries with commas between them (`Json.read_separated`). The reader's
fuel bounds how deep values are and how many entries they have. It is enough if it is more than the
characters of the value, since each entry stands on a line of its own.
-/

namespace Junction.Json

/-- **Induction on a value**, whose hypothesis is about each item of a list and each value of an object. -/
theorem induct {motive : Json → Prop} (null : motive .null) (bool : ∀ b, motive (.bool b))
    (number : ∀ d, motive (.number d)) (text : ∀ s, motive (.text s))
    (list : ∀ items, (∀ j ∈ items, motive j) → motive (.list items))
    (object : ∀ fields, (∀ field ∈ fields, motive field.2) → motive (.object fields)) (j : Json) :
    motive j := by
  refine @Json.rec motive (fun items => ∀ j ∈ items, motive j)
    (fun fields => ∀ field ∈ fields, motive field.2) (fun field => motive field.2)
    null bool number text list object (List.forall_mem_nil _) ?_ (List.forall_mem_nil _) ?_ ?_ j
  · exact fun _ _ hj hitems => List.forall_mem_cons.mpr ⟨hj, hitems⟩
  · exact fun _ _ hfield hfields => List.forall_mem_cons.mpr ⟨hfield, hfields⟩
  · exact fun _ _ hvalue => hvalue

/-- **What follows a value**: nothing, or a character that no number has. -/
def Stops (rest : List Char) : Prop := ∀ c ∈ rest.head?, isNumeric c = false

/-- **A value is read back** off the front of a text, however it is indented. -/
def ReadsBack (j : Json) : Prop :=
  ∀ (level fuel : Nat) (rest : List Char), (prettyChars level j).length < fuel → Stops rest →
    readValue fuel (prettyChars level j ++ rest) = some (j, rest)

section Parts

variable {j : Json} {level level' fuel : Nat} {cs tail rest : List Char}

/-! ### White space -/

theorem stops_newLine (level : Nat) (rest : List Char) : Stops (newLine level ++ rest) := by
  intro c hc
  cases hc
  rfl

theorem stops_comma (rest : List Char) : Stops (',' :: rest) := by
  intro c hc
  cases hc
  rfl

theorem isSpace_of_mem_newLine : ∀ c ∈ newLine level, isSpace c = true := by
  intro c hc
  rcases List.mem_cons.mp hc with rfl | hc
  · decide
  · rw [List.eq_of_mem_replicate hc]
    decide

/-- White space in front is passed over. -/
theorem read_append_of_space {w : List Char} (hw : ∀ c ∈ w, isSpace c = true) (fuel : Nat)
    (cs : List Char) :
    readValue fuel (w ++ cs) = readValue fuel cs ∧ readItems fuel (w ++ cs) = readItems fuel cs
      ∧ readFields fuel (w ++ cs) = readFields fuel cs := by
  -- a value skips white space first, and each entry begins by a value or by skipping it
  have hvalue : ∀ fuel, readValue fuel (w ++ cs) = readValue fuel cs := by
    intro fuel
    cases fuel with
    | zero => rfl
    | succ fuel => rw [readValue, readValue, List.dropWhile_append_of_pos hw]
  refine ⟨hvalue fuel, ?_, ?_⟩
  · cases fuel with
    | zero => rfl
    | succ fuel => rw [readItems, readItems, hvalue]
  · cases fuel with
    | zero => rfl
    | succ fuel => rw [readFields, readFields, List.dropWhile_append_of_pos hw]

theorem read_dropWhile_isSpace (fuel : Nat) (cs : List Char) :
    readItems fuel (cs.dropWhile isSpace) = readItems fuel cs
      ∧ readFields fuel (cs.dropWhile isSpace) = readFields fuel cs := by
  have hspace : ∀ c ∈ cs.takeWhile isSpace, isSpace c = true := fun _ => List.mem_takeWhile_imp
  obtain ⟨-, hitems, hfields⟩ := read_append_of_space hspace fuel (cs.dropWhile isSpace)
  rw [List.takeWhile_append_dropWhile] at hitems hfields
  exact ⟨hitems.symm, hfields.symm⟩

/-! ### Numbers -/

/-- A number begins like no other value, and neither with a space nor with a closing bracket. -/
theorem isSpace_eq_false_of_isNumeric {c : Char} (h : isNumeric c = true) :
    isSpace c = false ∧ c ∉ ['n', 't', 'f', '"', '[', '{', ']', '}'] := by
  -- no character of either list is one of a number
  have hspaces : [' ', '\t', '\n', '\r'].all (!isNumeric ·) = true := rfl
  have hothers : ['n', 't', 'f', '"', '[', '{', ']', '}'].all (!isNumeric ·) = true := rfl
  constructor
  · rw [Bool.eq_false_iff]
    intro hspace
    have hmem : c ∈ [' ', '\t', '\n', '\r'] := by
      simpa only [isSpace, Bool.or_eq_true, beq_iff_eq, or_assoc, List.mem_cons, List.not_mem_nil,
        or_false] using hspace
    have hnot := List.all_eq_true.mp hspaces c hmem
    rw [h] at hnot
    cases hnot
  · intro hmem
    have hnot := List.all_eq_true.mp hothers c hmem
    rw [h] at hnot
    cases hnot

theorem readValue_numeral (d : Decimal) (fuel : Nat) (h : Stops rest) :
    readValue (fuel + 1) (numeral d ++ rest) = some (number d, rest) := by
  have hall := isNumeric_of_mem_numeral d
  -- the number ends where the digits that were printed end
  have htake : rest.takeWhile isNumeric = [] := by
    cases rest with
    | nil => rfl
    | cons c cs => exact List.takeWhile_cons_of_neg (Bool.eq_false_iff.mp (h c rfl))
  have hdrop : rest.dropWhile isNumeric = rest := by
    cases rest with
    | nil => rfl
    | cons c cs => exact List.dropWhile_cons_of_neg (Bool.eq_false_iff.mp (h c rfl))
  obtain ⟨c, cs, hcs, hc⟩ := exists_numeral_eq_cons d
  have hnumeral : (numeral d ++ rest).takeWhile isNumeric = numeral d
      ∧ (numeral d ++ rest).dropWhile isNumeric = rest := by
    rw [List.takeWhile_append_of_pos hall, List.dropWhile_append_of_pos hall, htake, hdrop,
      List.append_nil]
    exact ⟨rfl, rfl⟩
  obtain ⟨hspace, hother⟩ := isSpace_eq_false_of_isNumeric hc
  have hskip : (numeral d ++ rest).dropWhile isSpace = numeral d ++ rest := by
    rw [hcs, List.cons_append, List.dropWhile_cons_of_neg (Bool.eq_false_iff.mp hspace)]
  have hne : ∀ c' ∈ ['n', 't', 'f', '"', '[', '{', ']', '}'], ∀ cs', numeral d ++ rest ≠ c' :: cs' := by
    intro c' hc' cs' heq
    rw [hcs] at heq
    obtain ⟨rfl, -⟩ := List.cons.inj heq
    exact hother hc'
  rw [readValue, hskip]
  -- no other value begins with a character of a number
  split
  iterate 6 exact absurd ‹_› (hne _ (by decide) _)
  rw [hnumeral.1, hnumeral.2, Decimal.read?_numeral]
  rfl

/-! ### Entries with commas between them -/

section Entries

variable {β : Type} {read : Nat → List Char → Option (List β × List Char)} {close : Char}

/-- Entries with commas between them. -/
def separated (entry : β → List Char) : List β → List Char
  | [] => []
  | [b] => entry b
  | b :: b' :: later => entry b ++ ',' :: separated entry (b' :: later)

/-- **An entry is read back**, and then either the end or further entries. -/
def ReadsEntry (read : Nat → List Char → Option (List β × List Char)) (close : Char)
    (entry : List Char) (b : β) : Prop :=
  ∀ (fuel : Nat) (tail : List Char), entry.length < fuel + 1 → Stops tail →
    (∀ cs, tail.dropWhile isSpace = close :: cs → read (fuel + 1) (entry ++ tail) = some ([b], cs))
      ∧ ∀ cs, tail.dropWhile isSpace = ',' :: cs →
        read (fuel + 1) (entry ++ tail) = (read fuel cs).map fun (later, rest) => (b :: later, rest)

/-- **All entries are read back** if each of them is, up to what closes them. -/
theorem read_separated {entry : β → List Char} {bs : List β} (hne : bs ≠ [])
    (hread : ∀ b ∈ bs, ReadsEntry read close (entry b) b) (hstops : Stops tail)
    (hclose : tail.dropWhile isSpace = close :: rest) (hfuel : (separated entry bs).length < fuel) :
    read fuel (separated entry bs ++ tail) = some (bs, rest) := by
  induction bs generalizing fuel with
  | nil => exact absurd rfl hne
  | cons b later ih =>
    obtain ⟨hb, hlater⟩ := List.forall_mem_cons.mp hread
    obtain ⟨fuel, rfl⟩ : ∃ n, fuel = n + 1 := ⟨fuel - 1, by omega⟩
    cases later with
    | nil => exact (hb fuel tail hfuel hstops).1 rest hclose
    | cons b' later =>
      rw [separated, List.length_append, List.length_cons] at hfuel
      -- one step is spent on the entry, and the entry is shorter by the comma at least
      have hrest : read fuel (separated entry (b' :: later) ++ tail) = some (b' :: later, rest) :=
        ih (List.cons_ne_nil b' later) hlater (by omega)
      rw [separated, List.append_assoc, List.cons_append,
        (hb fuel _ (by omega) (stops_comma _)).2 _ rfl, hrest]
      rfl

end Entries

/-! ### Lists -/

/-- A value begins with a character that is no space and does not close a list. -/
theorem exists_prettyChars_eq_cons (level : Nat) (j : Json) :
    ∃ c cs, prettyChars level j = c :: cs ∧ isSpace c = false ∧ c ≠ ']' := by
  -- what a value begins with says of which kind it is
  cases j with
  | null => exact ⟨'n', _, rfl, rfl, by decide⟩
  | bool b =>
    cases b with
    | false => exact ⟨'f', _, rfl, rfl, by decide⟩
    | true => exact ⟨'t', _, rfl, rfl, by decide⟩
  | number d =>
    obtain ⟨c, cs, hcs, hc⟩ := exists_numeral_eq_cons d
    obtain ⟨hspace, hother⟩ := isSpace_eq_false_of_isNumeric hc
    exact ⟨c, cs, hcs, hspace, fun heq => hother (by rw [heq]; decide)⟩
  | text s => exact ⟨'"', _, rfl, rfl, by decide⟩
  | list items => cases items <;> exact ⟨'[', _, rfl, rfl, by decide⟩
  | object fields => cases fields <;> exact ⟨'{', _, rfl, rfl, by decide⟩

theorem head?_dropWhile_prettyItems (level : Nat) (j : Json) (later : List Json) (rest : List Char) :
    ((prettyItems level (j :: later) ++ rest).dropWhile isSpace).head? ≠ some ']' := by
  obtain ⟨c, cs, hcs, hspace, hc⟩ := exists_prettyChars_eq_cons level j
  -- the first item stands behind a new line, whatever comes after it
  obtain ⟨tail, htail⟩ : ∃ tail, prettyItems level (j :: later)
      = newLine level ++ prettyChars level j ++ tail := by
    cases later <;> exact ⟨_, rfl⟩
  rw [htail, hcs, List.append_assoc, List.append_assoc,
    List.dropWhile_append_of_pos isSpace_of_mem_newLine, List.cons_append,
    List.dropWhile_cons_of_neg (Bool.eq_false_iff.mp hspace)]
  exact fun h => hc (Option.some.inj h)

theorem readValue_list (h : (cs.dropWhile isSpace).head? ≠ some ']') (fuel : Nat) :
    readValue (fuel + 1) ('[' :: cs)
      = (readItems fuel cs).map fun (items, rest) => (list items, rest) := by
  have hopen : ('[' :: cs).dropWhile isSpace = '[' :: cs := rfl
  rw [readValue, hopen]
  simp only
  split
  · next hclose => exact absurd (congrArg List.head? hclose) h
  · rw [(read_dropWhile_isSpace fuel cs).1]

/-- One item, and then the end of the list or further items. -/
theorem readsEntry_item (hj : ReadsBack j) :
    ReadsEntry readItems ']' (newLine level ++ prettyChars level j) j := by
  intro fuel tail hfuel htail
  -- the new line in front is a character more, so a step less is enough for the value
  have hlength : (prettyChars level j).length < fuel := by
    rw [List.length_append, newLine, List.length_cons] at hfuel
    omega
  rw [List.append_assoc, (read_append_of_space isSpace_of_mem_newLine _ _).2.1, readItems,
    hj _ _ _ hlength htail]
  simp only [Option.bind_eq_bind, Option.bind_some]
  -- behind the value comes the bracket or a comma
  constructor
  · intro cs hclose
    simp only [hclose]
    rfl
  · intro cs hcomma
    simp only [hcomma]
    cases readItems fuel cs <;> rfl

theorem prettyItems_eq (level : Nat) (items : List Json) :
    prettyItems level items = separated (fun j => newLine level ++ prettyChars level j) items := by
  induction items with
  | nil => rfl
  | cons j later ih =>
    cases later with
    | nil => exact List.append_nil _
    | cons j' later => exact congrArg (newLine level ++ prettyChars level j ++ ',' :: ·) ih

theorem readItems_append {items : List Json} (hne : items ≠ []) (hitems : ∀ j ∈ items, ReadsBack j)
    (hfuel : (prettyItems level items).length < fuel) :
    readItems fuel (prettyItems level items ++ (newLine level' ++ ']' :: rest)) = some (items, rest) := by
  rw [prettyItems_eq] at hfuel ⊢
  exact read_separated hne (fun j hj => readsEntry_item (hitems j hj)) (stops_newLine _ _)
    (List.dropWhile_append_of_pos isSpace_of_mem_newLine) hfuel

/-! ### Objects -/

theorem head?_dropWhile_prettyFields (level : Nat) (field : String × Json)
    (later : List (String × Json)) (rest : List Char) :
    ((prettyFields level (field :: later) ++ rest).dropWhile isSpace).head? ≠ some '}' := by
  obtain ⟨name, j⟩ := field
  obtain ⟨tail, htail⟩ : ∃ tail, prettyFields level ((name, j) :: later)
      = newLine level ++ prettyField level (name, j) ++ tail := by
    cases later <;> exact ⟨_, rfl⟩
  rw [htail, List.append_assoc, List.append_assoc,
    List.dropWhile_append_of_pos isSpace_of_mem_newLine]
  exact fun h => absurd (Option.some.inj h) (by decide)

theorem readValue_object (h : (cs.dropWhile isSpace).head? ≠ some '}') (fuel : Nat) :
    readValue (fuel + 1) ('{' :: cs)
      = (readFields fuel cs).map fun (fields, rest) => (object fields, rest) := by
  have hopen : ('{' :: cs).dropWhile isSpace = '{' :: cs := rfl
  rw [readValue, hopen]
  simp only
  split
  · next hclose => exact absurd (congrArg List.head? hclose) h
  · rw [(read_dropWhile_isSpace fuel cs).2]

/-- One field, and then the end of the object or further fields. -/
theorem readsEntry_field {field : String × Json} (hvalue : ReadsBack field.2) :
    ReadsEntry readFields '}' (newLine level ++ prettyField level field) field := by
  obtain ⟨name, j⟩ := field
  intro fuel tail hfuel htail
  have hfield : prettyField level (name, j) ++ tail
      = '"' :: (name.toList.flatMap escapeChar ++ '"' :: ':' :: ' ' :: (prettyChars level j ++ tail)) := by
    simp only [prettyField, quoted, List.append_assoc, List.cons_append, List.nil_append]
  have hlength : (prettyChars level j).length < fuel := by
    rw [List.length_append, prettyField, List.length_append, List.length_cons, List.length_cons]
      at hfuel
    omega
  have hspace : ∀ c ∈ [' '], isSpace c = true := List.forall_mem_singleton.mpr rfl
  -- the value stands behind the colon and a blank
  have hread : readValue fuel (' ' :: (prettyChars level j ++ tail)) = some (j, tail) :=
    (read_append_of_space hspace fuel _).1.trans (hvalue _ _ _ hlength htail)
  have hopen : ∀ cs, ('"' :: cs).dropWhile isSpace = '"' :: cs := fun _ => rfl
  have hcolon : ∀ cs, (':' :: cs).dropWhile isSpace = ':' :: cs := fun _ => rfl
  rw [List.append_assoc, (read_append_of_space isSpace_of_mem_newLine _ _).2.2, hfield, readFields,
    hopen]
  simp only [readText_append, Option.bind_eq_bind, Option.bind_some, hcolon, hread]
  -- behind the value comes the brace or a comma
  constructor
  · intro cs hclose
    simp only [hclose]
    rfl
  · intro cs hcomma
    simp only [hcomma]
    cases readFields fuel cs <;> rfl

theorem prettyFields_eq (level : Nat) (fields : List (String × Json)) :
    prettyFields level fields
      = separated (fun field => newLine level ++ prettyField level field) fields := by
  induction fields with
  | nil => rfl
  | cons field later ih =>
    cases later with
    | nil => exact List.append_nil _
    | cons field' later => exact congrArg (newLine level ++ prettyField level field ++ ',' :: ·) ih

theorem readFields_append {fields : List (String × Json)} (hne : fields ≠ [])
    (hfields : ∀ field ∈ fields, ReadsBack field.2)
    (hfuel : (prettyFields level fields).length < fuel) :
    readFields fuel (prettyFields level fields ++ (newLine level' ++ '}' :: rest))
      = some (fields, rest) := by
  rw [prettyFields_eq] at hfuel ⊢
  exact read_separated hne (fun field h => readsEntry_field (hfields field h)) (stops_newLine _ _)
    (List.dropWhile_append_of_pos isSpace_of_mem_newLine) hfuel

/-! ### Values -/

theorem readsBack_of_succ (h : ∀ level fuel rest, (prettyChars level j).length ≤ fuel → Stops rest →
    readValue (fuel + 1) (prettyChars level j ++ rest) = some (j, rest)) : j.ReadsBack := by
  intro level fuel rest hfuel hrest
  obtain ⟨fuel, rfl⟩ : ∃ n, fuel = n + 1 := ⟨fuel - 1, by omega⟩
  exact h level fuel rest (Nat.le_of_lt_succ hfuel) hrest

end Parts

/-- **Every value is read back**, whatever follows it that does not go on with a number. -/
theorem readsBack (j : Json) : j.ReadsBack := by
  induction j using induct with
  | null => exact readsBack_of_succ fun _ _ _ _ _ => rfl
  | bool b =>
    cases b with
    | false => exact readsBack_of_succ fun _ _ _ _ _ => rfl
    | true => exact readsBack_of_succ fun _ _ _ _ _ => rfl
  | number d => exact readsBack_of_succ fun _ fuel _ _ hrest => readValue_numeral d fuel hrest
  | text s =>
    refine readsBack_of_succ fun level fuel rest _ _ => ?_
    have htext : prettyChars level (text s) ++ rest
        = '"' :: (s.toList.flatMap escapeChar ++ '"' :: rest) := by
      simp only [prettyChars, scalar, quoted, List.append_assoc, List.cons_append, List.nil_append]
    have hopen : ∀ cs, ('"' :: cs).dropWhile isSpace = '"' :: cs := fun _ => rfl
    rw [htext, readValue, hopen]
    simp only [readText_append, Option.map_some]
  | list items ih =>
    refine readsBack_of_succ fun level fuel rest hfuel _ => ?_
    cases items with
    | nil => rfl
    | cons j later =>
      have htext : prettyChars level (list (j :: later)) ++ rest
          = '[' :: (prettyItems (level + 1) (j :: later) ++ (newLine level ++ ']' :: rest)) := by
        simp only [prettyChars, List.append_assoc, List.cons_append, List.nil_append]
      -- the brackets take more characters than the list takes steps
      have hlength : (prettyItems (level + 1) (j :: later)).length < fuel := by
        simp only [prettyChars, List.length_cons, List.length_append, List.cons_append] at hfuel
        omega
      rw [htext, readValue_list (head?_dropWhile_prettyItems _ _ _ _),
        readItems_append (List.cons_ne_nil j later) ih hlength]
      rfl
  | object fields ih =>
    refine readsBack_of_succ fun level fuel rest hfuel _ => ?_
    cases fields with
    | nil => rfl
    | cons field later =>
      have htext : prettyChars level (object (field :: later)) ++ rest
          = '{' :: (prettyFields (level + 1) (field :: later) ++ (newLine level ++ '}' :: rest)) := by
        simp only [prettyChars, List.append_assoc, List.cons_append, List.nil_append]
      have hlength : (prettyFields (level + 1) (field :: later)).length < fuel := by
        simp only [prettyChars, List.length_cons, List.length_append, List.cons_append] at hfuel
        omega
      rw [htext, readValue_object (head?_dropWhile_prettyFields _ _ _ _),
        readFields_append (List.cons_ne_nil field later) ih hlength]
      rfl

/-- **A value that is written over several lines reads back.** -/
theorem read?_pretty (j : Json) : read? j.pretty = some j := by
  -- there are as many steps as characters, and one more
  have hlength : (prettyChars 0 j).length < j.pretty.length + 1 := by
    rw [← String.length_toList, pretty, String.toList_ofList]
    exact Nat.lt_succ_self _
  have hread := readsBack j 0 (j.pretty.length + 1) [] hlength nofun
  rw [read?, pretty, String.toList_ofList]
  rw [List.append_nil, pretty] at hread
  rw [hread]
  rfl

theorem pretty_inj {j j' : Json} : j.pretty = j'.pretty ↔ j = j' := by
  refine ⟨fun h => ?_, congrArg pretty⟩
  have hread := read?_pretty j
  rw [h, read?_pretty] at hread
  exact (Option.some.inj hread).symm

end Junction.Json
