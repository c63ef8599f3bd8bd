import Junction.Text.Delimiter

/-!
# Quoted text

A quote opens a run of text that is read as it stands, parentheses and keywords included, up to
the same quote again. In it a backslash protects the character after it.

* `Quoted.quote` writes any text as such a run, in single quotes;
* `Quoted.dequote` takes the quotes and the protecting backslashes off again, and leaves a text
  that does not stand in quotes as it is;
* `Quoted.closing?` and `Quoted.run?` find where a run ends.

So dequoting undoes quoting (`Quoted.dequote_quote`), and no text can end the run that it is written
as too early (`Quoted.run?_quote`).
-/

namespace Junction.Quoted

open Text

/-- A backslash before each single quote and each backslash. -/
def escape : List Char → List Char
  | [] => []
  | c :: cs => if c = '\'' ∨ c = '\\' then '\\' :: c :: escape cs else c :: escape cs

/-- Each protected character without its backslash. A backslash that protects nothing, at the end
of the text, goes as well. -/
def unescape : List Char → List Char
  | [] => []
  | ['\\'] => []
  | '\\' :: c :: cs => c :: unescape cs
  | c :: cs => c :: unescape cs

/-- The text as a quoted run. -/
def quote (s : String) : String := String.ofList ('\'' :: escape s.toList ++ ['\''])

/-- The characters in a pair of equal quotes around a text. -/
def inner? : List Char → Option (List Char)
  | [] => none
  | d :: cs => if isQuote d ∧ cs.getLast? = some d then some cs.dropLast else none

/-- The text in the quotes around `s`, backslashes resolved; `s` itself where it has none. -/
def dequote (s : String) : String :=
  match inner? s.toList with
  | some cs => String.ofList (unescape cs)
  | none => s

/-- `closing? d cs`: the characters of `cs` up to and with the first unprotected `d`, and those
after it. -/
def closing? (d : Char) : List Char → Option (List Char × List Char)
  | [] => none
  | ['\\'] => none
  | '\\' :: c :: cs => (closing? d cs).map fun (run, rest) => ('\\' :: c :: run, rest)
  | c :: cs =>
    if c = d then some ([c], cs) else (closing? d cs).map fun (run, rest) => (c :: run, rest)

/-- The quoted run at the front of `cs`, quotes included, and what follows it. A run that is never
closed is none. -/
def run? : List Char → Option (List Char × List Char)
  | [] => none
  | d :: cs =>
    if isQuote d then (closing? d cs).map fun (run, rest) => (d :: run, rest) else none

/-- What a run takes and what it leaves make up the text. -/
theorem closing?_append {d : Char} {cs run rest : List Char}
    (h : closing? d cs = some (run, rest)) : run ++ rest = cs := by
  fun_induction closing? d cs generalizing run rest with
  | case1 => simp at h
  | case2 => simp at h
  | case3 c cs ih =>
    -- a backslash and the character that it escapes
    obtain ⟨⟨u, v⟩, hu, he⟩ := Option.map_eq_some_iff.mp h
    simp only [Prod.mk.injEq] at he
    obtain ⟨rfl, rfl⟩ := he
    simp [ih hu]
  | case4 =>
    -- the quote that closes
    simp only [Option.some.injEq, Prod.mk.injEq] at h
    obtain ⟨rfl, rfl⟩ := h
    rfl
  | case5 =>
    -- a character of the run
    rename_i ih
    obtain ⟨⟨u, v⟩, hu, he⟩ := Option.map_eq_some_iff.mp h
    simp only [Prod.mk.injEq] at he
    obtain ⟨rfl, rfl⟩ := he
    simp [ih hu]

/-- A quoted run and what follows it make up the text. -/
theorem run?_append {cs run rest : List Char} (h : run? cs = some (run, rest)) :
    run ++ rest = cs ∧ run ≠ [] := by
  cases cs with
  | nil => simp [run?] at h
  | cons d cs =>
    simp only [run?] at h
    split at h
    · obtain ⟨⟨u, v⟩, hu, he⟩ := Option.map_eq_some_iff.mp h
      simp only [Prod.mk.injEq] at he
      obtain ⟨rfl, rfl⟩ := he
      simp [closing?_append hu]
    · simp at h

/-! ### Writing and reading -/

/-- A character that is no backslash stands for itself. -/
theorem unescape_cons {c : Char} (h : c ≠ '\\') (cs : List Char) :
    unescape (c :: cs) = c :: unescape cs := by
  cases cs <;> simp [unescape, h]

/-- Protecting is undone. -/
theorem unescape_escape (cs : List Char) : unescape (escape cs) = cs := by
  induction cs with
  | nil => rfl
  | cons c cs ih =>
    by_cases h : c = '\'' ∨ c = '\\'
    · simp [escape, h, unescape, ih]
    · rw [escape, if_neg h, unescape_cons (fun hc => h (.inr hc)), ih]

/-- **Quoting is undone.** -/
theorem dequote_quote (s : String) : dequote (quote s) = s := by
  simp [dequote, quote, inner?, isQuote, unescape_escape]

/-- The run of a protected text ends where the text does. -/
theorem closing?_escape (cs rest : List Char) :
    closing? '\'' (escape cs ++ '\'' :: rest) = some (escape cs ++ ['\''], rest) := by
  induction cs with
  | nil => cases rest <;> simp [escape, closing?]
  | cons c cs ih =>
    -- what is escaped stands behind a backslash, and nothing else closes the run
    by_cases h : c = '\'' ∨ c = '\\'
    · simp [escape, h, closing?, ih]
    · have hq : c ≠ '\'' := fun hc => h (.inl hc)
      have hb : c ≠ '\\' := fun hc => h (.inr hc)
      simp [escape, hq, hb, closing?, ih]

/-- **A quoted text is one run**, whatever follows it. -/
theorem run?_quote (s : String) (rest : List Char) :
    run? ((quote s).toList ++ rest) = some ((quote s).toList, rest) := by
  simp [run?, quote, isQuote, closing?_escape]

end Junction.Quoted
