import Junction.Operand
import Junction.Proofs.Text.Trim
import Junction.Proofs.Text.Whole

/-!
# Operands that stand alone

An operand is read up to a place that depends on what follows it, and it is trimmed after that. Still
its text **stands alone** (`Operand.Standing`): read by itself it is one operand, the whole text, and so
it is in front of any seam and after any character that is no word character
(`Operand.Standing.run_append`). This is so since

* the end of a quoted run is looked for in all of the text, but it lies in the operand
  (`Operand.exists_after_run`);
* an operand does not end between two word characters (`Operand.apart_of_run`), so to end there does
  not make a keyword of its last characters;
* the characters trimmed are white space outside quotes.

`Operand.goesOn` is the test that the reading of an operand makes at each character, and
`Operand.Through` says that it holds along a text.
-/

namespace Junction

open Text Quoted

namespace Text

theorem isBlank_eq_false_of_isQuote {c : Char} (h : isQuote c = true) : isBlank c = false := by
  rw [isQuote, Bool.or_eq_true, beq_iff_eq, beq_iff_eq] at h
  rcases h with rfl | rfl <;> decide

theorem isQuote_eq_false_of_isBlank {c : Char} (h : isBlank c = true) : isQuote c = false := by
  refine Bool.eq_false_iff.mpr fun hq => ?_
  rw [isBlank_eq_false_of_isQuote hq] at h
  cases h

end Text

/-! ### Quoted runs -/

theorem Quoted.closing?_cons {d c : Char} (h : c ≠ '\\') (cs : List Char) :
    closing? d (c :: cs)
      = if c = d then some ([c], cs)
        else (closing? d cs).map fun (run, rest) => (c :: run, rest) := by
  cases cs <;> simp [closing?, h]

/-- **Induction along a run** up to the quote that closes it. A backslash takes the character after it
along. -/
theorem Quoted.closing?_induct {d : Char} {motive : List Char → List Char → List Char → Prop}
    (guarded : ∀ c cs run rest, motive cs run rest → motive ('\\' :: c :: cs) ('\\' :: c :: run) rest)
    (plain : ∀ c cs run rest, c ≠ '\\' → c ≠ d → motive cs run rest → motive (c :: cs) (c :: run) rest)
    (closes : ∀ cs, d ≠ '\\' → motive (d :: cs) [d] cs) {cs run rest : List Char}
    (h : closing? d cs = some (run, rest)) : motive cs run rest := by
  -- what is no backslash with a character after it, and no backslash at the end, is no backslash
  have hback : ∀ (c : Char) (cs : List Char), (c = '\\' → cs = [] → False) →
      (∀ c' cs', c = '\\' → cs = c' :: cs' → False) → c ≠ '\\' := by
    intro c cs hlast hmore hc
    cases cs with
    | nil => exact hlast hc rfl
    | cons c' cs => exact hmore c' cs hc rfl
  fun_induction closing? d cs generalizing run rest with
  | case1 => cases h
  | case2 => cases h
  | case3 c cs ih =>
    obtain ⟨⟨later, rest'⟩, hlater, he⟩ := Option.map_eq_some_iff.mp h
    obtain ⟨rfl, rfl⟩ := Prod.mk.inj he
    exact guarded c cs later rest' (ih hlater)
  | case4 cs hlast hmore =>
    obtain ⟨rfl, rfl⟩ := Prod.mk.inj (Option.some.inj h)
    exact closes cs (hback d cs hlast hmore)
  | case5 c cs hlast hmore hcd ih =>
    obtain ⟨⟨later, rest'⟩, hlater, he⟩ := Option.map_eq_some_iff.mp h
    obtain ⟨rfl, rfl⟩ := Prod.mk.inj he
    exact plain c cs later rest' (hback c cs hlast hmore) hcd (ih hlater)

/-- **A run that is closed is the same run** whatever follows it. -/
theorem Quoted.closing?_append_of_eq_some {d : Char} {cs run rest : List Char}
    (h : closing? d cs = some (run, rest)) (u : List Char) :
    closing? d (run ++ u) = some (run, u) := by
  refine closing?_induct (motive := fun _ run _ => closing? d (run ++ u) = some (run, u)) ?_ ?_ ?_ h
  · intro c _ run _ ih
    rw [List.cons_append, List.cons_append, closing?, ih]
    rfl
  · intro c _ run _ hc hcd ih
    rw [List.cons_append, closing?_cons hc, if_neg hcd, ih]
    rfl
  · intro _ hd
    rw [List.singleton_append, closing?_cons hd, if_pos rfl]

/-- A run that is closed is closed whatever follows. -/
theorem Quoted.isSome_closing?_append {d : Char} {cs : List Char}
    (h : (closing? d cs).isSome = true) (u : List Char) :
    (closing? d (cs ++ u)).isSome = true := by
  obtain ⟨⟨run, rest⟩, hrun⟩ := Option.isSome_iff_exists.mp h
  rw [← closing?_append hrun, List.append_assoc, closing?_append_of_eq_some hrun]
  rfl

/-- A run ends with the quote that closes it. -/
theorem Quoted.getLast?_of_closing? {d : Char} {cs run rest : List Char}
    (h : closing? d cs = some (run, rest)) : run.getLast? = some d := by
  refine closing?_induct (motive := fun _ run _ => run.getLast? = some d) ?_ ?_ ?_ h
  · intro c _ run _ ih
    rw [List.getLast?_cons, List.getLast?_cons, ih]
    rfl
  · intro c _ run _ _ _ ih
    rw [List.getLast?_cons, ih]
    rfl
  · intro _ _
    rfl

namespace Operand

/-! ### One character at a time -/

/-- The mode after one more character. -/
def Mode.next : Mode → Char → Mode
  | plain _, c => if isQuote c then quoted c else plain (some c)
  | quoted d, c => within d c
  | escaped d, _ => quoted d

/-- The mode after some characters. -/
def Mode.after (m : Mode) (t : List Char) : Mode := t.foldl Mode.next m

/-- **The operand goes on** with `c`, where `cs` follows. -/
def goesOn (lexicon : Lexicon) : Mode → Char → List Char → Bool
  | .plain prev, c, cs =>
    !isParen c && if isQuote c then (closing? c cs).isSome
      else (lexicon.operator? prev (c :: cs)).isNone
  | _, _, _ => true

@[simp] theorem Mode.after_nil (m : Mode) : m.after [] = m := rfl

@[simp] theorem Mode.after_cons (m : Mode) (c : Char) (t : List Char) :
    m.after (c :: t) = (m.next c).after t := rfl

theorem Mode.after_append (m : Mode) (s t : List Char) : m.after (s ++ t) = (m.after s).after t :=
  List.foldl_append

theorem run_nil (lexicon : Lexicon) (m : Mode) : run lexicon m [] = ([], []) := by
  cases m <;> rfl

theorem run_cons (lexicon : Lexicon) (m : Mode) (c : Char) (cs : List Char) :
    run lexicon m (c :: cs)
      = if goesOn lexicon m c cs then consTaken c (run lexicon (m.next c) cs)
        else ([], c :: cs) := by
  cases m with
  | plain prev =>
    rw [run, goesOn, Mode.next]
    -- what ends the run is looked for in the order in which `goesOn` names it
    cases isParen c with
    | true => rfl
    | false =>
      cases isQuote c with
      | true => rfl
      | false => cases lexicon.operator? prev (c :: cs) <;> rfl
  | quoted d => rfl
  | escaped d => rfl

/-- The operand goes on along `t`, where `u` follows. -/
def Through (lexicon : Lexicon) (u : List Char) : Mode → List Char → Prop
  | _, [] => True
  | m, c :: t => goesOn lexicon m c (t ++ u) = true ∧ Through lexicon u (m.next c) t

section Through

variable {lexicon : Lexicon} {m : Mode} {t u : List Char}

/-- An operand that goes on along a text takes it all. -/
theorem Through.run_append (h : Through lexicon u m t) :
    run lexicon m (t ++ u)
      = (t ++ (run lexicon (m.after t) u).1, (run lexicon (m.after t) u).2) := by
  induction t generalizing m with
  | nil => rfl
  | cons c t ih =>
    rw [List.cons_append, run_cons, if_pos h.1, ih h.2]
    rfl

/-- What is taken for an operand is what it goes on along, and it does not go on after that. -/
theorem through_run (lexicon : Lexicon) (m : Mode) (cs : List Char) :
    Through lexicon (run lexicon m cs).2 m (run lexicon m cs).1
      ∧ ∀ c rest, (run lexicon m cs).2 = c :: rest →
        goesOn lexicon (m.after (run lexicon m cs).1) c rest = false := by
  induction cs generalizing m with
  | nil =>
    rw [run_nil]
    exact ⟨trivial, fun c rest h => by cases h⟩
  | cons c cs ih =>
    rw [run_cons]
    cases hg : goesOn lexicon m c cs with
    | true =>
      obtain ⟨hthrough, hstop⟩ := ih (m.next c)
      refine ⟨⟨?_, hthrough⟩, hstop⟩
      change goesOn lexicon m c
        ((run lexicon (m.next c) cs).1 ++ (run lexicon (m.next c) cs).2) = true
      -- what is taken and what is left are the text that was there
      rw [Operand.run_append]
      exact hg
    | false =>
      refine ⟨trivial, fun c' rest h => ?_⟩
      obtain ⟨rfl, rfl⟩ := List.cons.inj h
      exact hg

/-- An operand that goes on along two texts goes on along the first, where the second follows. -/
theorem through_append {s : List Char} (h : Through lexicon u m (s ++ t)) :
    Through lexicon (t ++ u) m s := by
  induction s generalizing m with
  | nil => trivial
  | cons c s ih =>
    refine ⟨?_, ih h.2⟩
    rw [← List.append_assoc]
    exact h.1

/-- ... and along the second, from where it stands after the first. -/
theorem Through.of_append {s : List Char} (h : Through lexicon u m (s ++ t)) :
    Through lexicon u (m.after s) t := by
  induction s generalizing m with
  | nil => exact h
  | cons c s ih => exact ih h.2

end Through

/-! ### Quoted runs end in the operand -/

/-- The quoted run in which the mode stands is closed in `cs`. -/
def Mode.Closes : Mode → List Char → Prop
  | plain _, _ => True
  | quoted d, cs => (closing? d cs).isSome = true
  | escaped d, cs => (closing? d cs.tail).isSome = true

/-- A quoted run goes on to be closed or not. -/
theorem Mode.closes_quoted_cons (d c : Char) (cs : List Char) :
    (quoted d).Closes (c :: cs) ↔ ((quoted d).next c).Closes cs := by
  by_cases hc : c = '\\'
  · subst hc
    -- the character after the backslash is passed over, if there is one
    cases cs with
    | nil => exact Iff.rfl
    | cons c' cs =>
      change (Option.map _ (closing? d cs)).isSome = true ↔ (closing? d cs).isSome = true
      rw [Option.isSome_map]
  · rw [Mode.Closes, closing?_cons hc, Mode.next, Mode.within, if_neg hc]
    -- any other character closes the run or stands in it
    by_cases hcd : c = d
    · rw [if_pos hcd, if_pos hcd]
      exact ⟨fun _ => trivial, fun _ => rfl⟩
    · rw [if_neg hcd, if_neg hcd, Option.isSome_map]
      rfl

/-- **An operand does not end in a quoted run.** -/
theorem exists_after_run (lexicon : Lexicon) {m : Mode} (cs : List Char) (h : m.Closes cs) :
    ∃ prev, m.after (run lexicon m cs).1 = .plain prev := by
  induction cs generalizing m with
  | nil =>
    cases m with
    | plain prev => exact ⟨prev, rfl⟩
    | quoted d => cases h
    | escaped d => cases h
  | cons c cs ih =>
    rw [run_cons]
    cases hg : goesOn lexicon m c cs with
    | true =>
      -- a quote is gone on with only if a closing one is ahead, and this stays so in the run
      refine ih ?_
      cases m with
      | plain prev =>
        rw [Mode.next]
        cases hq : isQuote c with
        | true =>
          rw [goesOn, hq] at hg
          exact (Bool.and_eq_true_iff.mp hg).2
        | false => trivial
      | quoted d => exact (Mode.closes_quoted_cons d c cs).mp h
      | escaped d => exact h
    | false =>
      -- the operand ends outside quotes only
      cases m with
      | plain prev => exact ⟨prev, rfl⟩
      | quoted d => cases hg
      | escaped d => cases hg

/-- A quoted run that has ended by the end of a text is closed in it. -/
theorem closes_of_after {m : Mode} {t : List Char} {prev : Option Char}
    (h : m.after t = .plain prev) : m.Closes t := by
  induction t generalizing m with
  | nil =>
    obtain rfl : m = .plain prev := h
    trivial
  | cons c t ih =>
    cases m with
    | plain prev => trivial
    -- in quotes the rest closes the run just if the whole does
    | quoted d => exact (Mode.closes_quoted_cons d c t).mpr (ih h)
    | escaped d => exact ih (m := .quoted d) h

theorem isSome_closing?_of_after {c : Char} {t : List Char} {prev last : Option Char}
    (hq : isQuote c = true) (h : (Mode.plain prev).after (c :: t) = .plain last) :
    (closing? c t).isSome = true := by
  have hclosed := closes_of_after (m := (Mode.plain prev).next c) h
  rw [Mode.next, if_pos hq] at hclosed
  exact hclosed

/-- Outside quotes the mode remembers the last character. -/
theorem after_eq_plain {m : Mode} {t : List Char} {prev : Option Char} (ht : t ≠ [])
    (h : m.after t = .plain prev) : prev = t.getLast? := by
  -- the last character decides, whatever the mode before it
  rw [← List.dropLast_append_getLast ht, Mode.after_append, Mode.after_cons, Mode.after_nil] at h
  rw [List.getLast?_eq_getLast_of_ne_nil ht]
  generalize m.after t.dropLast = m' at h
  generalize t.getLast ht = c at h
  cases m' with
  | plain p =>
    rw [Mode.next] at h
    split at h
    · cases h
    · exact (Mode.plain.inj h).symm
  | quoted d =>
    rw [Mode.next, Mode.within] at h
    split at h
    · cases h
    · split at h
      · exact (Mode.plain.inj h).symm
      · cases h
  | escaped d => cases h

/-- **What a run takes** it goes on along. It comes outside quotes by that, and goes on no further. -/
theorem of_run {lexicon : Lexicon} {prev : Option Char} {cs taken rest : List Char} (hne : taken ≠ [])
    (h : run lexicon (.plain prev) cs = (taken, rest)) :
    Through lexicon rest (.plain prev) taken
      ∧ (Mode.plain prev).after taken = .plain taken.getLast?
      ∧ ∀ c v, rest = c :: v → goesOn lexicon (.plain taken.getLast?) c v = false := by
  obtain ⟨hthrough, hstop⟩ := through_run lexicon (.plain prev) cs
  obtain ⟨last, hend⟩ := exists_after_run lexicon (m := .plain prev) cs trivial
  rw [h] at hthrough hstop hend
  rw [after_eq_plain hne hend] at hend
  rw [hend] at hstop
  exact ⟨hthrough, hend, hstop⟩

/-- A quoted run is closed by a quote. -/
def Mode.Quotes : Mode → Prop
  | plain _ => True
  | quoted d | escaped d => isQuote d = true

theorem Mode.Quotes.after {m : Mode} (h : m.Quotes) (t : List Char) : (m.after t).Quotes := by
  induction t generalizing m with
  | nil => exact h
  | cons c t ih =>
    refine ih ?_
    -- one character keeps it
    cases m with
    | plain prev =>
      rw [Mode.next]
      split
      · assumption
      · trivial
    | quoted d =>
      rw [Mode.next, Mode.within]
      split
      · exact h
      · split
        · trivial
        · exact h
    | escaped d => exact h

/-- White space does not end a quoted run. -/
theorem exists_of_after_blank {m : Mode} (hm : m.Quotes) {b : List Char} {prev : Option Char}
    (hb : ∀ c ∈ b, isBlank c = true) (h : m.after b = .plain prev) : ∃ prev', m = .plain prev' := by
  induction b generalizing m with
  | nil => exact ⟨prev, h⟩
  | cons c b ih =>
    have hnext : (m.next c).Quotes := hm.after [c]
    obtain ⟨p, hp⟩ := ih hnext (fun c' hc' => hb c' (List.mem_cons_of_mem _ hc')) h
    cases m with
    | plain prev' => exact ⟨prev', rfl⟩
    | quoted d =>
      -- only the quote itself ends the run, and no blank is a quote
      rw [Mode.next, Mode.within] at hp
      split at hp
      · cases hp
      · split at hp
        · rename_i hcd
          have hq := isQuote_eq_false_of_isBlank (hb c List.mem_cons_self)
          rw [hcd, show isQuote d = true from hm] at hq
          cases hq
        · cases hp
    | escaped d => cases hp

/-! ### What follows -/

section Transfer

variable {k : Keywords} {s u u' : List Char}

/-- The test at a character with another text in front of a seam: it holds if the quoted run that may
begin there is closed before, and word characters are kept off as before. -/
theorem goesOn_plain {prev prev' : Option Char} {c : Char} {t : List Char} (hu : Seam u')
    (hclosed : isQuote c = true → (closing? c t).isSome = true)
    (hfront : prev.any isWord = true → prev'.any isWord = true ∨ isWord c = false)
    (hcut : Cut (c :: (t ++ s)) u)
    (h : goesOn k.lexicon (.plain prev) c (t ++ (s ++ u)) = true) :
    goesOn k.lexicon (.plain prev') c (t ++ (s ++ u')) = true := by
  rw [goesOn, Bool.and_eq_true] at h ⊢
  refine ⟨h.1, ?_⟩
  cases hq : isQuote c with
  | true => exact isSome_closing?_append (hclosed hq) (s ++ u')
  | false =>
    -- no operator was found there, and none is found in front of a seam
    have hnone := h.2
    rw [hq, ← List.append_assoc] at hnone
    have hnone := Option.isNone_iff_eq_none.mp hnone
    rw [← List.append_assoc]
    exact Option.isNone_iff_eq_none.mpr
      (Lexicon.operator?_append_eq_none (s := c :: (t ++ s)) hu hfront hcut hnone)

/-- **An operand goes on along its text** also where another seam comes after it, there or further
on. -/
theorem Through.seam {m : Mode} {t : List Char} {last : Option Char}
    (hend : m.after t = .plain last) (hu : Seam u') (hcut : Cut (t ++ s) u)
    (h : Through k.lexicon (s ++ u) m t) : Through k.lexicon (s ++ u') m t := by
  induction t generalizing m with
  | nil => trivial
  | cons c t ih =>
    refine ⟨?_, ih hend (fun ht => hcut ?_) h.2⟩
    · -- quotes are closed inside the text, and no keyword reaches over a seam
      cases m with
      | plain prev =>
        exact goesOn_plain hu (fun hq => isSome_closing?_of_after hq hend) .inl hcut h.1
      | quoted d => rfl
      | escaped d => rfl
    · -- what is left of the text ends as the text does
      cases hts : t ++ s with
      | nil =>
        rw [hts] at ht
        cases ht
      | cons c' t' =>
        rw [hts] at ht
        rwa [List.cons_append, hts, List.getLast?_cons_cons]

/-- ... and after another character, if word characters are kept off at the front. -/
theorem Through.plain {prev prev' : Option Char} {t : List Char} {last : Option Char}
    (hend : (Mode.plain prev).after t = .plain last) (hu : Seam u')
    (hfront : prev.any isWord = true → prev'.any isWord = true ∨ t.head?.any isWord = false)
    (hcut : Cut (t ++ s) u) (h : Through k.lexicon (s ++ u) (.plain prev) t) :
    Through k.lexicon (s ++ u') (.plain prev') t := by
  cases t with
  | nil => trivial
  | cons c t =>
    -- only the first character sees what stood before, and the mode after it is the same
    refine ⟨?_, (h.seam hend hu hcut).2⟩
    exact goesOn_plain hu (fun hq => isSome_closing?_of_after hq hend) hfront hcut h.1

end Transfer

/-! ### Standing alone -/

/-- **The text stands alone as an operand**: it has no white space at its ends, and read by itself it
is all operand. -/
structure Standing (lexicon : Lexicon) (t : List Char) : Prop where
  head : ∃ c s, t = c :: s ∧ isBlank c = false
  last : ∃ c, t.getLast? = some c ∧ isBlank c = false
  reads : run lexicon (.plain none) t = (t, [])

instance (lexicon : Lexicon) : (t : List Char) → Decidable (Standing lexicon t)
  | [] => isFalse fun h => by
    obtain ⟨c, s, hcs, -⟩ := h.head
    cases hcs
  | c :: s =>
    decidable_of_iff (isBlank c = false ∧ isBlank ((c :: s).getLast (List.cons_ne_nil c s)) = false
        ∧ run lexicon (.plain none) (c :: s) = (c :: s, [])) <| by
      have hlast := List.getLast?_eq_getLast_of_ne_nil (List.cons_ne_nil c s)
      constructor
      · rintro ⟨hc, hd, hrun⟩
        exact ⟨⟨c, s, rfl, hc⟩, ⟨_, hlast, hd⟩, hrun⟩
      · rintro ⟨⟨c', s', hcs, hc⟩, ⟨d, hd, hdb⟩, hrun⟩
        obtain ⟨rfl, rfl⟩ := List.cons.inj hcs
        obtain rfl := Option.some.inj (hlast.symm.trans hd)
        exact ⟨hc, hdb, hrun⟩

/-- An operand does not end between two word characters. -/
theorem apart_of_run {k : Keywords} {prev : Option Char} {cs taken rest : List Char}
    (hne : taken ≠ []) (h : run k.lexicon (.plain prev) cs = (taken, rest))
    (hlast : taken.getLast?.any isWord = true) : rest.head?.any isWord = false := by
  obtain ⟨-, -, hstop⟩ := of_run hne h
  cases rest with
  | nil => rfl
  | cons c rest =>
    have hno := hstop c rest rfl
    -- it ends before a parenthesis, a quote or a keyword that is a whole word there
    refine Bool.eq_false_iff.mpr fun hc => ?_
    have hres : Keywords.isReserved c = false := isReserved_eq_false_of_isWord hc
    obtain ⟨-, hparen, hquote⟩ := isReserved_eq_false_iff.mp hres
    rw [goesOn, hparen, hquote] at hno
    cases ho : k.lexicon.operator? taken.getLast? (c :: rest) with
    | none =>
      rw [ho] at hno
      cases hno
    | some o =>
      have hwhole := (Lexicon.whole_of_operator? ho).1 hlast
      rw [hc] at hwhole
      cases hwhole

/-- What is taken for an operand, and its text. -/
theorem run_of_operand? {lexicon : Lexicon} {prev : Option Char} {cs : List Char}
    {l : Lexeme String} (h : operand? lexicon prev cs = some l) :
    run lexicon (.plain prev) cs = (l.taken, l.rest) ∧ l.value = String.ofList (trimEnd l.taken) := by
  unfold operand? at h
  split at h
  · cases h
  · rename_i taken rest _ hrun
    obtain rfl := Option.some.inj h
    exact ⟨hrun, rfl⟩

/-- **The text of an operand that was read stands alone.** -/
theorem standing_of_operand? {k : Keywords} {prev : Option Char} {c : Char} {cs : List Char}
    {l : Lexeme String} (h : operand? k.lexicon prev (c :: cs) = some l) (hc : isBlank c = false)
    (hprev : prev.any isWord = true → isWord c = false) : Standing k.lexicon l.value.toList := by
  have hreads := readsFrom_of_operand? h
  obtain ⟨hrun, hvalue⟩ := run_of_operand? h
  obtain ⟨hthrough, hend, -⟩ := of_run hreads.taken_ne_nil hrun
  obtain ⟨a, ha⟩ := exists_trimEnd_eq hc hreads.taken_ne_nil hreads.taken_append_rest
  obtain ⟨b, htaken, hb⟩ := exists_trimEnd_append l.taken
  have hlast : ∀ d, (trimEnd l.taken).getLast? = some d → isBlank d = false :=
    fun d => isBlank_getLast?_trimEnd
  have hapart := apart_of_run hreads.taken_ne_nil hrun
  rw [hvalue, String.toList_ofList]
  rw [ha] at htaken hlast ⊢
  rw [← htaken] at hthrough hend hapart
  -- the white space that was trimmed stood outside quotes
  rw [Mode.after_append] at hend
  obtain ⟨mid, hmid⟩ := exists_of_after_blank (Mode.Quotes.after (m := .plain prev) trivial _) hb hend
  -- after the trimmed text comes white space, or what the operand was read up to
  have hcut : Cut (c :: a ++ []) (b ++ l.rest) := by
    intro hw
    rw [List.append_nil] at hw
    cases b with
    | nil =>
      rw [List.append_nil] at hapart
      exact hapart hw
    | cons d b => exact isWord_eq_false_of_isBlank (hb d List.mem_cons_self)
  have hfirst : Through k.lexicon (b ++ l.rest) (.plain prev) (c :: a) := through_append hthrough
  have halone : Through k.lexicon [] (.plain none) (c :: a) :=
    Through.plain (s := []) hmid .nil (fun hp => .inr (hprev hp)) hcut hfirst
  refine ⟨⟨c, a, rfl, hc⟩, ?_, ?_⟩
  · have hget := List.getLast?_eq_getLast_of_ne_nil (List.cons_ne_nil c a)
    exact ⟨_, hget, hlast _ hget⟩
  · have hall := halone.run_append
    rwa [run_nil, List.append_nil] at hall

namespace Standing

theorem ne_nil {lexicon : Lexicon} {t : List Char} (h : Standing lexicon t) : t ≠ [] := by
  obtain ⟨c, s, rfl, -⟩ := h.head
  exact List.cons_ne_nil c s

/-- An operand goes on along a text that stands alone, and ends outside quotes. -/
theorem through {lexicon : Lexicon} {t : List Char} (h : Standing lexicon t) :
    Through lexicon [] (.plain none) t ∧ (Mode.plain none).after t = .plain t.getLast? := by
  obtain ⟨hthrough, hend, -⟩ := of_run h.ne_nil h.reads
  exact ⟨hthrough, hend⟩

/-- **A text that stands alone is read as it is** in front of a seam, after any character. White space
of the seam may be added to it. -/
theorem run_append {k : Keywords} {t u : List Char} (h : Standing k.lexicon t)
    (hu : Seam u) (prev : Option Char) :
    run k.lexicon (.plain prev) (t ++ u)
      = (t ++ (run k.lexicon (.plain t.getLast?) u).1, (run k.lexicon (.plain t.getLast?) u).2) := by
  obtain ⟨hthrough, hend⟩ := h.through
  have hu' : Through k.lexicon u (.plain prev) t :=
    Through.plain (s := []) hend hu (fun hp => nomatch hp) (.nil _) hthrough
  have hend' : (Mode.plain prev).after t = .plain t.getLast? := by
    obtain ⟨c, s, rfl, -⟩ := h.head
    exact hend
  rw [hu'.run_append, hend']

end Standing

end Operand

end Junction
