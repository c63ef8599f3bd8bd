import Junction.Proofs.Reading.Leaves

/-!
# Operands are stable

The text of an operand is what is left of a longer text: it was cut out where a parenthesis, a quote that
is never closed or a keyword came next, and then trimmed. **It does not depend on where it was cut out**
(`readExpression_operand_alone`): read by itself it is one operand, the whole of it, whether or not the
expression that it comes from is accepted. And none of its characters but those in quoted runs is a
parenthesis (`Quoted.outside`).

Both are true of every text that stands alone (`Operand.Standing`), and the text of each operand that is
read does so (`Operand.standing_of_operand?`). What is left to see is where the quoted runs of such a text
are: a run ends outside quotes again (`Operand.Mode.after_of_closing?`), so the text goes on after it as an
operand does.
-/

namespace Junction

open Text

/-- **The characters of a text that stand in none of its quoted runs.** A quote that opens no run is one of
them. -/
def Quoted.outside : List Char → List Char
  | [] => []
  | c :: cs =>
    match _h : run? (c :: cs) with
    | some (_, rest) => outside rest
    | none => c :: outside cs
termination_by cs => cs.length
decreasing_by
  · obtain ⟨hsplit, hne⟩ := run?_append _h
    have hlength := congrArg List.length hsplit
    have hpos := List.length_pos_iff.mpr hne
    rw [List.length_append] at hlength
    omega
  · exact Nat.lt_succ_self cs.length

namespace Operand

variable {lexicon : Lexicon} {k : Keywords}

/-! ### Outside quoted runs -/

/-- **A quoted run ends outside quotes**, with the quote that closes it. -/
theorem Mode.after_of_closing? {d : Char} {cs run rest : List Char}
    (h : Quoted.closing? d cs = some (run, rest)) : (Mode.quoted d).after run = .plain (some d) := by
  refine Quoted.closing?_induct (motive := fun _ run _ => (quoted d).after run = .plain (some d))
    ?_ ?_ ?_ h
  · intro c _ run _ ih
    rw [after_cons, next, within, if_pos rfl, after_cons, next]
    exact ih
  · intro c _ run _ hc hne ih
    rw [after_cons, next, within, if_neg hc, if_neg hne]
    exact ih
  · intro _ hd
    rw [after_cons, after_nil, next, within, if_neg hd, if_pos rfl]

/-- **What an operand goes on along holds no delimiter outside its quoted runs**, if it ends outside
quotes. -/
theorem Through.outside {u t : List Char} {prev last : Option Char}
    (h : Through lexicon u (.plain prev) t) (hend : (Mode.plain prev).after t = .plain last) :
    ∀ c ∈ Quoted.outside t, isParen c = false ∧ isQuote c = false := by
  fun_induction Quoted.outside t generalizing prev with
  | case1 => exact nofun
  | case2 c cs run rest hrun ih =>
    rw [Quoted.run?] at hrun
    split at hrun
    · rename_i hquote
      obtain ⟨⟨later, rest'⟩, hlater, he⟩ := Option.map_eq_some_iff.mp hrun
      obtain ⟨rfl, rfl⟩ := Prod.mk.inj he
      -- after the run the operand stands outside quotes, and goes on along the rest
      have hopen : (Mode.plain prev).next c = .quoted c := by rw [Mode.next, if_pos hquote]
      have hafter : (Mode.quoted c).after later = .plain (some c) := Mode.after_of_closing? hlater
      obtain ⟨-, h⟩ := h
      rw [Mode.after_cons] at hend
      rw [← Quoted.closing?_append hlater] at h hend
      rw [hopen] at h hend
      rw [Mode.after_append, hafter] at hend
      have hrest := h.of_append
      rw [hafter] at hrest
      exact ih hrest hend
    · cases hrun
  | case3 c cs hrun ih =>
    obtain ⟨hgoes, hlater⟩ := h
    rw [goesOn, Bool.and_eq_true, Bool.not_eq_true'] at hgoes
    -- a quote would open a run, for the operand ends outside quotes
    have hquote : isQuote c = false := by
      refine Bool.eq_false_iff.mpr fun hquote => ?_
      have hclosed := isSome_closing?_of_after hquote hend
      rw [Quoted.run?, if_pos hquote, Option.map_eq_none_iff] at hrun
      rw [hrun] at hclosed
      cases hclosed
    have hnext : (Mode.plain prev).next c = .plain (some c) := by
      rw [Mode.next, hquote, if_neg Bool.false_ne_true]
    rw [Mode.after_cons, hnext] at hend
    rw [hnext] at hlater
    exact List.forall_mem_cons.mpr ⟨⟨hgoes.1, hquote⟩, ih hlater hend⟩

/-! ### Standing alone -/

namespace Standing

variable {a : String}

/-- A text that stands alone holds no delimiter outside its quoted runs. -/
theorem outside {t : List Char} (h : Standing lexicon t) :
    ∀ c ∈ Quoted.outside t, isParen c = false ∧ isQuote c = false := by
  obtain ⟨hthrough, hend⟩ := h.through
  exact hthrough.outside hend

/-- It is the operand that is read off its front. -/
theorem operand?_eq (h : Standing lexicon a.toList) :
    operand? lexicon none a.toList = some ⟨a, a.toList, []⟩ := by
  obtain ⟨c, s, hcs, -⟩ := h.head
  obtain ⟨d, hlast, hd⟩ := h.last
  -- it ends with no white space, so nothing is trimmed
  have htrim : trimEnd a.toList = a.toList := by
    have hblank := trimEnd_append hlast hd (List.forall_mem_nil _)
    rwa [List.append_nil] at hblank
  have hreads := h.reads
  rw [hcs] at hreads htrim
  rw [operand?, hcs, hreads]
  change some (Lexeme.mk (String.ofList (trimEnd (c :: s))) (c :: s) []) = _
  rw [htrim, ← hcs, String.ofList_toList]

/-- **An expression that stands alone is one operand**, itself. -/
theorem readExpression_eq (h : Standing k.lexicon a.toList) :
    readExpression .operands k a = ⟨[.leaf a], none⟩ := by
  obtain ⟨c, cs, hcs, hc⟩ := h.head
  obtain ⟨hahead, hbehind⟩ := Reader.ahead_of_cons (r := Reader.start a.toList) hcs hc
  have hfresh : (Reader.start a.toList).stage ≠ .done := by
    intro hs
    cases hs
  have hoperand : operand? k.lexicon (Reader.start a.toList).behind (Reader.start a.toList).ahead
      = some ⟨a, a.toList, []⟩ := by
    rw [hahead, hbehind, ← hcs]
    exact h.operand?_eq
  -- nothing is left of the text after it
  have hend : ((Reader.start a.toList).afterOperand ⟨a, a.toList, []⟩).run .operands k
      = ([], .complete) := Reader.run_end (List.forall_mem_nil _) _
  rw [readExpression_eq_iff, Reader.run_of_moves (Reader.moves_operand hfresh hoperand), hend]

end Standing

end Operand

/-- **Operands are stable.** The text of each operand that is read, in an expression that is accepted or
not, is not empty, has no white space at its ends, and holds no parenthesis and no quote outside its quoted
runs. Read by itself with the same keywords it is one operand, the same text. -/
theorem readExpression_operand_alone {k : Keywords} {input a : String}
    (h : .leaf a ∈ (readExpression .operands k input).events) :
    a ≠ ""
      ∧ (∃ c, a.toList.head? = some c ∧ isBlank c = false)
      ∧ (∃ c, a.toList.getLast? = some c ∧ isBlank c = false)
      ∧ (∀ c ∈ Quoted.outside a.toList, isParen c = false ∧ isQuote c = false)
      ∧ readExpression .operands k a = ⟨[.leaf a], none⟩ := by
  obtain ⟨prev, c, cs, l, hc, hprev, hreads, rfl⟩ :=
    Reader.exists_reads_of_mem_run (f := .operands) (Reader.apart_start input.toList) h
  have hstanding : Operand.Standing k.lexicon l.value.toList :=
    Operand.standing_of_operand? (Form.operand?_of_readLeaf hreads) hc hprev
  obtain ⟨d, s, hds, hd⟩ := hstanding.head
  refine ⟨?_, ⟨d, ?_, hd⟩, hstanding.last, hstanding.outside, hstanding.readExpression_eq⟩
  · intro hempty
    rw [hempty] at hds
    cases hds
  · rw [hds]
    rfl

/-- An operand with a keyword and parentheses in quotes, in an expression that is refused after it. -/
theorem readExpression_operand_alone_refused :
    (readExpression .operands .standard "recORd AND x = '(a) OR b' ) y").events
        = [.leaf "recORd", .operator .and, .leaf "x = '(a) OR b'"]
      ∧ (readExpression .operands .standard "recORd AND x = '(a) OR b' ) y").error?
        = some (.unexpected "recORd AND x = '(a) OR b' " ") y" (afterTerm 0))
      ∧ (∀ c ∈ Quoted.outside "x = '(a) OR b'".toList, isParen c = false ∧ isQuote c = false)
      ∧ readExpression .operands .standard "x = '(a) OR b'" = ⟨[.leaf "x = '(a) OR b'"], none⟩ := by
  have hleaf : (Reader.start "recORd AND x = '(a) OR b' ) y".toList).Moves .operands .standard
      (.leaf "recORd") ⟨.done, 0, some ' ', "AND x = '(a) OR b' ) y".toList⟩ :=
    Reader.step_eq_event_iff.mp rfl
  have hoperator : (Reader.mk .done 0 (some ' ') "AND x = '(a) OR b' ) y".toList).Moves .operands
      .standard (.operator .and) ⟨.due, 0, some 'D', " x = '(a) OR b' ) y".toList⟩ :=
    Reader.step_eq_event_iff.mp rfl
  have hleaf' : (Reader.mk .due 0 (some 'D') " x = '(a) OR b' ) y".toList).Moves .operands .standard
      (.leaf "x = '(a) OR b'") ⟨.done, 0, some ' ', ") y".toList⟩ := Reader.step_eq_event_iff.mp rfl
  -- no keyword is found inside a word or inside quotes
  have hread : readExpression .operands .standard "recORd AND x = '(a) OR b' ) y"
      = ⟨[.leaf "recORd", .operator .and, .leaf "x = '(a) OR b'"],
        some (.unexpected "recORd AND x = '(a) OR b' " ") y" (afterTerm 0))⟩ := by
    rw [readExpression, Reader.run_of_moves hleaf, Reader.run_of_moves hoperator,
      Reader.run_of_moves hleaf', Reader.run_eq]
    rfl
  have hmem : .leaf "x = '(a) OR b'"
      ∈ (readExpression .operands .standard "recORd AND x = '(a) OR b' ) y").events := by
    rw [hread]
    decide
  obtain ⟨-, -, -, houtside, halone⟩ := readExpression_operand_alone hmem
  exact ⟨congrArg Outcome.events hread, congrArg Outcome.error? hread, houtside, halone⟩

end Junction
