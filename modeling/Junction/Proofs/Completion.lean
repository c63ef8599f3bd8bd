import Junction.Proofs.Groups
import Junction.Proofs.Quoting

/-!
# What is missing at the end

An expression that ends too early is refused with what is missing: the number of groups that are open, or
the kinds of tokens of which one has to come. `readExpression_completed`: **the error says what to write
after the text to complete it**. As many closing parentheses as groups are open complete the expression,
and fewer leave the others open. One leaf in quotes, or what is missing of a leaf, completes the terms
(`Supplies`); then nothing is missing but the parentheses of the groups that are open, if any are.

What is written follows the last token of the text, which is read with a look at what comes next; that
this token stays as it was is `Reader.Reaches.run_placed`. The text goes on with white space or a
parenthesis, so no word at its end goes on. If the last token is a term, only parentheses follow, and an
operand ends before them. An operator of a condition could have a second word, but a quote comes
(`comparison?_written`).
-/

namespace Junction

open Text Quoted Keywords

variable {f : Form} {k : Keywords}

/-- **What is to be written at the end** if a token of the kinds `expected` is missing there. -/
def Supplies (expected : KindSet) (text : String) : Prop :=
  (expected.has .operand = true ∨ expected = .singleton .right) ∧ text = " ''"
    ∨ expected.has .left = true ∧ text = " '' = ''"
    ∨ expected = .singleton .comparison ∧ text = " = ''"

theorem supplies_comparison_iff {text : String} :
    Supplies (.singleton .comparison) text ↔ text = " = ''" := by
  simp +decide [Supplies]

theorem supplies_right_iff {text : String} : Supplies (.singleton .right) text ↔ text = " ''" := by
  simp +decide [Supplies]

/-- Where a term may begin, a leaf in quotes is to be written. -/
theorem supplies_termStart_iff {text : String} : Supplies f.termStart text
    ↔ text = match f with
      | .operands => " ''"
      | .conditions => " '' = ''" := by
  cases f <;> simp +decide [Supplies]

/-- As many closing parentheses. -/
def closings (n : Nat) : String := String.ofList (List.replicate n ')')

/-! ### A condition that breaks off -/

/-- White space after a field ends it. -/
theorem fieldOperand?_append_blank {x : String} {w r v : List Char}
    (h : fieldOperand? (w ++ r) = some ⟨x, w, r⟩) :
    fieldOperand? (w ++ (r ++ ' ' :: v)) = some ⟨x, w, r ++ ' ' :: v⟩ := by
  refine conditionOperand?_append Condition.bareClass_isFieldChar h fun c hc hbare => ?_
  cases r with
  | cons d r => exact hc
  | nil =>
    obtain rfl : ' ' = c := Option.some.inj hc
    cases hbare

/-- **A condition that breaks off is completed by what it wants.** -/
theorem readCondition_supplied {cs : List Char} {expected : KindSet} (hcs : cs ≠ [])
    (h : readCondition cs = .wants expected []) :
    (∃ text, Supplies expected text) ∧ ∀ text, Supplies expected text →
      ∃ l, readCondition (cs ++ text.toList) = .read l ∧ l.rest = [] := by
  have hquoted : valueOperand? "''".toList = some ⟨"", "''".toList, []⟩ :=
    conditionOperand?_quote (u := []) ""
  cases breaksOff_of_wants h with
  | field _ hrest =>
    -- there is no text to break off in front of a field
    exact absurd hrest hcs
  | @operator left hleft _ hblank =>
    obtain ⟨x, w, r⟩ := left
    obtain rfl : cs = w ++ r := (readsFrom_of_conditionOperand? hleft).taken_append_rest.symm
    refine ⟨⟨_, supplies_comparison_iff.mpr rfl⟩, fun text htext => ?_⟩
    obtain rfl := supplies_comparison_iff.mp htext
    have hcomparison : comparison? (skipBlank (r ++ " = ''".toList))
        = some ⟨.eq, ['='], " ''".toList⟩ := by
      rw [skipBlank_append_of_blank (skipBlank_eq_nil_iff.mp hblank)]
      rfl
    rw [List.append_assoc]
    exact ⟨_, readCondition_of_parts (fieldOperand?_append_blank hleft) hcomparison hquoted, rfl⟩
  | @value left operator hleft hoperator _ hblank =>
    obtain ⟨x, w, r⟩ := left
    obtain ⟨o, t, r'⟩ := operator
    obtain rfl : cs = w ++ r := (readsFrom_of_conditionOperand? hleft).taken_append_rest.symm
    refine ⟨⟨_, supplies_right_iff.mpr rfl⟩, fun text htext => ?_⟩
    obtain rfl := supplies_right_iff.mp htext
    have hskip : skipBlank (r' ++ " ''".toList) = "''".toList := by
      rw [skipBlank_append_of_blank (skipBlank_eq_nil_iff.mp hblank)]
      rfl
    have hreads := readsFrom_of_comparison? hoperator
    obtain ⟨p, hp, hpart⟩ := hreads.exists_part (u := []) (List.append_nil r').symm
    obtain rfl : r = p := hp.trans (List.append_nil p)
    -- the operator is found again: its spelling is the same, and a quote comes after it
    have hcomparison : comparison? (skipBlank (r ++ " ''".toList))
        = some ⟨o, t, r' ++ " ''".toList⟩ := by
      rw [(hpart _).1]
      exact comparison?_written (written_of_comparison? hoperator).1 hskip
    have hvalue : valueOperand? (skipBlank (r' ++ " ''".toList)) = some ⟨"", "''".toList, []⟩ := by
      rw [hskip, hquoted]
    rw [List.append_assoc]
    exact ⟨_, readCondition_of_parts (fieldOperand?_append_blank hleft) hcomparison hvalue, rfl⟩

/-! ### The end of the text -/

theorem Ending.eq_of_error?_unclosed {ending : Ending} {input : List Char} {n : Nat}
    (h : ending.error? input = some (.unclosed n)) : ending = .unclosed n := by
  cases ending with
  | complete => cases h
  | wants expected rest => cases rest <;> cases h
  | unclosed count =>
    cases h
    rfl

theorem Ending.eq_of_error?_incomplete {ending : Ending} {input : List Char} {expected : KindSet}
    (h : ending.error? input = some (.incomplete expected)) : ending = .wants expected [] := by
  cases ending with
  | complete => cases h
  | wants expected' rest =>
    cases rest with
    | nil =>
      cases h
      rfl
    | cons c cs => cases h
  | unclosed count => cases h

namespace Reader

variable {q : Reader} {events : List (Event f.Leaf)} {cs b u : List Char} {expected : KindSet}

/-- After a term the groups that are open are all that is missing. -/
theorem error?_atEnd_done (n : Nat) (input : List Char) :
    (atEnd f .done n).error? input = if n = 0 then none else some (.unclosed n) := by
  cases n <;> rfl

/-- **More text at the end** is read from the point that was reached there. -/
theorem Reaches.run_followed (h : Reaches f k (start cs) events q) (hu : Seam u)
    (hends : q.stage = .done → Operand.Ends k.lexicon q.prev (q.rest ++ u)) :
    (start (cs ++ u)).run f k = (events ++ ((q.placed 0 (q.rest ++ u)).run f k).1,
      ((q.placed 0 (q.rest ++ u)).run f k).2) :=
  h.run_placed (List.append_nil cs).symm (List.append_nil q.rest).symm hu (.nil cs) hends 0

/-! ### Groups that are open -/

/-- **Closing parentheses close as many groups**, and the others stay open. -/
theorem run_closings (hb : ∀ c ∈ b, isBlank c = true) (j d : Nat) (prev : Option Char) :
    run f k ⟨.done, d + j, prev, b ++ List.replicate j ')'⟩
      = (List.replicate j .closeGroup, atEnd f .done d) := by
  induction j generalizing b prev with
  | zero =>
    rw [List.replicate_zero, List.append_nil]
    exact run_atEnd hb d prev
  | succ j ih =>
    -- white space is in front of the first one only
    have hnil : ∀ c ∈ ([] : List Char), isBlank c = true := List.forall_mem_nil _
    have hlater := ih hnil (some ')')
    rw [List.nil_append] at hlater
    rw [List.replicate_succ, ← Nat.add_assoc, run_close hb, hlater]
    rfl

/-- An operand ends before them, and where there are none. -/
theorem ends_closings (hq : q.ahead = []) (j : Nat) :
    Operand.Ends k.lexicon q.prev (q.rest ++ List.replicate j ')') := by
  have hb : ∀ c ∈ q.rest, isBlank c = true := skipBlank_eq_nil_iff.mp hq
  cases j with
  | zero =>
    rw [List.replicate_zero, List.append_nil]
    exact Operand.ends_of_blank hq
  | succ j =>
    exact Operand.ends_of_closeParen (v := List.replicate j ')') (skipBlank_append_of_blank hb _)

/-- **Where groups are open at the end**, closing parentheses may follow, up to their number. -/
theorem Reaches.run_closings (h : Reaches f k (start cs) events q) (hq : q.ahead = [])
    (hs : q.stage = .done) {j : Nat} (hj : j ≤ q.depth) :
    (start (cs ++ List.replicate j ')')).run f k
      = (events ++ List.replicate j .closeGroup, atEnd f .done (q.depth - j)) := by
  have hseam : Seam (List.replicate j ')') := by
    intro c hc
    obtain rfl := List.eq_of_mem_replicate (List.mem_of_mem_head? hc)
    decide
  -- of the groups that are open, `j` are to be closed
  have hplaced : q.placed 0 (q.rest ++ List.replicate j ')')
      = ⟨.done, q.depth - j + j, q.prev, q.rest ++ List.replicate j ')'⟩ := by
    rw [Nat.sub_add_cancel hj, ← hs]
    rfl
  rw [h.run_followed hseam fun _ => ends_closings hq j, hplaced,
    Reader.run_closings (skipBlank_eq_nil_iff.mp hq)]

/-! ### A token that is missing -/

/-- **What is written where a term has to come** is read as a leaf. -/
theorem exists_run_due (hq : q.ahead = []) (hs : q.stage ≠ .done) {text : String}
    (htext : Supplies f.termStart text) :
    ∃ leaf, (q.placed 0 (q.rest ++ text.toList)).run f k = ([.leaf leaf], atEnd f .done q.depth) := by
  have hb : ∀ c ∈ q.rest ++ [' '], isBlank c = true := by
    refine List.forall_mem_append.mpr ⟨skipBlank_eq_nil_iff.mp hq, ?_⟩
    exact List.forall_mem_singleton.mpr rfl
  obtain ⟨leaf, w, hw, hquoted⟩ :
      ∃ leaf w, text.toList = ' ' :: w ∧ f.ReadsQuoted k leaf w := by
    rw [supplies_termStart_iff] at htext
    obtain rfl := htext
    cases f with
    | operands => exact ⟨_, _, rfl, readsQuoted_operand ""⟩
    | conditions =>
      have hspace : ∀ c ∈ [' '], isBlank c = true := List.forall_mem_singleton.mpr rfl
      have hwritten : (Query.mk "" .eq "").Written
          ((quote "").toList ++ ([' '] ++ (['='] ++ ([' '] ++ (quote "").toList)))) :=
        .mk hspace (.last (by decide)) hspace
      exact ⟨_, _, rfl, readsQuoted_condition hwritten⟩
  -- the text ends after the leaf, where an operand ends
  refine ⟨leaf, ?_⟩
  have hrun := run_quoted (u := []) hquoted hb (Operand.ends_of_blank rfl) hs q.depth q.prev
  rw [List.append_nil, run_atEnd (List.forall_mem_nil _), List.append_assoc] at hrun
  rw [hw]
  exact hrun

/-- **What is written where a condition breaks off** completes it. -/
theorem exists_run_brokenOff {c : Char} (hs : q.stage ≠ .done) (ha : q.ahead = c :: cs)
    (hparen : c ≠ '(') (hreads : f.readLeaf k.lexicon q.behind (c :: cs) = .wants expected []) :
    (∃ text, Supplies expected text) ∧ ∀ text, Supplies expected text →
      ∃ leaf, (q.placed 0 (q.rest ++ text.toList)).run f k
        = ([.leaf leaf], atEnd f .done q.depth) := by
  cases f with
  | operands =>
    -- an operand is missing as a whole, and there is text in its place
    rw [Form.readLeaf] at hreads
    split at hreads
    · cases hreads
    · exact absurd (Reading.wants.inj hreads).2 (List.cons_ne_nil c cs)
  | conditions =>
    obtain ⟨hsome, hall⟩ := readCondition_supplied (List.cons_ne_nil c cs) hreads
    refine ⟨hsome, fun text htext => ?_⟩
    obtain ⟨l, hl, hrest⟩ := hall text htext
    obtain ⟨hahead, -, -⟩ := ahead_placed (s := []) (w := c :: cs) (List.cons_ne_nil _ _)
      (List.append_nil q.rest).symm (ha.trans (List.append_nil _).symm) 0 text.toList
    -- the condition is read from where it began before, and takes all of the text
    have hmove : Moves .conditions k (q.placed 0 (q.rest ++ text.toList)) (.leaf l.value)
        ⟨.done, q.depth, l.taken.getLast?, l.rest⟩ := .leaf hs hahead hparen hl
    refine ⟨l.value, ?_⟩
    rw [run_of_moves hmove, hrest, run_atEnd (List.forall_mem_nil _)]

/-- **Where a token is missing at the end**, the leaf that it is missing for can be completed. -/
theorem exists_run_supplied (h : q.step f k = .ends (.wants expected [])) :
    q.stage ≠ .done ∧ (∃ text, Supplies expected text) ∧ ∀ text, Supplies expected text →
      ∃ leaf, (q.placed 0 (q.rest ++ text.toList)).run f k
        = ([.leaf leaf], atEnd f .done q.depth) := by
  cases stops_of_step h with
  | noTerm hs hq =>
    have hs' : q.stage ≠ .done := by
      rw [hs]
      exact nofun
    exact ⟨hs', ⟨_, supplies_termStart_iff.mpr rfl⟩, fun _ => exists_run_due hq hs'⟩
  | noLeaf hs ha hparen hreads => exact ⟨hs, exists_run_brokenOff hs ha hparen hreads⟩

/-- What is written at the end begins with white space. -/
theorem seam_of_supplies {text : String} (h : Supplies expected text) : Seam text.toList := by
  obtain ⟨-, rfl⟩ | ⟨-, rfl⟩ | ⟨-, rfl⟩ := h <;> exact .cons (by decide) _

end Reader

/-! ### Expressions -/

/-- Reading an expression is a run from its beginning. -/
theorem readExpression_of_run {input : List Char} {events : List (Event f.Leaf)} {ending : Ending}
    (h : (Reader.start input).run f k = (events, ending)) :
    readExpression f k (String.ofList input) = ⟨events, ending.error? input⟩ := by
  rw [readExpression, String.toList_ofList, h]

/-- **An error at the end says what is missing there.**

If groups are open, their number is that of the groups opened less those closed. Fewer closing
parentheses leave the others open, and as many complete the expression.

If a token is missing, something is to be written for it (`Supplies`), and whatever that is, one leaf is
read then and nothing is missing but the parentheses of the groups that are open. -/
theorem readExpression_completed (f : Form) (k : Keywords) (input : String) :
    (∀ n, (readExpression f k input).error? = some (.unclosed n) →
        1 ≤ n
          ∧ n + (readExpression f k input).events.countP Event.closes
            = (readExpression f k input).events.countP Event.opens
          ∧ (∀ j < n, readExpression f k (input ++ closings j)
            = ⟨(readExpression f k input).events ++ List.replicate j .closeGroup,
              some (.unclosed (n - j))⟩)
          ∧ readExpression f k (input ++ closings n)
            = ⟨(readExpression f k input).events ++ List.replicate n .closeGroup, none⟩)
      ∧ ∀ expected, (readExpression f k input).error? = some (.incomplete expected) →
        (∃ text, Supplies expected text)
          ∧ ∀ text, Supplies expected text → ∃ leaf n,
            n + (readExpression f k input).events.countP Event.closes
                = (readExpression f k input).events.countP Event.opens
              ∧ readExpression f k (input ++ text)
                = ⟨(readExpression f k input).events ++ [.leaf leaf],
                  if n = 0 then none else some (.unclosed n)⟩ := by
  obtain ⟨cs, rfl⟩ : ∃ cs, input = String.ofList cs := ⟨_, String.ofList_toList.symm⟩
  obtain ⟨q, hreach, hstep⟩ := Reader.exists_reaches f k (Reader.start cs)
  obtain ⟨events, ending, hrun⟩ : ∃ events ending, (Reader.start cs).run f k = (events, ending) :=
    ⟨_, _, rfl⟩
  rw [hrun] at hreach hstep
  rw [readExpression_of_run hrun]
  -- what follows is read from the point at the end, and the groups that are open there are these
  have hcount : q.depth + events.countP Event.closes = events.countP Event.opens := by
    rw [hreach.depth_eq]
    exact Nat.zero_add _
  constructor
  · intro n herror
    obtain rfl := Ending.eq_of_error?_unclosed herror
    cases Reader.stops_of_step hstep with
    | unclosed hs hq hpos =>
      -- each parenthesis that is added closes one group
      have hclosed : ∀ j ≤ q.depth, readExpression f k (String.ofList cs ++ closings j)
          = ⟨events ++ List.replicate j .closeGroup,
            if q.depth - j = 0 then none else some (.unclosed (q.depth - j))⟩ := by
        intro j hj
        rw [closings, ← String.ofList_append, readExpression_of_run (hreach.run_closings hq hs hj),
          Reader.error?_atEnd_done]
      refine ⟨hpos, hcount, fun j hj => ?_, ?_⟩
      · rw [hclosed j (Nat.le_of_lt hj), if_neg (Nat.sub_ne_zero_of_lt hj)]
      · rw [hclosed q.depth (Nat.le_refl _), if_pos (Nat.sub_self _)]
  · intro expected herror
    obtain rfl := Ending.eq_of_error?_incomplete herror
    obtain ⟨hs, hsome, hall⟩ := Reader.exists_run_supplied hstep
    refine ⟨hsome, fun text htext => ?_⟩
    obtain ⟨leaf, hleaf⟩ := hall text htext
    -- the text that is added is one leaf, and the groups stay open
    have hend : (Reader.start (cs ++ text.toList)).run f k
        = (events ++ [.leaf leaf], Reader.atEnd f .done q.depth) := by
      rw [hreach.run_followed (Reader.seam_of_supplies htext) fun hdone => absurd hdone hs, hleaf]
    have hread := readExpression_of_run hend
    rw [String.ofList_append, String.ofList_toList, Reader.error?_atEnd_done] at hread
    exact ⟨leaf, q.depth, hcount, hread⟩

/-- Two groups that are open, and a condition in a group that breaks off after its operator. -/
theorem readExpression_completed_nested :
    (readExpression .operands .standard ("((a" ++ closings 1)).error? = some (.unclosed 1)
      ∧ readExpression .operands .standard ("((a" ++ closings 2)
        = ⟨[.openGroup, .openGroup, .leaf "a", .closeGroup, .closeGroup], none⟩
      ∧ ∃ leaf, readExpression .conditions .standard ("(x IS" ++ " ''")
        = ⟨[.openGroup, .leaf leaf], some (.unclosed 1)⟩ := by
  have hopen : (Reader.start "((a".toList).Moves .operands .standard .openGroup
      ⟨.due, 1, some '(', "(a".toList⟩ := Reader.step_eq_event_iff.mp rfl
  have hopen' : (Reader.mk .due 1 (some '(') "(a".toList).Moves .operands .standard .openGroup
      ⟨.due, 2, some '(', "a".toList⟩ := Reader.step_eq_event_iff.mp rfl
  have hleaf : (Reader.mk .due 2 (some '(') "a".toList).Moves .operands .standard (.leaf "a")
      ⟨.done, 2, some 'a', []⟩ := Reader.step_eq_event_iff.mp rfl
  -- two groups are open at the end of the text
  have hunclosed : readExpression .operands .standard "((a"
      = ⟨[.openGroup, .openGroup, .leaf "a"], some (.unclosed 2)⟩ := by
    rw [readExpression, Reader.run_of_moves hopen, Reader.run_of_moves hopen',
      Reader.run_of_moves hleaf, Reader.run_eq]
    rfl
  have hgroup : (Reader.start "(x IS".toList).Moves .conditions .standard .openGroup
      ⟨.due, 1, some '(', "x IS".toList⟩ := Reader.step_eq_event_iff.mp rfl
  -- behind `IS` the value is missing
  have hincomplete : readExpression .conditions .standard "(x IS"
      = ⟨[.openGroup], some (.incomplete (.singleton .right))⟩ := by
    rw [readExpression, Reader.run_of_moves hgroup, Reader.run_eq]
    rfl
  obtain ⟨-, -, hfewer, hall⟩ :=
    (readExpression_completed .operands .standard "((a").1 2 (by rw [hunclosed])
  obtain ⟨-, hsupplied⟩ := (readExpression_completed .conditions .standard "(x IS").2
    (.singleton .right) (by rw [hincomplete])
  obtain ⟨leaf, n, hn, hread⟩ := hsupplied " ''" (supplies_right_iff.mpr rfl)
  rw [hunclosed] at hall
  rw [hincomplete] at hn hread
  obtain rfl : n = 1 := hn
  refine ⟨?_, hall, leaf, hread⟩
  rw [hfewer 1 (by decide)]

end Junction
