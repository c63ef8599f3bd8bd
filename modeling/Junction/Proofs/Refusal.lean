import Junction.Proofs.Reading.Following

/-!
# Where an expression is refused

An expression is refused at a token that may not stand where it does. `readExpression_cut`: **the place
that the error marks is where that token begins**, and the text before it is not to blame. Read by
itself this text has the same events, and at its end it is accepted, or leaves groups open, or lacks a
token of the very kinds that the error says were expected.

The tokens before that place were read with a look at what follows them, so it has to be shown that the
cut changes none of them: see `Reader.Reaches.run_placed`. What is left to see is the last step. It ends
where a token should begin, or within a condition, after the field or the operator
(`Reader.of_step_wants`).
-/

namespace Junction

open Text

variable {f : Form} {k : Keywords}

/-! ### A leaf that is not there -/

/-- What a condition wants: a field where it begins, or else what comes next after a part of it. -/
theorem of_readCondition_wants {cs u : List Char} {expected : KindSet}
    (h : readCondition cs = .wants expected u) : (u = cs ∧ expected = Form.conditions.termStart)
      ∨ ∃ s v, s ≠ [] ∧ cs = s ++ u ∧ u = skipBlank v ∧ expected.isEmpty = false := by
  -- at the front the whole condition is missing; behind a part that was read it breaks off
  cases breaksOff_of_wants h with
  | field _ hrest => exact .inl ⟨hrest.symm, rfl⟩
  | @operator left hleft _ hrest =>
    obtain rfl := hrest
    have hfield := readsFrom_of_conditionOperand? hleft
    refine .inr ⟨left.taken ++ left.rest.takeWhile isBlank, left.rest, ?_, ?_, rfl, rfl⟩
    · exact fun hnil => hfield.taken_ne_nil (List.append_eq_nil_iff.mp hnil).1
    · rw [List.append_assoc, takeWhile_append_skipBlank, hfield.taken_append_rest]
  | @value left operator hleft hoperator _ hrest =>
    obtain rfl := hrest
    have hfield := readsFrom_of_conditionOperand? hleft
    have hcomparison := readsFrom_of_comparison? hoperator
    refine .inr ⟨left.taken ++ (left.rest.takeWhile isBlank
      ++ (operator.taken ++ operator.rest.takeWhile isBlank)), operator.rest, ?_, ?_, rfl, rfl⟩
    · exact fun hnil => hfield.taken_ne_nil (List.append_eq_nil_iff.mp hnil).1
    · simp only [List.append_assoc, takeWhile_append_skipBlank, hcomparison.taken_append_rest,
        hfield.taken_append_rest]

/-- **A leaf that is not there**: nothing of it is, or the text before what it wants lacks the same by
itself, and does not end between two word characters. -/
theorem Form.of_readLeaf_wants {prev : Option Char} {cs u : List Char} {expected : KindSet}
    (h : f.readLeaf k.lexicon prev cs = .wants expected u) : (u = cs ∧ expected = f.termStart)
      ∨ ∃ s v, s ≠ [] ∧ cs = s ++ u ∧ u = skipBlank v ∧ expected.isEmpty = false ∧ Cut s u
        ∧ f.readLeaf k.lexicon prev s = .wants expected [] := by
  cases f with
  | operands =>
    -- an operand is missing as a whole
    rw [readLeaf] at h
    split at h
    · cases h
    · obtain ⟨rfl, rfl⟩ := Reading.wants.inj h
      exact .inl ⟨rfl, rfl⟩
  | conditions =>
    refine (of_readCondition_wants h).imp_right ?_
    rintro ⟨s, v, hs, rfl, hv, hexpected⟩
    obtain ⟨hcut, hread⟩ := readCondition_cut hs h
    exact ⟨s, v, hs, rfl, hv, hexpected, hcut, hread⟩

namespace Reader

/-! ### The last step -/

section Last

variable {r : Reader} {expected : KindSet} {s u : List Char}

/-- A step that wants a token in the text: after a term, or where a leaf is not there. -/
theorem of_step_wants (h : r.step f k = .ends (.wants expected u)) (hu : u ≠ []) :
    (r.stage = .done ∧ u = r.ahead ∧ expected = afterTerm r.depth)
      ∨ (r.stage ≠ .done ∧ ∃ c cs, r.ahead = c :: cs ∧ c ≠ '('
        ∧ f.readLeaf k.lexicon r.behind (c :: cs) = .wants expected u) := by
  cases stops_of_step h with
  | noTerm _ _ => exact absurd rfl hu
  | noOperator hs ha => exact .inl ⟨hs, ha.symm, rfl⟩
  | noLeaf hs ha hparen hwants => exact .inr ⟨hs, _, _, ha, hparen, hwants⟩

/-- **What a text that is cut off comes to** where a token of the kinds `expected` is missing: it is
accepted, or leaves groups open, or wants a token of these kinds at its end. -/
inductive CutOff (expected : KindSet) : Ending → Prop
  | complete : CutOff expected .complete
  | unclosed (count : Nat) : CutOff expected (.unclosed count)
  | wants : CutOff expected (.wants expected [])

/-- **At `r` a token of the kinds `expected` is missing** before `u`, after the text `s`. -/
structure Lacks (f : Form) (k : Keywords) (r : Reader) (expected : KindSet) (s u : List Char) :
    Prop where
  rest_eq : r.rest = s ++ u
  /-- White space in front of the place has been skipped. -/
  skipped : ∃ v, u = skipBlank v
  nonempty : expected.isEmpty = false
  /-- The place is not between two word characters. -/
  cut : ∀ t, r.prev = t.getLast? → Cut (t ++ s) u
  /-- After a term nothing else stands before the place. -/
  blank : r.stage = .done → ∀ c ∈ s, isBlank c = true
  cutOff : ∃ ending, (r.placed 0 s).step f k = .ends ending ∧ CutOff expected ending

/-- Where white space comes before the place. -/
theorem lacks_ahead (hr : r.prev.any isWord = true → r.rest.head?.any isWord = false)
    (hexpected : expected.isEmpty = false) (hdue : r.stage = .due → expected = f.termStart) :
    Lacks f k r expected (r.rest.takeWhile isBlank) r.ahead := by
  have hb : ∀ c ∈ r.rest.takeWhile isBlank, isBlank c = true := isBlank_of_mem_takeWhile
  have hsplit : r.rest = r.rest.takeWhile isBlank ++ r.ahead := r.takeWhile_append_ahead.symm
  refine ⟨hsplit, ⟨r.rest, rfl⟩, hexpected, fun t ht => ?_, fun _ => hb, ?_⟩
  · refine Cut.append_blank hb ?_
    rw [← hsplit, Cut, ← ht]
    exact hr
  · -- then the text ends after that white space, which is no error of its own but where a term is due
    have hahead : (r.placed 0 (r.rest.takeWhile isBlank)).ahead = [] := skipBlank_eq_nil_iff.mpr hb
    refine ⟨_, step_end hahead, ?_⟩
    change CutOff expected (atEnd f r.stage r.depth)
    unfold atEnd
    split
    · exact .complete
    · rename_i hs
      rw [hdue hs]
      exact .wants
    · exact .complete
    · exact .unclosed _

/-- Where a part of a leaf comes before the place. -/
theorem lacks_leaf {c : Char} {cs v : List Char} (hstage : r.stage ≠ .done) (ha : r.ahead = c :: cs)
    (hparen : c ≠ '(') (hs : s ≠ []) (hcs : c :: cs = s ++ u) (hu : u = skipBlank v)
    (hexpected : expected.isEmpty = false) (hcut : Cut s u)
    (hreads : f.readLeaf k.lexicon r.behind s = .wants expected []) :
    Lacks f k r expected (r.rest.takeWhile isBlank ++ s) u := by
  have hsplit : r.rest = r.rest.takeWhile isBlank ++ s ++ u := by
    rw [List.append_assoc, ← hcs, ← ha]
    exact r.takeWhile_append_ahead.symm
  refine ⟨hsplit, ⟨v, hu⟩, hexpected, fun t _ => ?_, fun hdone => absurd hdone hstage, ?_⟩
  · rw [← List.append_assoc]
    exact hcut.append_left hs
  · -- the leaf is read from the same place, and the text ends before what it wants
    obtain ⟨d, s, rfl⟩ := List.exists_cons_of_ne_nil hs
    obtain rfl : c = d := (List.cons.inj hcs).1
    obtain ⟨hahead, hbehind, -⟩ := ahead_placed (s := []) hs hsplit (ha.trans hcs) 0 []
    simp only [List.append_nil] at hahead hbehind
    refine ⟨.wants expected [], ?_, .wants⟩
    rw [step_term (by exact hstage) hahead, hbehind]
    unfold stepTerm
    split
    · rename_i cs' hcs'
      exact absurd (List.cons.inj hcs').1 hparen
    · rw [hreads]

/-- **A step that wants a token in the text** lacks it there. -/
theorem exists_lacks (h : r.step f k = .ends (.wants expected u)) (hu : u ≠ [])
    (hr : r.prev.any isWord = true → r.rest.head?.any isWord = false) :
    ∃ s, Lacks f k r expected s u := by
  rcases of_step_wants h hu with ⟨hdone, rfl, rfl⟩ | ⟨hstage, c, cs, ha, hparen, hreads⟩
  · refine ⟨_, lacks_ahead hr ?_ ?_⟩
    · unfold afterTerm
      split <;> rfl
    · intro hdue
      rw [hdone] at hdue
      cases hdue
  · -- a leaf is missing, or breaks off inside
    rcases Form.of_readLeaf_wants hreads with ⟨rfl, rfl⟩ | ⟨s, v, hs, hcs, hv, hexpected, hcut, hend⟩
    · rw [← ha]
      refine ⟨_, lacks_ahead hr ?_ fun _ => rfl⟩
      cases f <;> rfl
    · exact ⟨_, lacks_leaf hstage ha hparen hs hcs hv hexpected hcut hend⟩

end Last

/-! ### The whole text -/

/-- Where a point has been reached, no event before it ends between two word characters. -/
theorem Reaches.apart {r q : Reader} {events : List (Event f.Leaf)} (h : Reaches f k r events q)
    (hr : r.prev.any isWord = true → r.rest.head?.any isWord = false)
    (hq : q.prev.any isWord = true) : q.rest.head?.any isWord = false := by
  induction h with
  | here r => exact hr hq
  | move first _ ih => exact ih first.apart hq

/-- **A text that is cut off where a token is missing** has the events before it, and comes to no other
error of the kind. -/
theorem exists_run_cutOff {cs u : List Char} {expected : KindSet}
    (h : ((start cs).run f k).2 = .wants expected u) (hu : u ≠ []) :
    ∃ s ending, cs = s ++ u ∧ (∃ v, u = skipBlank v) ∧ expected.isEmpty = false
      ∧ (start s).run f k = (((start cs).run f k).1, ending) ∧ CutOff expected ending := by
  obtain ⟨q, hreach, hstep⟩ := exists_reaches f k (start cs)
  rw [h] at hstep
  obtain ⟨s, hlacks⟩ := exists_lacks hstep hu (hreach.apart nofun)
  obtain ⟨ending, hends, hcutOff⟩ := hlacks.cutOff
  obtain ⟨t, hrest, hprev⟩ := hreach.exists_rest_eq
  have hcs : cs = t ++ s ++ u := by
    rw [List.append_assoc, ← hlacks.rest_eq]
    exact hrest
  -- so no word is cut in two there
  have hcut : Cut (t ++ s) u := hlacks.cut t (hprev.trans (Option.or_none))
  -- after a term nothing but white space stands in front of the place
  have hlast : q.stage = .done → Operand.Ends k.lexicon q.prev (s ++ []) := by
    intro hdone
    rw [List.append_nil]
    exact Operand.ends_of_blank (skipBlank_eq_nil_iff.mpr (hlacks.blank hdone))
  -- up to the place the run is the same, and there the text ends
  have hrun := hreach.run_placed hcs hlacks.rest_eq .nil hcut hlast 0
  rw [List.append_nil, List.append_nil] at hrun
  have hq : (q.placed 0 s).run f k = ([], ending) := by rw [run_eq, hends]
  rw [hq, List.append_nil] at hrun
  exact ⟨t ++ s, ending, hcs, hlacks.skipped, hlacks.nonempty, hrun, hcutOff⟩

end Reader

/-- An unexpected token is what a run wants another token in the place of. -/
theorem Ending.of_error?_eq_unexpected {ending : Ending} {input : List Char}
    {consumed rest : String} {expected : KindSet}
    (h : ending.error? input = some (.unexpected consumed rest expected)) :
    ∃ u, u ≠ [] ∧ ending = .wants expected u ∧ rest = String.ofList u
      ∧ ∀ s, input = s ++ u → consumed = String.ofList s := by
  unfold error? at h
  split at h
  · cases h
  · cases h
  · rename_i expected' u hu
    obtain ⟨rfl, rfl, rfl⟩ := ParseError.unexpected.inj (Option.some.inj h)
    refine ⟨u, hu, rfl, rfl, ?_⟩
    -- what is consumed is cut off by its length
    rintro s rfl
    rw [List.length_append, Nat.add_sub_cancel, List.take_left]
  · cases h

/-- **An error marks the token that is unexpected.** It is at the place `consumed.utf8ByteSize`, between
two characters of the text, and begins with no white space; at least one kind of token was expected
there. The text before it by itself has the same events. It is accepted, or leaves groups open, or is
incomplete for want of a token of the same kinds. -/
theorem readExpression_cut {input consumed rest : String} {expected : KindSet}
    (h : (readExpression f k input).error? = some (.unexpected consumed rest expected)) :
    input = consumed ++ rest
      ∧ (ParseError.unexpected consumed rest expected).position? = some consumed.utf8ByteSize
      ∧ consumed.utf8ByteSize < input.utf8ByteSize
      ∧ (∃ c later, rest.toList = c :: later ∧ isBlank c = false)
      ∧ expected.isEmpty = false
      ∧ (ParseError.unexpected consumed rest expected).message
        = "expected " ++ expected.text ++ " at position " ++ toString consumed.utf8ByteSize ++ " in '"
          ++ consumed ++ ">>>" ++ rest ++ "'"
      ∧ (readExpression f k consumed).events = (readExpression f k input).events
      ∧ ((readExpression f k consumed).error? = none
        ∨ (∃ count, (readExpression f k consumed).error? = some (.unclosed count))
        ∨ (readExpression f k consumed).error? = some (.incomplete expected)) := by
  obtain ⟨u, hu, hends, rfl, hconsumed⟩ := Ending.of_error?_eq_unexpected h
  obtain ⟨s, ending, hinput, ⟨v, hv⟩, hnonempty, hrun, hcutOff⟩ := Reader.exists_run_cutOff hends hu
  -- what is consumed is the text in front of the place
  obtain rfl := hconsumed s hinput
  obtain rfl : input = String.ofList s ++ String.ofList u := by
    rw [← String.ofList_append, ← hinput, String.ofList_toList]
  have hread : readExpression f k (String.ofList s)
      = ⟨(readExpression f k (String.ofList s ++ String.ofList u)).events, ending.error? s⟩ := by
    rw [readExpression, String.toList_ofList, hrun]
    rfl
  have hrest : String.ofList u ≠ "" := fun hnil => hu (String.ofList_eq_empty_iff.mp hnil)
  obtain ⟨c, later, rfl⟩ := List.exists_cons_of_ne_nil hu
  have hblank : isBlank c = false := isBlank_of_skipBlank_eq hv.symm
  refine ⟨rfl, rfl, ?_, ⟨c, later, String.toList_ofList, hblank⟩, hnonempty, ?_, ?_, ?_⟩
  · -- what is marked takes at least a byte
    rw [String.utf8ByteSize_append]
    have hpos : (String.ofList (c :: later)).utf8ByteSize ≠ 0 :=
      fun hzero => hrest (String.utf8ByteSize_eq_zero_iff.mp hzero)
    omega
  · -- so the message is not the one about the end of the text
    exact if_neg hrest
  · rw [hread]
  · rw [hread]
    cases hcutOff with
    | complete => exact .inl rfl
    | unclosed count => exact .inr (.inl ⟨count, rfl⟩)
    | wants => exact .inr (.inr rfl)

/-- A condition whose operator is missing. -/
theorem readExpression_cut_comparison :
    (readExpression .conditions .standard "a = 1 AND b ? 2").error?
        = some (.unexpected "a = 1 AND b " "? 2" (.singleton .comparison))
      ∧ (readExpression .conditions .standard "a = 1 AND b ").events
        = (readExpression .conditions .standard "a = 1 AND b ? 2").events := by
  have hleaf : (Reader.start "a = 1 AND b ? 2".toList).Moves .conditions .standard
      (.leaf ⟨"a", "=", "1"⟩) ⟨.done, 0, some '1', " AND b ? 2".toList⟩ :=
    Reader.step_eq_event_iff.mp rfl
  have hoperator : (Reader.mk .done 0 (some '1') " AND b ? 2".toList).Moves .conditions .standard
      (.operator .and) ⟨.due, 0, some 'D', " b ? 2".toList⟩ := Reader.step_eq_event_iff.mp rfl
  have herror : (readExpression .conditions .standard "a = 1 AND b ? 2").error?
      = some (.unexpected "a = 1 AND b " "? 2" (.singleton .comparison)) := by
    rw [readExpression, Reader.run_of_moves hleaf, Reader.run_of_moves hoperator, Reader.run_eq]
    rfl
  obtain ⟨-, -, -, -, -, -, hevents, -⟩ := readExpression_cut herror
  exact ⟨herror, hevents⟩

end Junction
