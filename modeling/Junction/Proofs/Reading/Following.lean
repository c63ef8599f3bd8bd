import Junction.Proofs.Reading.Leaves

/-!
# The text that follows

How an expression is read up to some point does not depend on the text from there on, nor on how many
groups are open around it: `Reader.Reaches.run_placed`. Two things have to hold at the point.

* It is a cut: the text before it does not end with a word character that the text after it carries on.
* If a term has just been read, an operand would end there (`Operand.Ends`): an operand is read up to
  the next operator or parenthesis, so the last one of the text before could go on otherwise.

Each move is made again at the new place (`Reader.Moves.run_placed`), with one difference: an operand
that ended before may have white space after it now, which it takes along. Of each term but the last
one the end is known, since a move was made after it (`Reader.Moves.ends_placed`).
-/

namespace Junction

open Text

variable {f : Form} {k : Keywords}

namespace Operand

/-- **An operand that has come to `cs`, after `prev`, ends there**: it goes on over white space only. -/
def Ends (lexicon : Lexicon) (prev : Option Char) (cs : List Char) : Prop :=
  run lexicon (.plain prev) cs = (cs.takeWhile isBlank, skipBlank cs)

section Ends

variable {prev : Option Char} {cs : List Char}

/-- White space is gone on with: it is no parenthesis and no quote, and no keyword begins with it. -/
theorem goesOn_of_isBlank {c : Char} (hc : isBlank c = true) :
    goesOn k.lexicon (.plain prev) c cs = true := by
  have hquote : isQuote c = false := isQuote_eq_false_of_isBlank hc
  have hparen : isParen c = false := by
    refine Bool.eq_false_iff.mpr fun hp => ?_
    rw [isParen, Bool.or_eq_true, beq_iff_eq, beq_iff_eq] at hp
    rcases hp with rfl | rfl <;> cases hc
  rw [goesOn, hparen, hquote, Lexicon.operator?_seam (.cons (isReserved_of_isBlank hc) _)]
  rfl

/-- So an operand stops before a character that is none. -/
theorem isBlank_head?_of_run {taken rest : List Char} (hne : taken ≠ [])
    (h : run k.lexicon (.plain prev) cs = (taken, rest)) : ∀ c ∈ rest.head?, isBlank c = false := by
  intro c hc
  obtain ⟨-, -, hstop⟩ := of_run hne h
  obtain ⟨v, hv⟩ := List.head?_eq_some_iff.mp hc
  refine Bool.eq_false_iff.mpr fun hblank => ?_
  have hno := hstop c v hv
  rw [goesOn_of_isBlank hblank] at hno
  cases hno

/-- And an operand goes on along white space, outside quotes. -/
theorem through_blank {b : List Char} (hb : ∀ c ∈ b, isBlank c = true) :
    Through k.lexicon cs (.plain prev) b
      ∧ (Mode.plain prev).after b = .plain (b.getLast?.or prev) := by
  induction b generalizing prev with
  | nil => exact ⟨trivial, rfl⟩
  | cons c b ih =>
    have hc : isBlank c = true := hb c List.mem_cons_self
    -- white space opens no quotes
    have hnext : (Mode.plain prev).next c = .plain (some c) := by
      rw [Mode.next, isQuote_eq_false_of_isBlank hc, if_neg Bool.false_ne_true]
    have hlast : (c :: b).getLast?.or prev = b.getLast?.or (some c) := by
      rw [List.getLast?_cons]
      cases b.getLast? <;> rfl
    obtain ⟨hthrough, hafter⟩ : Through k.lexicon cs (.plain (some c)) b ∧ _ :=
      ih fun d hd => hb d (List.mem_cons_of_mem _ hd)
    rw [Mode.after_cons, hnext, hlast]
    refine ⟨⟨goesOn_of_isBlank hc, ?_⟩, hafter⟩
    rw [hnext]
    exact hthrough

/-- An operand ends where it does not go on after the white space. -/
theorem ends_of_run (h : run k.lexicon (.plain (Reader.prevAfterBlank prev cs)) (skipBlank cs)
    = ([], skipBlank cs)) : Ends k.lexicon prev cs := by
  obtain ⟨hthrough, hafter⟩ : Through k.lexicon (skipBlank cs) (.plain prev) (cs.takeWhile isBlank)
      ∧ _ := through_blank isBlank_of_mem_takeWhile
  calc run k.lexicon (.plain prev) cs
      = run k.lexicon (.plain prev) (cs.takeWhile isBlank ++ skipBlank cs) := by
        rw [takeWhile_append_skipBlank]
    _ = (cs.takeWhile isBlank ++ (run k.lexicon (.plain (Reader.prevAfterBlank prev cs)) (skipBlank cs)).1,
          (run k.lexicon (.plain (Reader.prevAfterBlank prev cs)) (skipBlank cs)).2) := by
        rw [hthrough.run_append, hafter]
        rfl
    _ = (cs.takeWhile isBlank, skipBlank cs) := by rw [h, List.append_nil]

/-- An operand ends at the end of the text. -/
theorem ends_of_blank (h : skipBlank cs = []) : Ends k.lexicon prev cs :=
  ends_of_run (by rw [h, run_nil])

/-- An operand ends before a closing parenthesis. -/
theorem ends_of_closeParen {v : List Char} (h : skipBlank cs = ')' :: v) :
    Ends k.lexicon prev cs :=
  ends_of_run (by rw [h]; rfl)

/-- **An operand ends before an operator.** -/
theorem ends_of_operator {o : Lexeme Operator}
    (h : k.lexicon.operator? (Reader.prevAfterBlank prev cs) (skipBlank cs) = some o) :
    Ends k.lexicon prev cs := by
  refine ends_of_run ?_
  obtain ⟨c, v, hcs, hc⟩ := Lexicon.exists_cons_of_operator? h
  rw [hcs] at h ⊢
  -- a keyword begins with no quote, so it is looked for there
  have hstop : goesOn k.lexicon (.plain (Reader.prevAfterBlank prev cs)) c v = false := by
    rw [goesOn, (isReserved_eq_false_iff.mp hc).2.2, h]
    exact Bool.and_false _
  rw [run_cons, hstop]
  rfl

end Ends

end Operand

section Reads

variable {prev : Option Char} {t s u u' : List Char}

/-- **An operand that is read is read again** where another text follows, if it ends there. It takes the
white space in front of that text. -/
theorem operand?_append {x : String}
    (h : operand? k.lexicon prev (t ++ (s ++ u)) = some ⟨x, t, s ++ u⟩) (hu : Seam u')
    (hcut : Cut (t ++ s) u) (hends : Operand.Ends k.lexicon t.getLast? (s ++ u')) :
    operand? k.lexicon prev (t ++ (s ++ u'))
      = some ⟨x, t ++ (s ++ u').takeWhile isBlank, skipBlank (s ++ u')⟩ := by
  have hne := (readsFrom_of_operand? h).taken_ne_nil
  obtain ⟨hrun, hvalue⟩ := Operand.run_of_operand? h
  obtain ⟨hthrough, hend, -⟩ := Operand.of_run hne hrun
  -- the test at each character of the operand comes out as before, and after it comes white space
  have hagain : Operand.Through k.lexicon (s ++ u') (.plain prev) t := hthrough.seam hend hu hcut
  have hrun' := hagain.run_append
  rw [hend, hends] at hrun'
  have htrim : String.ofList (trimEnd (t ++ (s ++ u').takeWhile isBlank)) = x := by
    rw [trimEnd_append_of_blank isBlank_of_mem_takeWhile]
    exact hvalue.symm
  obtain ⟨c, t', rfl⟩ := List.exists_cons_of_ne_nil hne
  rw [operand?, hrun']
  exact congrArg (fun y => some (Lexeme.mk y _ _)) htrim

/-- **A leaf that is read is read again** where another text follows, if an operand would end there. It
may take white space in front of that text. -/
theorem Form.readLeaf_append {l : Lexeme f.Leaf}
    (h : f.readLeaf k.lexicon prev (l.taken ++ (s ++ u)) = .read l) (hl : l.rest = s ++ u)
    (hu : Seam u') (hcut : Cut (l.taken ++ s) u)
    (hends : Operand.Ends k.lexicon l.taken.getLast? (s ++ u')) :
    ∃ b v, s ++ u' = b ++ v ∧ (∀ c ∈ b, isBlank c = true)
      ∧ f.readLeaf k.lexicon prev (l.taken ++ (s ++ u')) = .read ⟨l.value, l.taken ++ b, v⟩ := by
  cases f with
  | conditions =>
    -- a condition takes no white space along
    refine ⟨[], s ++ u', rfl, List.forall_mem_nil _, ?_⟩
    rw [List.append_nil, ← List.append_assoc]
    rw [← List.append_assoc] at h
    exact readCondition_append hu hcut h hl
  | operands =>
    obtain ⟨x, t, r⟩ := l
    obtain rfl : r = s ++ u := hl
    -- an operand takes all that follows
    have ho := operand?_of_readLeaf h
    refine ⟨(s ++ u').takeWhile isBlank, skipBlank (s ++ u'),
      (takeWhile_append_skipBlank _).symm, isBlank_of_mem_takeWhile, ?_⟩
    rw [readLeaf, operand?_append ho hu hcut hends]

end Reads

namespace Reader

/-! ### What stands before -/

/-- Of the character before it a run sees only whether it is a word character. -/
theorem run_prev {prev prev' : Option Char} (h : prev.any isWord = prev'.any isWord) (stage : Stage)
    (depth : Nat) (cs : List Char) :
    run f k ⟨stage, depth, prev, cs⟩ = run f k ⟨stage, depth, prev', cs⟩ := by
  -- behind white space the same character stands on both sides
  have hbehind : (prevAfterBlank prev cs).any isWord = (prevAfterBlank prev' cs).any isWord := by
    rw [prevAfterBlank, prevAfterBlank]
    cases (cs.takeWhile isBlank).getLast? with
    | none => exact h
    | some c => rfl
  have hoperand : ∀ v, operand? k.lexicon (prevAfterBlank prev cs) v
      = operand? k.lexicon (prevAfterBlank prev' cs) v := by
    -- only at the first character does an operand see what stands before it
    intro v
    have hrun : Operand.run k.lexicon (.plain (prevAfterBlank prev cs)) v
        = Operand.run k.lexicon (.plain (prevAfterBlank prev' cs)) v := by
      cases v with
      | nil => rfl
      | cons c v => rw [Operand.run, Operand.run, Lexicon.operator?_congr hbehind]
    rw [operand?, operand?, hrun]
  have hleaf : ∀ v, f.readLeaf k.lexicon (prevAfterBlank prev cs) v
      = f.readLeaf k.lexicon (prevAfterBlank prev' cs) v := by
    intro v
    cases f with
    | operands => rw [Form.readLeaf, Form.readLeaf, hoperand v]
    | conditions => rfl
  refine run_congr ?_
  unfold step stepTerm stepAfterTerm
  simp only [hleaf, Lexicon.operator?_congr hbehind]

/-! ### Another place -/

/-- The same point in another place: `d` more groups are open around it, and `cs` is the text from it
on. -/
def placed (r : Reader) (d : Nat) (cs : List Char) : Reader := ⟨r.stage, r.depth + d, r.prev, cs⟩

section Placed

variable {r next q : Reader} {e : Event f.Leaf} {events : List (Event f.Leaf)}
  {t s u u' w : List Char}

/-- What is ahead of a point that is placed elsewhere, where the text up to `u` is the same. -/
theorem ahead_placed (hw : w ≠ []) (hr : r.rest = t ++ u) (ha : r.ahead = w ++ (s ++ u)) (d : Nat)
    (v : List Char) : (r.placed d (t ++ v)).ahead = w ++ (s ++ v)
      ∧ (r.placed d (t ++ v)).behind = r.behind ∧ ∃ b, t = b ++ (w ++ s) := by
  rw [ahead, hr] at ha
  obtain ⟨b, rfl, hplaced⟩ := exists_append_of_skipBlank_append hw ha
  refine ⟨(hplaced v).1, ?_, b, rfl⟩
  rw [behind, behind, prevAfterBlank, prevAfterBlank, hr, (hplaced u).2]
  rw [show (r.placed d (b ++ (w ++ s) ++ v)).rest = b ++ (w ++ s) ++ v from rfl, (hplaced v).2]
  rfl

/-- An operator that is found is found there as well. -/
theorem operator?_placed {o : Operator}
    (ho : k.lexicon.operator? r.behind r.ahead = some ⟨o, w, s ++ u⟩) (hr : r.rest = t ++ u)
    (hu : Seam u') (hcut : Cut t u) (d : Nat) :
    k.lexicon.operator? (r.placed d (t ++ u')).behind (r.placed d (t ++ u')).ahead
      = some ⟨o, w, s ++ u'⟩ := by
  have hreads := Keywords.readsFrom_of_operator? ho
  have ha : r.ahead = w ++ (s ++ u) := hreads.taken_append_rest.symm
  obtain ⟨hahead, hbehind, b, rfl⟩ := ahead_placed hreads.taken_ne_nil hr ha d u'
  rw [ha, ← List.append_assoc] at ho
  rw [hahead, hbehind, ← List.append_assoc]
  exact Lexicon.operator?_append hu hcut.of_append ho

/-- **A term that a move comes after ends** in the other place as well. -/
theorem Moves.ends_placed (hm : Moves f k r e next) (hs : r.stage = .done) (hr : r.rest = t ++ u)
    (hn : next.rest = s ++ u) (hu : Seam u') (hcut : Cut t u) :
    Operand.Ends k.lexicon r.prev (t ++ u') := by
  cases hm with
  | openGroup stage _ => exact absurd hs stage
  | leaf stage _ _ _ => exact absurd hs stage
  | closeGroup _ _ _ ha =>
    -- after a term only the end of a group or an operator is read, and an operand ends there
    obtain rfl := hn
    obtain ⟨hahead, -, -⟩ := ahead_placed (w := [')']) (List.cons_ne_nil _ _) hr ha 0 u'
    exact Operand.ends_of_closeParen hahead
  | @operator o _ ho =>
    obtain ⟨o, w, v⟩ := o
    obtain rfl : v = s ++ u := hn
    exact Operand.ends_of_operator (operator?_placed ho hr hu hcut 0)

/-- **A move is made again** in the other place. -/
theorem Moves.run_placed (hm : Moves f k r e next) (hr : r.rest = t ++ u) (hn : next.rest = s ++ u)
    (hu : Seam u') (hcut : Cut t u)
    (hends : next.stage = .done → Operand.Ends k.lexicon next.prev (s ++ u')) (d : Nat) :
    (r.placed d (t ++ u')).run f k = (e :: ((next.placed d (s ++ u')).run f k).1,
      ((next.placed d (s ++ u')).run f k).2) := by
  cases hm with
  | openGroup stage ha =>
    obtain rfl := hn
    obtain ⟨hahead, -, -⟩ := ahead_placed (w := ['(']) (List.cons_ne_nil _ _) hr ha d u'
    have hmove : Moves f k (r.placed d (t ++ u')) .openGroup
        ⟨.due, r.depth + d + 1, some '(', s ++ u'⟩ := .openGroup stage hahead
    rw [run_of_moves hmove, Nat.add_right_comm]
    rfl
  | @closeGroup depth _ stage hdepth hno ha =>
    obtain rfl := hn
    obtain ⟨hahead, -, -⟩ := ahead_placed (w := [')']) (List.cons_ne_nil _ _) hr ha d u'
    have hdepth' : (r.placed d (t ++ u')).depth = depth + d + 1 := by
      rw [placed, hdepth, Nat.add_right_comm]
    have hmove : Moves f k (r.placed d (t ++ u')) .closeGroup
        ⟨.done, depth + d, some ')', s ++ u'⟩ := by
      refine .closeGroup stage hdepth' ?_ hahead
      -- no keyword begins with a parenthesis
      rw [hahead]
      exact Lexicon.operator?_seam (.cons (by decide) _)
    exact run_of_moves hmove
  | @operator o stage ho =>
    obtain ⟨o, w, v⟩ := o
    obtain rfl : v = s ++ u := hn
    have hstage : (r.placed d (t ++ u')).stage = .done := stage
    have hmove : Moves f k (r.placed d (t ++ u')) (.operator o)
        ⟨.due, r.depth + d, w.getLast?, s ++ u'⟩ :=
      .operator hstage (operator?_placed ho hr hu hcut d)
    exact run_of_moves hmove
  | @leaf l c cs stage ha hparen hl =>
    obtain ⟨x, w, v⟩ := l
    obtain rfl : v = s ++ u := hn
    have hreads := Form.readsFrom_of_readLeaf hl
    have hw : w ≠ [] := hreads.taken_ne_nil
    have hcs : c :: cs = w ++ (s ++ u) := hreads.taken_append_rest.symm
    obtain ⟨hahead, hbehind, b, rfl⟩ := ahead_placed hw hr (ha.trans hcs) d u'
    rw [hcs] at hl
    obtain ⟨b', v', hv, hb', hread⟩ :=
      Form.readLeaf_append (l := ⟨x, w, s ++ u⟩) hl rfl hu hcut.of_append (hends rfl)
    -- the same character comes first, so it is no parenthesis here either
    obtain ⟨c', w', rfl⟩ := List.exists_cons_of_ne_nil hw
    obtain rfl : c = c' := (List.cons.inj hcs).1
    rw [← hbehind] at hread
    have hstage : (r.placed d (b ++ (c :: w' ++ s) ++ u')).stage ≠ .done := stage
    have hmove : Moves f k (r.placed d (b ++ (c :: w' ++ s) ++ u')) (.leaf x)
        ⟨.done, r.depth + d, (c :: w' ++ b').getLast?, v'⟩ :=
      .leaf hstage hahead hparen hread
    -- the white space that it takes along would be skipped after it otherwise
    have hskip : run f k ⟨.done, r.depth + d, (c :: w').getLast?, b' ++ v'⟩
        = run f k ⟨.done, r.depth + d, (c :: w' ++ b').getLast?, v'⟩ := by
      rw [run_blank hb', List.getLast?_append]
    rw [run_of_moves hmove, ← hskip, ← hv]
    rfl

/-- **How a point is reached does not depend on what follows it**, nor on the groups that are open
around. -/
theorem Reaches.run_placed (h : Reaches f k r events q) (hr : r.rest = t ++ u)
    (hq : q.rest = s ++ u) (hu : Seam u') (hcut : Cut t u)
    (hends : q.stage = .done → Operand.Ends k.lexicon q.prev (s ++ u')) (d : Nat) :
    (r.placed d (t ++ u')).run f k = (events ++ ((q.placed d (s ++ u')).run f k).1,
      ((q.placed d (s ++ u')).run f k).2) := by
  -- along the moves, with the end of the term that may stand before each of them
  have hboth : (r.stage = .done → Operand.Ends k.lexicon r.prev (t ++ u'))
      ∧ (r.placed d (t ++ u')).run f k = (events ++ ((q.placed d (s ++ u')).run f k).1,
        ((q.placed d (s ++ u')).run f k).2) := by
    induction h generalizing t with
    | here r =>
      obtain rfl : s = t := List.append_cancel_right (hq.symm.trans hr)
      exact ⟨hends, rfl⟩
    | @move r next q e events first later ih =>
      obtain ⟨w, hw, hahead, -⟩ := first.exists_ahead_eq
      obtain ⟨v, hv, -⟩ := later.exists_rest_eq
      have hn : next.rest = v ++ s ++ u := by rw [hv, hq, List.append_assoc]
      rw [hn] at hahead
      obtain ⟨-, -, b, rfl⟩ := ahead_placed hw hr hahead d u'
      have hcut' : Cut (v ++ s) u := by
        rw [← List.append_assoc] at hcut
        exact hcut.of_append
      obtain ⟨hlast, hrun⟩ := ih hn hq hcut' hends
      refine ⟨fun hs => first.ends_placed hs hr hn hu hcut, ?_⟩
      rw [first.run_placed hr hn hu hcut hlast, hrun, List.cons_append]
  exact hboth.2

end Placed

end Reader

end Junction
