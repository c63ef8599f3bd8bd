import Junction.Proofs.Text.Trim
import Junction.Proofs.Text.Whole
import Junction.Reader

/-!
# What a step of reading can do

`Reader.Moves` says all that a step which reads an event can do: for each kind of event the stage at
which it is read, what stands in the text, and the point after it. `Reader.step_eq_event_iff` is the
inversion: a step reads an event just if it is such a move. What holds of a run is shown by cases on
its moves, and no proof opens `Reader.step` again.

White space in front of an event is skipped, so a run depends on what follows the white space and
on the character before that only (`Reader.run_blank`).
-/

namespace Junction

open Text

namespace Reader

/-- The text at which the next event is read, white space skipped. -/
def ahead (r : Reader) : List Char := skipBlank r.rest

theorem takeWhile_append_ahead (r : Reader) : r.rest.takeWhile isBlank ++ r.ahead = r.rest :=
  takeWhile_append_skipBlank r.rest

/-- The character before it. -/
def behind (r : Reader) : Option Char := prevAfterBlank r.prev r.rest

/-- Where there is no white space to skip. -/
theorem ahead_of_head {r : Reader} (h : ∀ c ∈ r.rest.head?, isBlank c = false) :
    r.ahead = r.rest ∧ r.behind = r.prev := by
  rw [ahead, behind, prevAfterBlank]
  cases hrest : r.rest with
  | nil => exact ⟨rfl, rfl⟩
  | cons c cs =>
    rw [hrest] at h
    have hc : isBlank c = false := h c rfl
    rw [skipBlank_cons hc, takeWhile_isBlank_cons hc]
    exact ⟨rfl, rfl⟩

/-- Where the text begins with no white space. -/
theorem ahead_of_cons {r : Reader} {c : Char} {cs : List Char} (hrest : r.rest = c :: cs)
    (hc : isBlank c = false) : r.ahead = c :: cs ∧ r.behind = r.prev := by
  rw [← hrest]
  refine ahead_of_head fun d hd => ?_
  rw [hrest] at hd
  rwa [← Option.some.inj hd]

/-- **A step that reads an event**, from `r` to the point after it. -/
inductive Moves (f : Form) (k : Keywords) (r : Reader) : Event f.Leaf → Reader → Prop
  | openGroup {cs : List Char} (stage : r.stage ≠ .done) (ahead : r.ahead = '(' :: cs) :
      Moves f k r .openGroup ⟨.due, r.depth + 1, some '(', cs⟩
  | leaf {l : Lexeme f.Leaf} {c : Char} {cs : List Char} (stage : r.stage ≠ .done)
      (ahead : r.ahead = c :: cs) (noGroup : c ≠ '(')
      (reads : f.readLeaf k.lexicon r.behind (c :: cs) = .read l) :
      Moves f k r (.leaf l.value) ⟨.done, r.depth, l.taken.getLast?, l.rest⟩
  | operator {o : Lexeme Operator} (stage : r.stage = .done)
      (reads : k.lexicon.operator? r.behind r.ahead = some o) :
      Moves f k r (.operator o.value) ⟨.due, r.depth, o.taken.getLast?, o.rest⟩
  | closeGroup {depth : Nat} {cs : List Char} (stage : r.stage = .done)
      (depth_eq : r.depth = depth + 1) (noOperator : k.lexicon.operator? r.behind r.ahead = none)
      (ahead : r.ahead = ')' :: cs) :
      Moves f k r .closeGroup ⟨.done, depth, some ')', cs⟩

variable {f : Form} {k : Keywords} {r next : Reader} {e : Event f.Leaf}

/-- No operator is read at the end of the text. -/
theorem operator?_nil (prev : Option Char) : k.lexicon.operator? prev [] = none := by
  cases h : k.lexicon.operator? prev [] with
  | none => rfl
  | some o => exact absurd (Keywords.readsFrom_of_operator? h).length_rest_lt (Nat.not_lt_zero _)

/-! ### The three places of a step -/

theorem step_end (ha : r.ahead = []) : r.step f k = .ends (atEnd f r.stage r.depth) := by
  unfold step
  rw [show skipBlank r.rest = [] from ha]

theorem step_term {c : Char} {cs : List Char} (hs : r.stage ≠ .done) (ha : r.ahead = c :: cs) :
    r.step f k = stepTerm f k.lexicon r.depth r.behind (c :: cs) := by
  unfold step
  rw [show skipBlank r.rest = c :: cs from ha]
  cases hr : r.stage with
  | fresh => rfl
  | due => rfl
  | done => exact absurd hr hs

theorem step_afterTerm {c : Char} {cs : List Char} (hs : r.stage = .done)
    (ha : r.ahead = c :: cs) :
    r.step f k = stepAfterTerm f.Leaf k.lexicon r.depth r.behind (c :: cs) := by
  unfold step
  rw [show skipBlank r.rest = c :: cs from ha, hs]
  rfl

/-! ### Inversion -/

theorem moves_of_stepTerm {c : Char} {cs : List Char} (hs : r.stage ≠ .done)
    (ha : r.ahead = c :: cs)
    (h : stepTerm f k.lexicon r.depth r.behind (c :: cs) = .event e next) :
    Moves f k r e next := by
  unfold stepTerm at h
  split at h
  · -- a parenthesis opens
    rename_i cs' hc
    simp only [Step.event.injEq] at h
    obtain ⟨rfl, rfl⟩ := h
    exact .openGroup hs (ha.trans hc)
  · rename_i hne
    split at h
    · -- or a leaf is read
      rename_i l hl
      simp only [Step.event.injEq] at h
      obtain ⟨rfl, rfl⟩ := h
      exact .leaf hs ha (fun hc => hne cs (by rw [hc])) hl
    · cases h

theorem moves_of_stepAfterTerm {c : Char} {cs : List Char} (hs : r.stage = .done)
    (ha : r.ahead = c :: cs)
    (h : stepAfterTerm f.Leaf k.lexicon r.depth r.behind (c :: cs) = .event e next) :
    Moves f k r e next := by
  unfold stepAfterTerm at h
  split at h
  · -- an operator is found
    rename_i o ho
    simp only [Step.event.injEq] at h
    obtain ⟨rfl, rfl⟩ := h
    exact .operator hs (ha ▸ ho)
  · rename_i ho
    split at h
    · -- or a parenthesis closes a group
      rename_i depth cs' hd hc
      simp only [Step.event.injEq] at h
      obtain ⟨rfl, rfl⟩ := h
      exact .closeGroup hs hd (ha ▸ ho) (ha.trans hc)
    · cases h

/-- **A step reads an event just if it is a move.** -/
theorem step_eq_event_iff : r.step f k = .event e next ↔ Moves f k r e next := by
  constructor
  · intro h
    cases ha : r.ahead with
    | nil =>
      rw [step_end ha] at h
      cases h
    | cons c cs =>
      by_cases hs : r.stage = .done
      · exact moves_of_stepAfterTerm hs ha (step_afterTerm hs ha ▸ h)
      · exact moves_of_stepTerm hs ha (step_term hs ha ▸ h)
  · intro h
    cases h with
    | openGroup hs ha =>
      rw [step_term hs ha]
      rfl
    | @leaf l c cs hs ha hc hl =>
      -- a parenthesis is looked for before a leaf, and is not there
      rw [step_term hs ha]
      unfold stepTerm
      split
      · rename_i cs' hcs
        exact absurd (List.cons.inj hcs).1 hc
      · rw [hl]
    | @operator o hs ho =>
      cases ha : r.ahead with
      | nil =>
        rw [ha, operator?_nil] at ho
        cases ho
      | cons c cs =>
        rw [ha] at ho
        rw [step_afterTerm hs ha]
        unfold stepAfterTerm
        rw [ho]
    | closeGroup hs hd ho ha =>
      -- an operator is looked for before the end of a group, and is not there
      rw [ha] at ho
      rw [step_afterTerm hs ha]
      unfold stepAfterTerm
      rw [ho, hd]
      rfl

/-- What is read where a term has to come and a leaf begins. -/
theorem moves_due_iff {c : Char} (hc : isBlank c = false) (hparen : c ≠ '(') (depth : Nat)
    (prev : Option Char) (cs : List Char) :
    Moves f k ⟨.due, depth, prev, c :: cs⟩ e next
      ↔ ∃ l, f.readLeaf k.lexicon prev (c :: cs) = .read l ∧ e = .leaf l.value
        ∧ next = ⟨.done, depth, l.taken.getLast?, l.rest⟩ := by
  obtain ⟨hahead, hbehind⟩ := ahead_of_cons (r := Reader.mk .due depth prev (c :: cs)) rfl hc
  -- a term is wanted and no parenthesis opens, so the move reads a leaf
  constructor
  · intro h
    cases h with
    | openGroup _ ha =>
      rw [hahead] at ha
      exact absurd (List.cons.inj ha).1 hparen
    | @leaf l d ds _ ha _ hreads =>
      rw [hahead] at ha
      rw [hbehind, ← ha] at hreads
      exact ⟨l, hreads, rfl, rfl⟩
    | operator hs _ => cases hs
    | closeGroup hs _ _ _ => cases hs
  · rintro ⟨l, hreads, rfl, rfl⟩
    refine .leaf (by exact nofun) hahead hparen ?_
    rw [hbehind]
    exact hreads

/-! ### Ends and runs -/

/-- **A step that ends the run**, and the ending. The text ends before the first event, or where a term
has to come, or after a term, outside all groups or not; or after a term no operator stands, and no
parenthesis that closes a group; or the leaf that has to come is not there. -/
inductive Stops (f : Form) (k : Keywords) (r : Reader) : Ending → Prop
  | empty (stage : r.stage = .fresh) (ahead : r.ahead = []) : Stops f k r .complete
  | noTerm (stage : r.stage = .due) (ahead : r.ahead = []) : Stops f k r (.wants f.termStart [])
  | complete (stage : r.stage = .done) (ahead : r.ahead = []) (outside : r.depth = 0) :
      Stops f k r .complete
  | unclosed (stage : r.stage = .done) (ahead : r.ahead = []) (inside : 0 < r.depth) :
      Stops f k r (.unclosed r.depth)
  | noOperator {c : Char} {cs : List Char} (stage : r.stage = .done) (ahead : r.ahead = c :: cs) :
      Stops f k r (.wants (afterTerm r.depth) (c :: cs))
  | noLeaf {c : Char} {cs u : List Char} {expected : KindSet} (stage : r.stage ≠ .done)
      (ahead : r.ahead = c :: cs) (noGroup : c ≠ '(')
      (wants : f.readLeaf k.lexicon r.behind (c :: cs) = .wants expected u) :
      Stops f k r (.wants expected u)

/-- At the end of the text it depends on the stage and on the depth. -/
theorem stops_atEnd (ha : r.ahead = []) : Stops f k r (atEnd f r.stage r.depth) := by
  -- at the end of the text the stage decides
  cases hs : r.stage with
  | fresh => exact .empty hs ha
  | due => exact .noTerm hs ha
  | done =>
    cases hd : r.depth with
    | zero => exact .complete hs ha hd
    | succ depth =>
      have hend : atEnd f .done (depth + 1) = .unclosed r.depth := by
        rw [hd]
        rfl
      rw [hend]
      exact .unclosed hs ha (hd ▸ Nat.succ_pos depth)

/-- **A step that reads no event** is such a one. -/
theorem stops_of_step {ending : Ending} (h : r.step f k = .ends ending) : Stops f k r ending := by
  cases ha : r.ahead with
  | nil =>
    rw [step_end ha] at h
    exact Step.ends.inj h ▸ stops_atEnd ha
  | cons c cs =>
    -- an operator or the end of a group is missing, or a leaf
    by_cases hs : r.stage = .done
    · rw [step_afterTerm hs ha] at h
      unfold stepAfterTerm at h
      split at h
      · cases h
      · split at h
        · cases h
        · exact Step.ends.inj h ▸ .noOperator hs ha
    · rw [step_term hs ha] at h
      unfold stepTerm at h
      split at h
      · cases h
      · rename_i hparen
        split at h
        · cases h
        · rename_i hwants
          exact Step.ends.inj h ▸ .noLeaf hs ha (fun hc => hparen cs (by rw [hc])) hwants

/-- Where a run ends, no event is read. -/
theorem not_moves_of_ends {ending : Ending} (h : r.step f k = .ends ending) : ¬ Moves f k r e next := by
  intro hm
  rw [step_eq_event_iff.mpr hm] at h
  cases h

/-- **A run that is complete ends at the end of the text**, before the first event or after a term
outside all groups. -/
theorem of_step_complete (h : r.step f k = .ends .complete) :
    r.ahead = [] ∧ (r.stage = .fresh ∨ r.stage = .done ∧ r.depth = 0) := by
  cases stops_of_step h with
  | empty hs ha => exact ⟨ha, .inl hs⟩
  | complete hs ha hd => exact ⟨ha, .inr ⟨hs, hd⟩⟩

/-- A run that begins with a move goes on from the point after it. -/
theorem run_of_moves (h : Moves f k r e next) :
    r.run f k = (e :: (next.run f k).1, (next.run f k).2) := by
  rw [run_eq, step_eq_event_iff.mpr h]

/-- **Induction along a run.** What holds at the end and is carried back over each move holds of the
run from any point. -/
theorem run_induct {motive : Reader → List (Event f.Leaf) → Ending → Prop}
    (ends : ∀ r ending, r.step f k = .ends ending → motive r [] ending)
    (moves : ∀ r e next events ending, Moves f k r e next → motive next events ending →
      motive r (e :: events) ending) (r : Reader) :
    motive r (r.run f k).1 (r.run f k).2 := by
  -- on the length of what is left to read, which every event shortens
  induction hn : r.rest.length using Nat.strongRecOn generalizing r with
  | ind n ih =>
    rw [run_eq]
    cases hstep : r.step f k with
    | ends ending => exact ends r ending hstep
    | event e next =>
      have hlt : next.rest.length < n := hn ▸ length_rest_lt_of_step hstep
      exact moves r e next _ _ (step_eq_event_iff.mp hstep) (ih _ hlt next rfl)

/-- Two points with the same step have the same run. -/
theorem run_congr {r' : Reader} (h : r.step f k = r'.step f k) : r.run f k = r'.run f k := by
  rw [run_eq, h, ← run_eq]

/-- **White space in front of an event makes no difference.** -/
theorem run_blank {b cs : List Char} (hb : ∀ c ∈ b, isBlank c = true) (stage : Stage)
    (depth : Nat) (prev : Option Char) :
    run f k ⟨stage, depth, prev, b ++ cs⟩ = run f k ⟨stage, depth, b.getLast?.or prev, cs⟩ := by
  have hskip : skipBlank (b ++ cs) = skipBlank cs := List.dropWhile_append_of_pos hb
  have hprev : prevAfterBlank prev (b ++ cs) = prevAfterBlank (b.getLast?.or prev) cs := by
    rw [prevAfterBlank, prevAfterBlank, List.takeWhile_append_of_pos hb, List.getLast?_append,
      Option.or_assoc]
  refine run_congr ?_
  unfold step
  simp only [hskip, hprev]

/-- What is read first was read by a move. -/
theorem exists_moves_of_run {events : List (Event f.Leaf)} (h : (r.run f k).1 = e :: events) :
    ∃ next, Moves f k r e next := by
  rw [run_eq] at h
  cases hstep : r.step f k with
  | ends ending =>
    rw [hstep] at h
    cases h
  | event e' next =>
    rw [hstep] at h
    obtain rfl : e' = e := (List.cons.inj h).1
    exact ⟨next, step_eq_event_iff.mp hstep⟩

/-- If something is read, it does not matter whether a term may come or has to. -/
theorem run_fresh_iff {events : List (Event f.Leaf)} {ending : Ending} (h : events ≠ [])
    (depth : Nat) (prev : Option Char) (cs : List Char) :
    run f k ⟨.fresh, depth, prev, cs⟩ = (events, ending)
      ↔ run f k ⟨.due, depth, prev, cs⟩ = (events, ending) := by
  have hahead : ∀ stage, (Reader.mk stage depth prev cs).ahead = skipBlank cs := fun _ => rfl
  cases ha : skipBlank cs with
  | nil =>
    -- at the end of the text nothing is read
    rw [run_eq, run_eq, step_end ((hahead .fresh).trans ha), step_end ((hahead .due).trans ha)]
    exact ⟨fun hf => absurd (congrArg Prod.fst hf).symm h,
      fun hd => absurd (congrArg Prod.fst hd).symm h⟩
  | cons c cs' =>
    -- a step tells the two stages apart at the end of the text only
    have hfresh : Stage.fresh ≠ .done := nofun
    have hdue : Stage.due ≠ .done := nofun
    have hstep : step f k ⟨.fresh, depth, prev, cs⟩ = step f k ⟨.due, depth, prev, cs⟩ := by
      rw [step_term (by exact hfresh) ((hahead .fresh).trans ha),
        step_term (by exact hdue) ((hahead .due).trans ha)]
      rfl
    rw [run_congr hstep]

/-! ### Parentheses and keywords -/

section Tokens

variable {b u : List Char}

/-- **A group opens** at an opening parenthesis, white space in front of it or not. -/
theorem run_open (hb : ∀ c ∈ b, isBlank c = true) {stage : Stage} (hs : stage ≠ .done) (depth : Nat)
    (prev : Option Char) : run f k ⟨stage, depth, prev, b ++ '(' :: u⟩
      = (.openGroup :: (run f k ⟨.due, depth + 1, some '(', u⟩).1,
        (run f k ⟨.due, depth + 1, some '(', u⟩).2) :=
  run_of_moves (.openGroup hs (skipBlank_append_of_blank hb _))

/-- **A group closes** at a closing parenthesis. -/
theorem run_close (hb : ∀ c ∈ b, isBlank c = true) (depth : Nat) (prev : Option Char) :
    run f k ⟨.done, depth + 1, prev, b ++ ')' :: u⟩
      = (.closeGroup :: (run f k ⟨.done, depth, some ')', u⟩).1,
        (run f k ⟨.done, depth, some ')', u⟩).2) := by
  have hahead : (Reader.mk .done (depth + 1) prev (b ++ ')' :: u)).ahead = ')' :: u :=
    skipBlank_append_of_blank hb _
  have hmove : Moves f k ⟨.done, depth + 1, prev, b ++ ')' :: u⟩ .closeGroup
      ⟨.done, depth, some ')', u⟩ := by
    -- a parenthesis is a seam, so no operator is found at it
    refine .closeGroup rfl rfl ?_ hahead
    rw [hahead]
    exact Lexicon.operator?_seam (.cons (by decide) u)
  exact run_of_moves hmove

/-- What stands before a keyword, once the white space in front of it is skipped. -/
theorem prevAfterBlank_append (hb : ∀ c ∈ b, isBlank c = true) (hu : skipBlank u = u)
    (prev : Option Char) : prevAfterBlank prev (b ++ u) = b.getLast?.or prev := by
  rw [prevAfterBlank, takeWhile_isBlank_append hb hu]

/-- **An operator is read** from its keyword in any ASCII case, where no word character stands next to
the keyword. -/
theorem operator?_written {o : Operator} {w : List Char}
    (hw : sameCaseless w (k.keyword o).toList = true) (hb : ∀ c ∈ b, isBlank c = true)
    {prev : Option Char} (hprev : (b.getLast?.or prev).any isWord = false) (hu : Seam u) :
    k.lexicon.operator? (prevAfterBlank prev (b ++ (w ++ u))) (skipBlank (b ++ (w ++ u)))
      = some ⟨o, w, u⟩ := by
  have hfound := Lexicon.operator?_keyword hw hprev hu
  -- a keyword begins with no white space
  have hskip : skipBlank (w ++ u) = w ++ u := by
    obtain ⟨c, v, hwu, hc⟩ := Lexicon.exists_cons_of_operator? hfound
    rw [hwu]
    exact skipBlank_cons (isReserved_eq_false_iff.mp hc).1 v
  rw [prevAfterBlank_append hb hskip, skipBlank_append_of_blank hb, hskip, hfound]

theorem run_keyword {o : Operator} {w : List Char}
    (hw : sameCaseless w (k.keyword o).toList = true) (hb : ∀ c ∈ b, isBlank c = true)
    {prev : Option Char} (hprev : (b.getLast?.or prev).any isWord = false) (hu : Seam u)
    (depth : Nat) : run f k ⟨.done, depth, prev, b ++ (w ++ u)⟩
      = (.operator o :: (run f k ⟨.due, depth, w.getLast?, u⟩).1,
        (run f k ⟨.due, depth, w.getLast?, u⟩).2) := by
  have hmove : Moves f k ⟨.done, depth, prev, b ++ (w ++ u)⟩ (.operator o)
      ⟨.due, depth, w.getLast?, u⟩ :=
    .operator (o := ⟨o, w, u⟩) rfl (operator?_written hw hb hprev hu)
  exact run_of_moves hmove

/-- Nothing is read from white space after a term, and the groups that are open stay so. -/
theorem run_atEnd (hb : ∀ c ∈ b, isBlank c = true) (depth : Nat) (prev : Option Char) :
    run f k ⟨.done, depth, prev, b⟩ = ([], atEnd f .done depth) := by
  have hahead : (Reader.mk .done depth prev b).ahead = [] := skipBlank_eq_nil_iff.mpr hb
  rw [run_eq, step_end hahead]

/-- Outside all groups that is the end of the expression. -/
theorem run_end (hb : ∀ c ∈ b, isBlank c = true) (prev : Option Char) :
    run f k ⟨.done, 0, prev, b⟩ = ([], .complete) := run_atEnd hb 0 prev

end Tokens

/-! ### Several steps -/

/-- A move reads its text off what is ahead, and leaves the last character of it behind. -/
theorem Moves.exists_ahead_eq (h : Moves f k r e next) :
    ∃ w, w ≠ [] ∧ r.ahead = w ++ next.rest ∧ next.prev = w.getLast? := by
  cases h with
  | openGroup _ ha => exact ⟨['('], List.cons_ne_nil _ _, ha, rfl⟩
  | leaf _ ha _ hl =>
    have hreads := Form.readsFrom_of_readLeaf hl
    exact ⟨_, hreads.taken_ne_nil, ha.trans hreads.taken_append_rest.symm, rfl⟩
  | operator _ ho =>
    have hreads := Keywords.readsFrom_of_operator? ho
    exact ⟨_, hreads.taken_ne_nil, hreads.taken_append_rest.symm, rfl⟩
  | closeGroup _ _ _ ha => exact ⟨[')'], List.cons_ne_nil _ _, ha, rfl⟩

/-- **Some moves in a row**, from `r` to `q`, and the events that they read. -/
inductive Reaches (f : Form) (k : Keywords) : Reader → List (Event f.Leaf) → Reader → Prop
  | here (r : Reader) : Reaches f k r [] r
  | move {r next q : Reader} {e : Event f.Leaf} {events : List (Event f.Leaf)}
      (first : Moves f k r e next) (later : Reaches f k next events q) :
      Reaches f k r (e :: events) q

section Reaches

variable {q : Reader} {events : List (Event f.Leaf)}

/-- **A run reaches its end** by the events that it reads. -/
theorem exists_reaches (f : Form) (k : Keywords) (r : Reader) :
    ∃ q, Reaches f k r (r.run f k).1 q ∧ q.step f k = .ends (r.run f k).2 := by
  refine run_induct (f := f) (k := k)
    (motive := fun r events ending => ∃ q, Reaches f k r events q ∧ q.step f k = .ends ending)
    (fun r ending hstep => ⟨r, .here r, hstep⟩) (fun r e next events ending hm ih => ?_) r
  obtain ⟨q, hq, hstep⟩ := ih
  exact ⟨q, .move hm hq, hstep⟩

/-- Moves after moves are moves in a row. -/
theorem Reaches.append {m : Reader} {later : List (Event f.Leaf)} (h : Reaches f k r events m)
    (hlater : Reaches f k m later q) : Reaches f k r (events ++ later) q := by
  induction h with
  | here r => exact hlater
  | move first _ ih => exact .move first (ih hlater)

/-- **A run goes on from each point that it reaches.** -/
theorem Reaches.run_eq (h : Reaches f k r events q) :
    r.run f k = (events ++ (q.run f k).1, (q.run f k).2) := by
  induction h with
  | here r => rfl
  | move first _ ih =>
    rw [run_of_moves first, ih]
    rfl

/-- What is read off the text by the moves to a point. -/
theorem Reaches.exists_rest_eq (h : Reaches f k r events q) :
    ∃ t, r.rest = t ++ q.rest ∧ q.prev = t.getLast?.or r.prev := by
  induction h with
  | here r => exact ⟨[], rfl, rfl⟩
  | @move r next q e events first later ih =>
    obtain ⟨t, hrest, hprev⟩ := ih
    obtain ⟨w, hw, hahead, hlast⟩ := first.exists_ahead_eq
    refine ⟨r.rest.takeWhile isBlank ++ w ++ t, ?_, ?_⟩
    · rw [List.append_assoc, ← hrest, List.append_assoc, ← hahead]
      exact r.takeWhile_append_ahead.symm
    · -- each move takes a character at least, and the last one is kept in mind
      have hsome : w.getLast?.isSome = true := List.getLast?_isSome.mpr hw
      rw [hprev, hlast, List.getLast?_append, List.getLast?_append, Option.or_of_isSome hsome,
        Option.or_assoc, Option.or_of_isSome hsome]

/-- After a move something has been read. -/
theorem Moves.stage_ne_fresh (h : Moves f k r e next) : next.stage ≠ .fresh := by
  cases h <;> exact nofun

theorem Reaches.stage_ne_fresh (h : Reaches f k r events q) (he : events ≠ []) :
    q.stage ≠ .fresh := by
  induction h with
  | here r => exact absurd rfl he
  | @move r next q e events first later ih =>
    cases later with
    | here => exact first.stage_ne_fresh
    | move _ _ => exact ih (List.cons_ne_nil _ _)

end Reaches

end Reader

end Junction
