import Junction.Proofs.Reading.Built

/-!
# Groups that are open

The reader counts the groups that are open, and the builder keeps one unfinished group on its stack for
each of them. Neither looks at the other. The reader lets a group close only if its count is not zero;
the builder passes over a close if its stack is empty, which would lose the event.

`readExpression_groups`: **on every run, also one that fails, the two agree after each event**, and both
are the groups opened so far less those closed. So the builder passes over no close, and where the run
is accepted the tree that it has built is the sequence of events, read back.

The agreement is kept by each move of the reader (`Reader.Moves.depth_eq`, `Reader.Moves.length_outer`),
and so along every row of moves. A leaf hook may do to leaves what it likes, for no leaf is on the stack.
-/

namespace Junction

variable {Leaf α σ : Type} {f : Form} {k : Keywords}

namespace Event

/-- The event opens a group. -/
def opens : Event Leaf → Bool
  | openGroup => true
  | _ => false

/-- The event closes a group. -/
def closes : Event Leaf → Bool
  | closeGroup => true
  | _ => false

end Event

namespace Reader

variable {r next q : Reader} {e : Event f.Leaf} {events : List (Event f.Leaf)}

/-! ### The count -/

/-- A move counts the group that it opens or closes. -/
theorem Moves.depth_eq (h : Moves f k r e next) :
    next.depth + [e].countP Event.closes = r.depth + [e].countP Event.opens := by
  cases h with
  | openGroup _ _ => rfl
  | leaf _ _ _ _ => rfl
  | operator _ _ => rfl
  | closeGroup _ hdepth _ _ => exact hdepth.symm

/-- **The count of open groups** changes along a run by the groups opened less those closed. -/
theorem Reaches.depth_eq (h : Reaches f k r events q) :
    q.depth + events.countP Event.closes = r.depth + events.countP Event.opens := by
  induction h with
  | here r => rfl
  | @move r next q e events first _ ih =>
    have hfirst := first.depth_eq
    rw [← List.singleton_append, List.countP_append, List.countP_append]
    omega

/-- On the way to a point each of the events before it leads to a point. -/
theorem Reaches.exists_of_append {before after : List (Event f.Leaf)}
    (h : Reaches f k r (before ++ after) q) :
    ∃ m, Reaches f k r before m ∧ Reaches f k m after q := by
  induction before generalizing r with
  | nil => exact ⟨r, .here r, h⟩
  | cons e before ih =>
    cases h with
    | move first later =>
      obtain ⟨m, hm, hafter⟩ := ih later
      exact ⟨m, .move first hm, hafter⟩

/-- The last event of a run was read by a move to its end. -/
theorem Reaches.exists_last (h : Reaches f k r events q) (he : events.getLast? = some e) :
    ∃ m, Moves f k m e q := by
  obtain ⟨before, rfl⟩ := List.getLast?_eq_some_iff.mp he
  obtain ⟨m, -, hlast⟩ := h.exists_of_append
  cases hlast with
  | move first later =>
    cases later with
    | here => exact ⟨m, first⟩

/-! ### The stack -/

variable {hook : f.Leaf → StateM σ α} {b : Builder α}

/-- **A move keeps the stack of the builder as high as the count**, whatever the hook makes of a leaf. -/
theorem Moves.length_outer (h : Moves f k r e next) (hb : b.outer.length = r.depth) (s : σ) :
    ((b.add hook e).run s).1.outer.length = next.depth := by
  cases h with
  | openGroup _ _ => exact congrArg (· + 1) hb
  | leaf _ _ _ _ => exact hb
  | operator _ _ => exact hb
  | closeGroup _ hdepth _ _ =>
    -- the count is not zero, so there is a group on the stack to take the closed one
    obtain ⟨current, outer⟩ := b
    cases outer with
    | nil => exact absurd (hb.trans hdepth) (Nat.succ_ne_zero _).symm
    | cons around outer => exact Nat.succ.inj (hb.trans hdepth)

/-- So it stays along a run. -/
theorem Reaches.length_outer (h : Reaches f k r events q) (hb : b.outer.length = r.depth) (s : σ) :
    ((events.foldlM (Builder.add hook) b).run s).1.outer.length = q.depth := by
  induction h generalizing b s with
  | here r => exact hb
  | move first _ ih =>
    rw [List.foldlM_cons, StateT.run_bind]
    exact ih (first.length_outer hb s) _

end Reader

/-- **The tree under construction** after some events, their leaves put through a hook that keeps a
state. -/
def Builder.after (hook : Leaf → StateM σ α) (s : σ) (events : List (Event Leaf)) : Builder α :=
  ((events.foldlM (Builder.add hook) Builder.empty).run s).1

/-- **The tree and the events agree.** An expression that is accepted has a tree, and written out this is
the events that were read. And on every run, after each event: the builder has as many unfinished groups
on its stack as the reader has counted, these are the groups opened less those closed, and if a group
closes next there is one to be closed, for the reader and for the builder. -/
theorem readExpression_groups (f : Form) (k : Keywords) (input : String) :
    ((readExpression f k input).error? = none →
        ∃ t, parseTree f k input = .ok t ∧ t.events = (readExpression f k input).events)
      ∧ ∀ {α σ : Type} (hook : f.Leaf → StateM σ α) (s : σ) (before after : List (Event f.Leaf)),
        (readExpression f k input).events = before ++ after →
          ∃ r, (Reader.start input.toList).Reaches f k before r
            ∧ (Builder.after hook s before).outer.length = r.depth
            ∧ r.depth + before.countP Event.closes = before.countP Event.opens
            ∧ ∀ later, after = .closeGroup :: later →
              0 < r.depth ∧ (Builder.after hook s before).outer ≠ [] := by
  constructor
  · intro haccepted
    -- the tree that is built writes the events again
    obtain ⟨t, -, hread⟩ := exists_tree_of_accepted haccepted
    exact ⟨t, parseTree_eq_ok_iff.mpr hread, (congrArg Outcome.events hread).symm⟩
  · intro α σ hook s before after hsplit
    obtain ⟨q, hreach, -⟩ := Reader.exists_reaches f k (Reader.start input.toList)
    rw [show ((Reader.start input.toList).run f k).1 = before ++ after from hsplit] at hreach
    obtain ⟨r, hbefore, hafter⟩ := hreach.exists_of_append
    -- for each open group the elements outside it are kept
    have hstack : (Builder.after hook s before).outer.length = r.depth :=
      hbefore.length_outer (b := Builder.empty) rfl s
    have hcount := hbefore.depth_eq
    rw [show (Reader.start input.toList).depth = 0 from rfl, Nat.zero_add] at hcount
    refine ⟨r, hbefore, hstack, hcount, ?_⟩
    rintro later rfl
    -- the next move closes a group, and before such a move the count is not zero
    have hpos : 0 < r.depth := by
      cases hafter with
      | move first _ =>
        have hfirst := first.depth_eq
        change _ + 1 = _ + 0 at hfirst
        omega
    refine ⟨hpos, fun hnil => ?_⟩
    rw [hnil] at hstack
    exact absurd hstack.symm (Nat.ne_of_gt hpos)

/-- A group that is accepted, and the same group where a term is missing after it. -/
theorem readExpression_groups_single :
    (∃ t, parseTree .operands .standard "(a)" = .ok t
        ∧ t.events = [.openGroup, .leaf "a", .closeGroup])
      ∧ (readExpression .operands .standard "(a) AND").error?
        = some (.incomplete Form.operands.termStart)
      ∧ (Builder.after (pure : String → StateM Unit String) () [.openGroup, .leaf "a"]).outer ≠ [] := by
  -- the group is read by the same moves, whatever follows it
  have hopen : ∀ u, (Reader.start ('(' :: 'a' :: ')' :: u)).Moves .operands .standard .openGroup
      ⟨.due, 1, some '(', 'a' :: ')' :: u⟩ := fun _ => Reader.step_eq_event_iff.mp rfl
  have hleaf : ∀ u, (Reader.mk .due 1 (some '(') ('a' :: ')' :: u)).Moves .operands .standard
      (.leaf "a") ⟨.done, 1, some 'a', ')' :: u⟩ := fun _ => Reader.step_eq_event_iff.mp rfl
  have hclose : ∀ u, (Reader.mk .done 1 (some 'a') (')' :: u)).Moves .operands .standard
      .closeGroup ⟨.done, 0, some ')', u⟩ := fun _ => Reader.step_eq_event_iff.mp rfl
  have hoperator : (Reader.mk .done 0 (some ')') " AND".toList).Moves .operands .standard
      (.operator .and) ⟨.due, 0, some 'D', []⟩ := Reader.step_eq_event_iff.mp rfl
  have haccepted : readExpression .operands .standard "(a)"
      = ⟨[.openGroup, .leaf "a", .closeGroup], none⟩ := by
    rw [readExpression, show "(a)".toList = '(' :: 'a' :: ')' :: [] from rfl,
      Reader.run_of_moves (hopen []), Reader.run_of_moves (hleaf []),
      Reader.run_of_moves (hclose []), Reader.run_eq]
    rfl
  have hrefused : readExpression .operands .standard "(a) AND"
      = ⟨[.openGroup, .leaf "a", .closeGroup, .operator .and],
        some (.incomplete Form.operands.termStart)⟩ := by
    rw [readExpression, show "(a) AND".toList = '(' :: 'a' :: ')' :: " AND".toList from rfl,
      Reader.run_of_moves (hopen _), Reader.run_of_moves (hleaf _),
      Reader.run_of_moves (hclose _), Reader.run_of_moves hoperator, Reader.run_eq]
    rfl
  obtain ⟨t, hparse, hevents⟩ :=
    (readExpression_groups .operands .standard "(a)").1 (by rw [haccepted])
  obtain ⟨r, -, -, -, hlater⟩ := (readExpression_groups .operands .standard "(a) AND").2
    (pure : String → StateM Unit String) () [.openGroup, .leaf "a"] [.closeGroup, .operator .and]
    (by rw [hrefused]; rfl)
  exact ⟨⟨t, hparse, by rw [hevents, haccepted]⟩, by rw [hrefused], (hlater _ rfl).2⟩

end Junction
