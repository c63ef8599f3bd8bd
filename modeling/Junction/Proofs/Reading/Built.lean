import Junction.Proofs.Reading.Steps
import Junction.Proofs.Tree.Mapping
import Junction.Tree.OfEvents

/-!
# The tree that is read

The reader counts open groups and the builder keeps a stack of them, each on its own. Along a run the
two agree (`Builder.Fits`): there is one unfinished group on the stack for each open group, each
waits for a term, and the innermost one waits for a term or ends with one as the stage says. The
builder has also lost nothing: written out, it is the events read so far (`Builder.events`).

So the events of an expression that is accepted are those of a tree, a well-formed one
(`exists_tree_of_accepted`). Building undoes writing out, whatever the leaf hook does
(`Tree.foldlM_events`); hence `parseTree_eq_ok_iff`: **the tree of an expression is the one whose events
are read**. A hook with effects is run on the leaves of that tree from left to right
(`parseTreeM_of_events`).
-/

namespace Junction

variable {Leaf α : Type} {m : Type → Type}

/-! ### Building undoes writing out -/

section Building

variable [Monad m] [LawfulMonad m] {hook : Leaf → m α}

/-- More elements in the open group. -/
def Builder.append (b : Builder α) (t : Tree α) : Builder α :=
  { b with current := t.reverse ++ b.current }

/-- If the events of each element add it, those of a tree add all its elements. -/
theorem Tree.foldlM_events_of_mem {t : Tree Leaf}
    (h : ∀ e ∈ t, ∀ b : Builder α, e.events.foldlM (Builder.add hook) b = do
      return b.push (← e.mapM hook)) (b : Builder α) :
    t.events.foldlM (Builder.add hook) b = do return b.append (← Tree.mapM hook t) := by
  induction t generalizing b with
  | nil => simp [Tree.mapM, Builder.append]
  | cons e t ih =>
    have ht : ∀ e' ∈ t, ∀ b : Builder α, e'.events.foldlM (Builder.add hook) b = do
        return b.push (← e'.mapM hook) := fun e' he' => h e' (List.mem_cons_of_mem _ he')
    rw [Tree.events_cons, List.foldlM_append, h e List.mem_cons_self, Tree.mapM]
    simp only [bind_assoc, pure_bind, ih ht]
    -- the first element is put down, and then the others on top of it
    refine bind_congr fun e' => bind_congr fun t' => ?_
    simp [Builder.append, Builder.push]

/-- The events of an element add it, put through the hook. -/
theorem Element.foldlM_events (e : Element Leaf) (b : Builder α) :
    e.events.foldlM (Builder.add hook) b = do return b.push (← e.mapM hook) := by
  induction e using Element.induct generalizing b with
  | leaf a => simp [Element.events, Element.mapM, Builder.add]
  | operator o => simp [Element.events, Element.mapM, Builder.add]
  | group g ih =>
    have hg : (Element.group g).events = .openGroup :: (Tree.events g ++ [.closeGroup]) := rfl
    -- what is kept outside comes back when the group is closed
    rw [hg, List.foldlM_cons, Builder.add, pure_bind, List.foldlM_append,
      Tree.foldlM_events_of_mem ih, Element.mapM]
    simp only [bind_assoc, pure_bind, List.foldlM_cons, List.foldlM_nil, Builder.add]
    refine bind_congr fun g' => ?_
    simp [Builder.append, Builder.push, Builder.openGroup, Builder.closeGroup]

/-- **The events of a tree add its elements**, put through the hook. -/
theorem Tree.foldlM_events (t : Tree Leaf) (b : Builder α) :
    t.events.foldlM (Builder.add hook) b = do return b.append (← Tree.mapM hook t) :=
  Tree.foldlM_events_of_mem (fun e _ => e.foldlM_events) b

/-- An expression with the events of a tree yields this tree, put through the hook. -/
theorem parseTreeM_of_events {f : Form} {k : Keywords} {input : String} {t : Tree f.Leaf}
    {hook : f.Leaf → m α} (h : readExpression f k input = ⟨t.events, none⟩) :
    parseTreeM f k hook input = do return .ok (← Tree.mapM hook t) := by
  rw [parseTreeM, h, Tree.foldlM_events]
  simp [Builder.append, Builder.empty, Builder.root]

end Building

/-! ### The reader and the builder -/

namespace Builder

/-- One more event, its leaf as it is. -/
def take (b : Builder α) (e : Event α) : Builder α := Id.run (b.add pure e)

/-- **The events that have been built into a tree**, groups that are open not yet closed. -/
def events (b : Builder α) : List (Event α) :=
  (b.outer.reverse.flatMap fun g => Tree.events g.reverse ++ [.openGroup])
    ++ Tree.events b.current.reverse

theorem events_push (b : Builder α) (e : Element α) :
    (b.push e).events = b.events ++ e.events := by
  simp [events, push]

theorem events_openGroup (b : Builder α) : b.openGroup.events = b.events ++ [.openGroup] := by
  simp [events, openGroup]

theorem events_closeGroup {b : Builder α} (h : b.outer ≠ []) :
    b.closeGroup.events = b.events ++ [.closeGroup] := by
  obtain ⟨current, outer⟩ := b
  cases outer with
  | nil => exact absurd rfl h
  | cons around outer => simp [events, closeGroup, Element.events]

/-- The elements so far, the latest first, of a group in which a term has to come. -/
inductive Pending : List (Element α) → Prop
  | first : Pending []
  | joined {t : Tree α} (o : Operator) (h : (Element.group t).WellFormed) :
      Pending (.operator o :: t.reverse)

/-- A term puts such a group in order. -/
theorem Pending.push {kept : List (Element α)} (h : Pending kept) {e : Element α}
    (he : e.isOperator = false) (hw : e.WellFormed) :
    (Element.group (e :: kept).reverse).WellFormed := by
  cases h with
  | first =>
    -- the first term of the group
    refine .group (.term he) fun e' he' => ?_
    rw [List.mem_singleton.mp he']
    exact hw
  | @joined t o h =>
    have hrev : (e :: .operator o :: t.reverse).reverse = t ++ [.operator o, e] := by simp
    rw [hrev]
    -- a term behind an operator, so that the two go on taking turns
    refine .group (h.alternates.snoc o he) fun e' he' => ?_
    rcases List.mem_append.mp he' with he' | he'
    · exact h.of_group.inner e' he'
    · rcases List.mem_cons.mp he' with rfl | he'
      · exact .operator o
      · rw [List.mem_singleton.mp he']
        exact hw

/-- **The builder agrees with the reader** at a stage and a depth. -/
structure Fits (b : Builder α) (stage : Stage) (depth : Nat) : Prop where
  /-- One unfinished group is on the stack for each open group. -/
  depth : b.outer.length = depth
  outer : ∀ g ∈ b.outer, Pending g
  fresh : stage = .fresh → b = empty
  pending : stage ≠ .done → Pending b.current
  done : stage = .done → (Element.group b.current.reverse).WellFormed

theorem Fits.start : (empty : Builder α).Fits .fresh 0 where
  depth := rfl
  outer _ hg := absurd hg List.not_mem_nil
  fresh _ := rfl
  pending _ := .first
  done := nofun

/-- **A move keeps the agreement**, and its event is built into the tree. -/
theorem Fits.moves {f : Form} {k : Keywords} {r next : Reader} {e : Event f.Leaf}
    {b : Builder f.Leaf} (h : b.Fits r.stage r.depth) (hm : r.Moves f k e next) :
    (b.take e).Fits next.stage next.depth ∧ (b.take e).events = b.events ++ [e] := by
  cases hm with
  | openGroup hs _ =>
    -- the group around waits for the new one, which has nothing in it yet
    refine ⟨⟨congrArg (· + 1) h.depth, ?_, nofun, fun _ => .first, nofun⟩, events_openGroup b⟩
    intro g hg
    rcases List.mem_cons.mp hg with rfl | hg
    · exact h.pending hs
    · exact h.outer g hg
  | leaf hs _ _ _ =>
    exact ⟨⟨h.depth, h.outer, nofun, fun hn => absurd rfl hn,
      fun _ => (h.pending hs).push rfl (.leaf _)⟩, events_push b _⟩
  | @operator o hs _ =>
    refine ⟨⟨h.depth, h.outer, nofun, fun _ => ?_, nofun⟩, events_push b _⟩
    have hj := Pending.joined o.value (h.done hs)
    rwa [List.reverse_reverse] at hj
  | @closeGroup depth cs hs hd _ _ =>
    -- the depth is not zero, so there is a group around for the one that closes
    obtain ⟨current, outer⟩ := b
    cases outer with
    | nil => exact absurd (h.depth.trans hd) (Nat.succ_ne_zero depth).symm
    | cons around outer =>
      refine ⟨⟨?_, ?_, nofun, fun hn => absurd rfl hn, fun _ => ?_⟩,
        events_closeGroup (b := ⟨current, around :: outer⟩) (by exact List.cons_ne_nil _ _)⟩
      · exact Nat.succ.inj (h.depth.trans hd)
      · exact fun g hg => h.outer g (List.mem_cons_of_mem _ hg)
      · exact (h.outer around List.mem_cons_self).push rfl (h.done hs)

/-- **Along a run the builder agrees with the reader** and loses no event. A complete run ends before
the first event, or after a term outside all groups. -/
theorem Fits.run {f : Form} {k : Keywords} {r : Reader} {b : Builder f.Leaf}
    (h : b.Fits r.stage r.depth) :
    ((r.run f k).1.foldl take b).events = b.events ++ (r.run f k).1
      ∧ ∃ stage depth, ((r.run f k).1.foldl take b).Fits stage depth
        ∧ ((r.run f k).2 = .complete → stage = .fresh ∨ stage = .done ∧ depth = 0) := by
  -- along the run: the builder fits the reader before each move
  have hrun := Reader.run_induct (f := f) (k := k)
    (motive := fun r events ending => ∀ b : Builder f.Leaf, b.Fits r.stage r.depth →
      (events.foldl take b).events = b.events ++ events
        ∧ ∃ stage depth, (events.foldl take b).Fits stage depth
          ∧ (ending = .complete → stage = .fresh ∨ stage = .done ∧ depth = 0))
    (fun r ending hstep b h => ?_) (fun r e next events ending hm ih b h => ?_) r
  · exact hrun b h
  · refine ⟨(List.append_nil _).symm, r.stage, r.depth, h, fun hc => ?_⟩
    rw [hc] at hstep
    exact (Reader.of_step_complete hstep).2
  · -- the move keeps the agreement, and the rest of the run begins with it
    obtain ⟨hfits, hevents⟩ := h.moves hm
    obtain ⟨hlater, hends⟩ := ih _ hfits
    refine ⟨?_, hends⟩
    rw [List.foldl_cons, hlater, hevents, List.append_assoc]
    rfl

end Builder

/-! ### The tree of an expression -/

theorem Ending.error?_eq_none_iff {ending : Ending} {input : List Char} :
    ending.error? input = none ↔ ending = .complete := by
  cases ending with
  | complete => exact ⟨fun _ => rfl, fun _ => rfl⟩
  | wants expected rest => cases rest <;> exact ⟨nofun, nofun⟩
  | unclosed count => exact ⟨nofun, nofun⟩

/-- An expression is accepted with some events if the run ends with them at the end of the text. -/
theorem readExpression_eq_iff {f : Form} {k : Keywords} {input : String}
    {events : List (Event f.Leaf)} : readExpression f k input = ⟨events, none⟩
      ↔ (Reader.start input.toList).run f k = (events, .complete) := by
  rw [readExpression, Outcome.mk.injEq, Ending.error?_eq_none_iff, Prod.ext_iff]

section Parsed

variable {f : Form} {k : Keywords} {input : String}

/-- **An expression that is accepted has the events of a well-formed tree.** -/
theorem exists_tree_of_accepted (h : (readExpression f k input).error? = none) :
    ∃ t : Tree f.Leaf, t.WellFormed ∧ readExpression f k input = ⟨t.events, none⟩ := by
  have hc : ((Reader.start input.toList).run f k).2 = .complete :=
    Ending.error?_eq_none_iff.mp h
  obtain ⟨hevents, stage, depth, hfits, hends⟩ :=
    (Builder.Fits.start : (Builder.empty : Builder f.Leaf).Fits .fresh 0).run
      (r := Reader.start input.toList) (k := k)
  generalize ((Reader.start input.toList).run f k).1.foldl Builder.take Builder.empty = b
    at hevents hfits
  have hread : ∀ t : Tree f.Leaf, ((Reader.start input.toList).run f k).1 = t.events →
      readExpression f k input = ⟨t.events, none⟩ := by
    intro t ht
    rw [← h, ← ht]
    rfl
  rcases hends hc with hs | ⟨hs, hd⟩
  · -- no event has been read
    refine ⟨[], .nil, hread [] ?_⟩
    rw [hfits.fresh hs] at hevents
    exact hevents.symm
  · -- at depth zero no group is open, so all the events are those of the outermost one
    refine ⟨b.current.reverse, (hfits.done hs).of_group, hread _ ?_⟩
    have hout : b.outer = [] := List.length_eq_zero_iff.mp (hfits.depth.trans hd)
    rw [Builder.events, hout] at hevents
    exact hevents.symm

/-- **The tree of an expression** is the one whose events are read. -/
theorem parseTree_eq_ok_iff {t : Tree f.Leaf} :
    parseTree f k input = .ok t ↔ readExpression f k input = ⟨t.events, none⟩ := by
  -- a tree is built from the events that write it
  have hof : ∀ t' : Tree f.Leaf, readExpression f k input = ⟨t'.events, none⟩ →
      parseTree f k input = .ok t' := by
    intro t' ht'
    rw [parseTree, parseTreeM_of_events ht', Tree.mapM_pure]
    rfl
  refine ⟨fun h => ?_, hof t⟩
  cases herr : (readExpression f k input).error? with
  | none =>
    -- an accepted text has such a tree, and no other is built from it
    obtain ⟨t', -, ht'⟩ := exists_tree_of_accepted herr
    rw [hof t' ht'] at h
    rwa [← Except.ok.inj h]
  | some error =>
    rw [parseTree, parseTreeM, Id.run_bind, herr] at h
    cases h

/-- A tree that is read is well formed. -/
theorem wellFormed_of_parseTree {t : Tree f.Leaf} (h : parseTree f k input = .ok t) :
    t.WellFormed := by
  have hread := parseTree_eq_ok_iff.mp h
  obtain ⟨t', hw, ht'⟩ := exists_tree_of_accepted (congrArg Outcome.error? hread)
  obtain rfl : t = t' := Except.ok.inj (h.symm.trans (parseTree_eq_ok_iff.mpr ht'))
  exact hw

/-- **A tree that is read with a leaf hook is well formed**, also where the hook keeps a state. -/
theorem wellFormed_of_parseTreeM {σ : Type} {hook : f.Leaf → StateM σ α} {s : σ} {t : Tree α}
    (h : ((parseTreeM f k hook input).run s).1 = .ok t) : t.WellFormed := by
  cases herr : (readExpression f k input).error? with
  | none =>
    obtain ⟨t', hw, ht'⟩ := exists_tree_of_accepted herr
    rw [parseTreeM_of_events ht'] at h
    obtain rfl := Except.ok.inj h
    exact hw.mapM_run s
  | some error =>
    rw [parseTreeM, herr] at h
    cases h

end Parsed

end Junction
