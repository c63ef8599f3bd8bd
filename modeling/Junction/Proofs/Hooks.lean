import Junction.Proofs.Reading.Handled
import Junction.Proofs.RoundTrip

/-!
# Leaf hooks and error sinks

A tree may be built with a leaf hook, which keeps a state, and with a sink for errors. Neither changes what
is read.

* `parseTreeWith_hook`: a hook is run on the leaves in their order, each once, and makes of the tree the one
  of the same shape with its answers for leaves. If the expression is refused, it has been run on the leaves
  read before;
* `parseTreeWith_sink`: with a sink there always is a tree. The sink is told of the error that there is
  without it, once and after all the leaves, and then the tree is empty; otherwise nothing is different.

Leaves are put through the hook in the order of the events, while a group goes into the tree only when it
closes. That the two orders are one is `Tree.mapM_leaves`; and that no error is passed over or told twice is
`Reader.drive_eq`, for whatever the handler does, the run is over at the first error.
-/

namespace Junction

variable {Leaf α β ρ : Type} {m : Type → Type}

section Running

variable [Monad m] [LawfulMonad m]

/-- **The hook is run on the leaves among the events**, whatever becomes of what is built. -/
theorem Builder.foldlM_add_bind (hook : Leaf → m α) (events : List (Event Leaf)) (b : Builder α)
    (x : m β) : (events.foldlM (Builder.add hook) b >>= fun _ => x)
      = ((events.filterMap Event.leaf?).mapM hook >>= fun _ => x) := by
  induction events generalizing b with
  | nil => rw [List.foldlM_nil, List.filterMap_nil, List.mapM_nil, pure_bind, pure_bind]
  | cons e events ih =>
    rw [List.foldlM_cons, bind_assoc]
    -- no event but a leaf runs the hook
    cases e with
    | openGroup => exact (pure_bind _ _).trans (ih _)
    | closeGroup => exact (pure_bind _ _).trans (ih _)
    | operator o => exact (pure_bind _ _).trans (ih _)
    | leaf a =>
      have hleaves : (Event.leaf a :: events).filterMap Event.leaf?
          = a :: events.filterMap Event.leaf? := rfl
      rw [hleaves, List.mapM_cons, add, bind_assoc, bind_assoc]
      simp only [pure_bind, bind_assoc, ih]

/-- A further state that the hook leaves alone is not changed by building. -/
theorem Builder.run_foldlM_add_lift (hook : Leaf → m α) (events : List (Event Leaf)) (b : Builder α)
    (r : ρ) : (events.foldlM (Builder.add fun a => (StateT.lift (hook a) : StateT ρ m α)) b).run r
      = (do return (← events.foldlM (Builder.add hook) b, r)) := by
  induction events generalizing b with
  | nil => rw [List.foldlM_nil, List.foldlM_nil, StateT.run_pure, pure_bind]
  | cons e events ih =>
    rw [List.foldlM_cons, List.foldlM_cons, StateT.run_bind, bind_assoc]
    cases e with
    | openGroup => simp [add, ih]
    | closeGroup => simp [add, ih]
    | operator o => simp [add, ih]
    | leaf a => simp [add, ih]

variable {f : Form} {k : Keywords} {input : String}

/-- The hook of an expression that is refused is run on the leaves before the error. -/
theorem parseTreeWith_of_error {error : ParseError} (h : (readExpression f k input).error? = some error)
    (hook : f.Leaf → m α) : parseTreeWith f k { hook } input = (do
      let _ ← ((readExpression f k input).events.filterMap Event.leaf?).mapM hook
      return .error error) := by
  rw [parseTreeWith_eq]
  simp only [h]
  exact Builder.foldlM_add_bind hook _ _ _

theorem run_parseTreeWith_lift (hook : f.Leaf → m α) (r : ρ) :
    (parseTreeWith f k { hook := fun a => (StateT.lift (hook a) : StateT ρ m α) } input).run r
      = (do return (← parseTreeWith f k { hook } input, r)) := by
  rw [parseTreeWith_eq, parseTreeWith_eq, StateT.run_bind, Builder.run_foldlM_add_lift]
  simp only [bind_assoc, pure_bind]
  refine bind_congr fun built => ?_
  cases (readExpression f k input).error? <;> simp

end Running

/-- An expression has no tree just if it is refused, with the same error. -/
theorem parseTree_eq_error_iff {f : Form} {k : Keywords} {input : String} {error : ParseError} :
    parseTree f k input = .error error ↔ (readExpression f k input).error? = some error := by
  rw [parseTree, parseTreeM, Id.run_bind]
  cases (readExpression f k input).error? with
  | none =>
    constructor
    · intro h
      cases h
    · intro h
      cases h
  | some error' =>
    constructor
    · intro h
      exact congrArg some (Except.error.inj h)
    · intro h
      exact congrArg Except.error (Option.some.inj h)

/-- **A leaf hook maps the leaves.** Let the hook be put on the leaves of the tree in their order, each of
them once. This gives its answers, and the state that it is left in. Then so does reading the expression
with the hook, and the result is the tree with the answers for leaves: the one with the same operators and
groups and these leaves. If the expression is refused, so it is with the hook, for the same reason, and the
hook has been run on the leaves that were read before. -/
theorem parseTreeWith_hook (f : Form) (k : Keywords) (input : String) {α σ : Type}
    (hook : f.Leaf → StateM σ α) (s : σ) :
    (∀ t, parseTree f k input = .ok t → ∃ u : Tree α,
        (parseTreeWith f k { hook } input).run s = (.ok u, ((t.leaves.mapM hook).run s).2)
          ∧ u.shape = t.shape ∧ u.leaves = ((t.leaves.mapM hook).run s).1
          ∧ ∀ u' : Tree α, u'.shape = t.shape → u'.leaves = u.leaves → u' = u)
      ∧ ∀ error, parseTree f k input = .error error →
        (parseTreeWith f k { hook } input).run s
          = (.error error,
            ((((readExpression f k input).events.filterMap Event.leaf?).mapM hook).run s).2) := by
  constructor
  · intro t ht
    have hparse : parseTreeWith f k { hook } input = (do return .ok (← Tree.mapM hook t)) := by
      rw [parseTreeWith_none, parseTreeM_of_events (parseTree_eq_ok_iff.mp ht)]
    -- the leaves are put through the hook in the order of the tree
    have hleaves : (t.leaves.mapM hook).run s
        = (do return (← Tree.mapM hook t).leaves : StateM σ (List α)).run s :=
      congrArg (StateT.run · s) (Tree.mapM_leaves t)
    have hshape : ((Tree.mapM hook t).run s).1.shape = t.shape := t.shape_mapM_run s
    refine ⟨((Tree.mapM hook t).run s).1, ?_, hshape, (congrArg Prod.fst hleaves).symm,
      fun u' hu' hl => Tree.eq_of_shape_eq (hu'.trans hshape.symm) hl⟩
    rw [hparse, hleaves]
    rfl
  · intro error herror
    rw [parseTreeWith_of_error (parseTree_eq_error_iff.mp herror)]
    rfl

/-- Numbers the leaves that it is put on. -/
def numbered {Leaf : Type} (a : Leaf) : StateM Nat (Nat × Leaf) := modifyGet fun n => ((n, a), n + 1)

/-- An expression that ends in an open group. -/
theorem readExpression_unclosed : readExpression .operands .standard "a AND (b"
    = ⟨[.leaf "a", .operator .and, .openGroup, .leaf "b"], some (.unclosed 1)⟩ := by
  have hleaf : (Reader.start "a AND (b".toList).Moves .operands .standard (.leaf "a")
      ⟨.done, 0, some ' ', "AND (b".toList⟩ := Reader.step_eq_event_iff.mp rfl
  have hand : (Reader.mk .done 0 (some ' ') "AND (b".toList).Moves .operands .standard (.operator .and)
      ⟨.due, 0, some 'D', " (b".toList⟩ := Reader.step_eq_event_iff.mp rfl
  have hopen : (Reader.mk .due 0 (some 'D') " (b".toList).Moves .operands .standard .openGroup
      ⟨.due, 1, some '(', "b".toList⟩ := Reader.step_eq_event_iff.mp rfl
  have hleaf' : (Reader.mk .due 1 (some '(') "b".toList).Moves .operands .standard (.leaf "b")
      ⟨.done, 1, some 'b', []⟩ := Reader.step_eq_event_iff.mp rfl
  rw [readExpression, Reader.run_of_moves hleaf, Reader.run_of_moves hand, Reader.run_of_moves hopen,
    Reader.run_of_moves hleaf', Reader.run_eq]
  rfl

/-- The leaves of a group are numbered after those in front of it, also if the group is never closed. -/
theorem parseTreeWith_hook_nested :
    parseTree .operands .standard "a AND (b OR c)"
        = .ok [.leaf "a", .operator .and, .group [.leaf "b", .operator .or, .leaf "c"]]
      ∧ (parseTreeWith .operands .standard { hook := numbered } "a AND (b OR c)").run 0
        = (.ok [.leaf (0, "a"), .operator .and,
          .group [.leaf (1, "b"), .operator .or, .leaf (2, "c")]], 3)
      ∧ parseTree .operands .standard "a AND (b" = .error (.unclosed 1)
      ∧ (parseTreeWith .operands .standard { hook := numbered } "a AND (b").run 0
        = (.error (.unclosed 1), 2) := by
  have hparse : parseTree .operands .standard (Form.operands.render
      [.leaf "a", .operator .and, .group [.leaf "b", .operator .or, .leaf "c"]])
      = .ok [.leaf "a", .operator .and, .group [.leaf "b", .operator .or, .leaf "c"]] :=
    parseTree_render_operands (by decide) (by decide)
  rw [show Form.operands.render [.leaf "a", .operator .and, .group [.leaf "b", .operator .or,
    .leaf "c"]] = "a AND (b OR c)" from rfl] at hparse
  have herror : parseTree .operands .standard "a AND (b" = .error (.unclosed 1) :=
    parseTree_eq_error_iff.mpr (congrArg Outcome.error? readExpression_unclosed)
  obtain ⟨u, hrun, -, hleaves, hunique⟩ :=
    (parseTreeWith_hook .operands .standard "a AND (b OR c)" numbered 0).1 _ hparse
  have hrefused := (parseTreeWith_hook .operands .standard "a AND (b" numbered 0).2 _ herror
  rw [readExpression_unclosed] at hrefused
  -- one tree only has this shape and these leaves
  obtain rfl := hunique
    [.leaf (0, "a"), .operator .and, .group [.leaf (1, "b"), .operator .or, .leaf (2, "c")]] rfl
    (by rw [hleaves]; rfl)
  exact ⟨hparse, hrun, herror, hrefused⟩

/-! ### Sinks -/

/-- The sink that keeps a list of what it is told, beside any other state. -/
def report [Monad m] (error : ParseError) : StateT (List ParseError) m Unit :=
  modify fun reported => reported ++ [error]

/-- **An error sink changes only the reporting.** With a sink there always is a tree. If there is one
without it, it is the same, and the sink is not told of anything. If there is an error without it, the sink
is told of this error, once, after all that the hook does; and the tree is empty. So a sink that keeps a
list is left with one error at most, the one that there is without it. -/
theorem parseTreeWith_sink (f : Form) (k : Keywords) (input : String) {α σ : Type}
    (hook : f.Leaf → StateM σ α) (s : σ) :
    let plain := (parseTreeWith f k { hook } input).run s
    (∀ sink : ParseError → StateM σ Unit,
        (parseTreeWith f k { hook, sink? := some sink } input).run s
          = match plain with
            | (.ok t, s') => (.ok t, s')
            | (.error error, s') => (.ok [], ((sink error).run s').2))
      ∧ ∃ (t : Tree α) (reported : List ParseError),
        ((parseTreeWith f k { hook := fun a => StateT.lift (hook a), sink? := some report } input).run
            []).run s = ((.ok t, reported), plain.2)
          ∧ reported.length ≤ 1
          ∧ (∀ error, error ∈ reported ↔ plain.1 = .error error)
          ∧ (reported ≠ [] → t = [])
          ∧ (reported = [] → plain.1 = .ok t) := by
  intro plain
  obtain ⟨x, s', hplain⟩ : ∃ x s', plain = (x, s') := ⟨_, _, rfl⟩
  have hrun : (parseTreeWith f k { hook } input).run s = (x, s') := hplain
  rw [hplain]
  constructor
  · intro sink
    rw [parseTreeWith_some, StateT.run_bind, hrun]
    cases x <;> rfl
  · rw [parseTreeWith_some, StateT.run_bind, run_parseTreeWith_lift]
    simp only [bind_assoc, pure_bind, StateT.run_bind, hrun]
    -- the error goes to the sink, once, after all that the hook did
    cases x with
    | ok t =>
      exact ⟨t, [], rfl, Nat.zero_le _, fun _ => ⟨nofun, nofun⟩, fun h => absurd rfl h, fun _ => rfl⟩
    | error error =>
      have hmem : ∀ e, e ∈ [error] ↔ (Except.error error : Except ParseError (Tree α)) = .error e := by
        intro e
        rw [List.mem_singleton, Except.error.injEq, eq_comm]
      exact ⟨[], [error], rfl, Nat.le_refl _, hmem, fun _ => rfl, nofun⟩

/-- Two leaves have been numbered when the error comes up, and the tree that was built is given up. -/
theorem parseTreeWith_sink_unclosed :
    (parseTreeWith .operands .standard { hook := numbered, sink? := some fun _ => modify (· + 10) }
      "a AND (b").run 0 = (.ok [], 12) := by
  have herror := congrArg Outcome.error? readExpression_unclosed
  rw [(parseTreeWith_sink .operands .standard "a AND (b" numbered 0).1, parseTreeWith_of_error herror,
    readExpression_unclosed]
  rfl

end Junction
