import Junction.Proofs.Reading.Steps
import Junction.Tree.OfEvents

/-!
# What a handler is handed

A handler sees an expression piece by piece, while reading is under way. It makes no difference to what is
read, so its actions can be told apart from reading: they are those for the events of the run in their
order, and then the one for the error, if the run ends in one (`Reader.drive_eq`). The error is handed over
once, and nothing after it.

So a tree that is built while an expression is read is the one that is built from its events afterwards
(`parseTreeWith_eq`). Without a sink that is all (`parseTreeWith_none`); with one, an error goes there after
the last leaf, and the tree is empty (`parseTreeWith_some`).
-/

namespace Junction

variable {Leaf α : Type} {m : Type → Type} [Monad m]

namespace Reader

variable {f : Form} {k : Keywords} {r next : Reader} {h : Handler f.Leaf m} {input : List Char}

/-- The error is handed over at the step that ends the run. -/
theorem drive_of_ends {ending : Ending} (hstep : r.step f k = .ends ending) :
    r.drive f k h input = match ending.error? input with
      | none => pure (.ok ())
      | some error => h.error error := by
  rw [drive]
  split
  · rename_i hevent
    rw [hstep] at hevent
    cases hevent
  · rename_i hends
    obtain rfl := Step.ends.inj (hstep.symm.trans hends)
    rfl

/-- An event is handed over at the step that reads it. -/
theorem drive_of_moves {e : Event f.Leaf} (hmove : Moves f k r e next) :
    r.drive f k h input = (do h.event e; next.drive f k h input) := by
  have hstep := step_eq_event_iff.mpr hmove
  rw [drive]
  split
  · rename_i hevent
    obtain ⟨rfl, rfl⟩ := Step.event.inj (hstep.symm.trans hevent)
    rfl
  · rename_i hends
    rw [hstep] at hends
    cases hends

/-- **A handler is handed the events of the run in their order, and then the error**, if there is one. -/
theorem drive_eq [LawfulMonad m] (h : Handler f.Leaf m) (input : List Char) (r : Reader) :
    r.drive f k h input = (do
      forM (r.run f k).1 h.event
      match (r.run f k).2.error? input with
      | none => return .ok ()
      | some error => h.error error) := by
  refine run_induct (f := f) (k := k) (motive := fun r events ending => r.drive f k h input = (do
    forM events h.event
    match ending.error? input with
    | none => return .ok ()
    | some error => h.error error)) (fun r ending hstep => ?_)
    (fun r e next events ending hmove ih => ?_) r
  · rw [drive_of_ends hstep, List.forM_nil, pure_bind]
  · rw [drive_of_moves hmove, ih, List.forM_cons, bind_assoc]

end Reader

section Lawful

variable [LawfulMonad m] (f : Form) (k : Keywords) (input : String)

theorem handleExpression_eq (h : Handler f.Leaf m) :
    handleExpression f k h input = (do
      forM (readExpression f k input).events h.event
      match (readExpression f k input).error? with
      | none => return .ok ()
      | some error => h.error error) :=
  Reader.drive_eq h input.toList (.start input.toList)

/-! ### Trees -/

/-- **Events that are handed to the builder** are built into the draft, and do not give it up. -/
theorem TreeOptions.run_forM_event (o : TreeOptions Leaf α m) (events : List (Event Leaf)) (d : Draft α) :
    (forM events o.handler.event).run d = (do
      let built ← events.foldlM (Builder.add o.hook) d.toBuilder
      return ((), { d with toBuilder := built })) := by
  induction events generalizing d with
  | nil => rw [List.forM_nil, List.foldlM_nil, pure_bind, StateT.run_pure]
  | cons e events ih =>
    -- one event changes the builder inside the draft and nothing else
    have hevent : (o.handler.event e).run d = (do
        let built ← d.toBuilder.add o.hook e
        return ((), { d with toBuilder := built })) := by
      simp [handler]
    rw [List.forM_cons, StateT.run_bind, hevent, List.foldlM_cons, bind_assoc, bind_assoc]
    simp only [pure_bind, ih]

/-- **A tree that is built while an expression is read** is the one that its events build. An error is
passed back, or goes to the sink after the last leaf and leaves the tree empty. -/
theorem parseTreeWith_eq (o : TreeOptions f.Leaf α m) :
    parseTreeWith f k o input = (do
      let built ← (readExpression f k input).events.foldlM (Builder.add o.hook) Builder.empty
      match (readExpression f k input).error?, o.sink? with
      | none, _ => return .ok built.root
      | some error, none => return .error error
      | some error, some sink => do
        sink error
        return .ok []) := by
  rw [parseTreeWith, handleExpression_eq, StateT.run_bind, o.run_forM_event]
  simp only [bind_assoc, pure_bind]
  refine bind_congr fun built => ?_
  -- the builder is the same, and what is left is how the run ends
  cases (readExpression f k input).error? with
  | none => simp [Draft.finish, Draft.empty, Except.map]
  | some error =>
    cases hsink : o.sink? with
    | none => simp [TreeOptions.handler, hsink, Except.map]
    | some sink => simp [TreeOptions.handler, hsink, Except.map, Draft.finish]

/-- **Without a sink** it does not matter whether the tree is built while reading or afterwards. -/
theorem parseTreeWith_none (hook : f.Leaf → m α) :
    parseTreeWith f k { hook } input = parseTreeM f k hook input := by
  rw [parseTreeWith_eq, parseTreeM]
  refine bind_congr fun built => ?_
  cases (readExpression f k input).error? <;> rfl

/-- **With a sink** the tree is the same, or the error goes there and the tree is empty. -/
theorem parseTreeWith_some (hook : f.Leaf → m α) (sink : ParseError → m Unit) :
    parseTreeWith f k { hook, sink? := some sink } input = (do
      match ← parseTreeWith f k { hook } input with
      | .ok t => return .ok t
      | .error error => do
        sink error
        return .ok []) := by
  rw [parseTreeWith_eq, parseTreeWith_eq, bind_assoc]
  refine bind_congr fun built => ?_
  cases (readExpression f k input).error? with
  | none => simp only [pure_bind]
  | some error => simp only [pure_bind]

end Lawful

end Junction
