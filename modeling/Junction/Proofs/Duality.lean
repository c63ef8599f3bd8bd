import Junction.Proofs.Composition
import Junction.Proofs.Reading.Swapped

/-!
# Neither operator is preferred

`AND` and `OR` are symmetric, although keywords are tried in an order and evaluating begins at false.
Exchanging the keywords exchanges the operators of whatever is read, and nothing else
(`readExpression_swap`, `parseTreeM_swap`); and the dual of a tree, told the opposite of each answer, comes
to the opposite value by way of the same leaves (`Tree.WellFormed.evalM_dual`). `parseTreeM_dual` puts the
two together.

White space alone is the exception: its tree is empty, so it is its own dual, and false
(`not_eval_dual_of_blank`).
-/

namespace Junction

open Text

/-- **`AND` and `OR` are symmetric.** The keywords of any pair may be exchanged. Then a text is read as the
same events with the operators exchanged, and ends in the same error if it is refused; and the leaf hook,
which may keep a state, is run on the same leaves and ends in the dual of the tree. In the dual, the opposite
answers come to the opposite value, unless the tree is empty; so they do with leaves that have no answer,
where no value stays none; the same leaves are asked about; and dropping leaves leaves the dual of what it
leaves of the tree. -/
theorem parseTreeM_dual (f : Form) (k : Keywords) (input : String) :
    Keywords.ofPair k.disjunction k.conjunction = .ok k.swap
      ∧ readExpression f k.swap input
        = ⟨(readExpression f k input).events.map Event.dual, (readExpression f k input).error?⟩
      ∧ ∀ {α σ : Type} (hook : f.Leaf → StateM σ α) (s : σ),
        (parseTreeM f k.swap hook input).run s
            = (Except.map Tree.dual ((parseTreeM f k hook input).run s).1,
              ((parseTreeM f k hook input).run s).2)
          ∧ ∀ t : Tree α, ((parseTreeM f k hook input).run s).1 = .ok t →
            (∀ p : α → Bool, (t ≠ [] → Tree.eval (fun a => !p a) t.dual = !Tree.eval p t)
              ∧ Tree.asked (fun a => !p a) t.dual = Tree.asked p t
              ∧ Tree.filter p t.dual = (Tree.filter p t).dual)
            ∧ ∀ r : α → Option Bool,
              Tree.evalKnown (fun a => (r a).map not) t.dual = (Tree.evalKnown r t).map not
                ∧ Tree.askedKnown (fun a => (r a).map not) t.dual = Tree.askedKnown r t := by
  refine ⟨k.ofPair_swap, readExpression_swap f k input, fun hook s => ⟨?_, fun t ht => ?_⟩⟩
  · rw [parseTreeM_swap]
    rfl
  · have hw : t.WellFormed := wellFormed_of_parseTreeM ht
    refine ⟨fun p => ⟨fun hne => hw.eval_dual hne p, hw.asked_dual p, Tree.filter_dual p t⟩, ?_⟩
    exact fun r => ⟨hw.evalKnown_dual r, hw.askedKnown_dual r⟩

/-- The first term decides on either side: it is false, and true where the answers are the opposite. -/
theorem parseTreeM_dual_nested :
    ((parseTreeM .operands .standard (pure : String → StateM Unit String) "a AND (b OR c)").run ()).1
        = .ok [.leaf "a", .operator .and, .group [.leaf "b", .operator .or, .leaf "c"]]
      ∧ ((parseTreeM .operands Keywords.standard.swap (pure : String → StateM Unit String)
          "a AND (b OR c)").run ()).1
        = .ok [.leaf "a", .operator .or, .group [.leaf "b", .operator .and, .leaf "c"]]
      ∧ Tree.eval (fun a => !(a == "b"))
          [.leaf "a", .operator .or, .group [.leaf "b", .operator .and, .leaf "c"]] = true
      ∧ Tree.asked (fun a => !(a == "b"))
          [.leaf "a", .operator .or, .group [.leaf "b", .operator .and, .leaf "c"]] = ["a"] := by
  obtain ⟨-, -, hhook⟩ := parseTreeM_dual .operands .standard "a AND (b OR c)"
  obtain ⟨hswap, hlaws⟩ := hhook (pure : String → StateM Unit String) ()
  -- the text is what the tree prints
  have hread : parseTree .operands .standard (Form.operands.render
      [.leaf "a", .operator .and, .group [.leaf "b", .operator .or, .leaf "c"]])
      = .ok [.leaf "a", .operator .and, .group [.leaf "b", .operator .or, .leaf "c"]] :=
    parseTree_render_operands (by decide) (by decide)
  rw [show Form.operands.render [.leaf "a", .operator .and, .group [.leaf "b", .operator .or,
    .leaf "c"]] = "a AND (b OR c)" from rfl] at hread
  have hrun : (parseTreeM .operands .standard (pure : String → StateM Unit String)
      "a AND (b OR c)").run ()
      = (.ok [.leaf "a", .operator .and, .group [.leaf "b", .operator .or, .leaf "c"]], ()) := by
    rw [parseTreeM_of_events (parseTree_eq_ok_iff.mp hread), Tree.mapM_pure]
    rfl
  obtain ⟨hvalue, hasked, -⟩ := (hlaws _ (congrArg Prod.fst hrun)).1 fun a => a == "b"
  rw [hswap, hrun]
  exact ⟨rfl, rfl, hvalue (by decide), hasked⟩

/-- The empty tree has no operator that could be exchanged. -/
theorem not_eval_dual_of_blank :
    ¬ ∀ (k : Keywords) (input : String) (t t' : Tree String), input ≠ "" →
      parseTree .operands k input = .ok t → parseTree .operands k.swap input = .ok t' →
      ∀ p, Tree.eval (fun a => !p a) t' = !Tree.eval p t := by
  intro h
  have hblank : ∀ c ∈ " ".toList, isBlank c = true := isBlank_of_mem_space
  have heval := h .standard " " [] [] (by decide) (parseTree_eq_nil_iff.mpr hblank)
    (parseTree_eq_nil_iff.mpr hblank) fun _ => true
  cases heval

end Junction
