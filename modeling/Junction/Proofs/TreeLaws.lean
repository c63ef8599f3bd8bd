import Junction.Proofs.Reachable
import Junction.Proofs.Reading.Rendered
import Junction.Proofs.Tree.Answered
import Junction.Proofs.Tree.Formula
import Junction.Proofs.Tree.Survivors

/-!
# Laws of reachable trees

What holds of every tree that can be come to, and what dropping leaves and evaluating do on it:

* `reachable_inTurn`: terms and operators alternate in it and in each group inside it, and only the
  tree itself may be empty;
* `filter_comp`: two passes that drop leaves are one pass, so a second equal pass changes nothing and
  the order of two passes is of no account;
* `filterM_of_answers`: a pass asks about all leaves, and what is left follows from the answers;
* `evalM_eq_formula`: evaluating short-circuits from left to right, without precedence;
* `evalKnownM_eq_evalM`: where each leaf has an answer, the two ways to evaluate are one;
* `evalKnown_eq_eval_filter`: evaluating with leaves that have no answer is evaluating the tree
  without them, with the same leaves asked about.

The predicates of a pass keep a state, and leaves are asked by an action of any lawful monad. So what is
said of an evaluation is also said of the state, and of the leaves that are asked about, in order.
-/

namespace Junction

variable {α : Type}

/-- A group in a tree can be come to. -/
theorem reachable_nested :
    Tree.Reachable [.leaf "a", .operator .and, .group [.leaf "b", .operator .or, .leaf "c"]] :=
  Tree.reachable_of_parseTree (f := .operands) (parseTree_render_operands (by decide) (by decide))

/-- **Terms and operators alternate** in a tree that can be come to, from a term to a term, unless it is
empty; and so they do in the groups inside it, at any depth, none of which is empty. -/
theorem reachable_inTurn {t : Tree α} (h : t.Reachable) :
    (t = [] ∨ t.InTurn) ∧ ∀ g, t.Inside g → g ≠ [] ∧ g.InTurn := by
  constructor
  · by_cases ht : t = []
    · exact .inl ht
    · exact .inr (h.wellFormed.alternates ht).inTurn
  · intro g hg
    have halternates : g.Alternates := (h.wellFormed.of_inside hg).alternates
    exact ⟨halternates.ne_nil, halternates.inTurn⟩

/-- Two terms in the group inside a tree, and the operator between them. -/
theorem reachable_inTurn_nested :
    Tree.Reachable [.leaf "a", .operator .and, .group [.leaf "b", .operator .or, .leaf "c"]]
      ∧ Tree.Inside [.leaf "a", .operator .and, .group [.leaf "b", .operator .or, .leaf "c"]]
        [.leaf "b", .operator .or, .leaf "c"]
      ∧ Tree.InTurn [.leaf "b", .operator .or, .leaf "c"] := by
  have hinside : Tree.Inside [.leaf "a", .operator .and,
      .group [.leaf "b", .operator .or, .leaf "c"]] [.leaf "b", .operator .or, .leaf "c"] :=
    .here (by simp)
  exact ⟨reachable_nested, hinside, ((reachable_inTurn reachable_nested).2 _ hinside).2⟩

/-- **Dropping leaves composes.** -/
theorem filter_comp {t : Tree α} (h : t.Reachable) (p q : α → Bool) :
    Tree.filter q (Tree.filter p t) = Tree.filter (fun a => p a && q a) t
      ∧ Tree.filter p (Tree.filter p t) = Tree.filter p t
      ∧ Tree.filter q (Tree.filter p t) = Tree.filter p (Tree.filter q t) := by
  have hw := h.wellFormed
  refine ⟨hw.filter_filter, ?_, ?_⟩
  · calc Tree.filter p (Tree.filter p t)
        = Tree.filter (fun a => p a && p a) t := hw.filter_filter
      _ = Tree.filter p t := by simp only [Bool.and_self]
  · calc Tree.filter q (Tree.filter p t)
        = Tree.filter (fun a => p a && q a) t := hw.filter_filter
      _ = Tree.filter (fun a => q a && p a) t := by simp only [Bool.and_comm]
      _ = Tree.filter p (Tree.filter q t) := hw.filter_filter.symm

/-- A group that is left alone is opened in the first pass, and loses a term in the second. -/
theorem filter_comp_nested :
    Tree.Reachable [.leaf "a", .operator .and, .group [.leaf "b", .operator .or, .leaf "c"]]
      ∧ Tree.filter (fun a => a != "b") (Tree.filter (fun a => a != "a")
          [.leaf "a", .operator .and, .group [.leaf "b", .operator .or, .leaf "c"]])
        = [.leaf "c"] := by
  refine ⟨reachable_nested, ?_⟩
  rw [(filter_comp reachable_nested (fun a => a != "a") (fun a => a != "b")).1]
  rfl

/-- **What a pass leaves.** It asks about each leaf, in order and without regard to the other answers. Of
the tree with these answers are left the surviving terms (`Tree.survived`); so their leaves are the
accepted ones, in order, no group is left with less than two terms, and none is left alone. -/
theorem filterM_of_answers {t : Tree α} (h : t.Reachable) {σ : Type} (keep : α → StateM σ Bool)
    (s : σ) :
    let marked := ((Tree.mapM (answered keep) t).run s).1
    let left := ((Tree.filterM keep t).run s).1
    Tree.map Prod.fst marked = t
      ∧ (t.leaves.mapM keep).run s
        = (marked.leaves.map Prod.snd, ((Tree.filterM keep t).run s).2)
      ∧ left = marked.survived
      ∧ left.leaves = accepted marked.leaves
      ∧ (∀ g, left.Inside g → 2 ≤ g.terms.length) ∧ ∀ g, left ≠ [.group g] := by
  intro marked left
  have hpass : Tree.filterM keep t = do return (← Tree.mapM (answered keep) t).survived :=
    h.wellFormed.filterM_eq_survived
  have hleft : left = marked.survived := congrArg (fun x => (x.run s).1) hpass
  -- the leaves are put through the same action, one after another
  have hasked : t.leaves.mapM keep
      = do return (← Tree.mapM (answered keep) t).leaves.map Prod.snd := by
    rw [mapM_answered, Tree.mapM_leaves]
    simp only [bind_assoc, pure_bind]
  refine ⟨Tree.map_fst_answered t s, ?_, hleft, ?_, ?_⟩
  · rw [hasked, hpass]
    rfl
  · rw [hleft]
    exact marked.leaves_survived
  · rw [hleft]
    exact marked.branches_survived

/-- Accepts every other leaf that it is asked about, and counts them. -/
def everyOther (_ : α) : StateM Nat Bool := modifyGet fun n => (n % 2 == 0, n + 1)

/-- The second leaf is not accepted, and the group becomes its other term. -/
theorem filterM_of_answers_nested :
    Tree.Reachable [.leaf "a", .operator .and, .group [.leaf "b", .operator .or, .leaf "c"]]
      ∧ (Tree.filterM everyOther
          [.leaf "a", .operator .and, .group [.leaf "b", .operator .or, .leaf "c"]]).run 0
        = ([.leaf "a", .operator .and, .leaf "c"], 3) := by
  obtain ⟨-, hasked, hleft, -⟩ := filterM_of_answers reachable_nested everyOther 0
  exact ⟨reachable_nested, Prod.ext hleft (congrArg Prod.snd hasked).symm⟩

/-- **Evaluating is lazy and from left to right.** The empty tree is false, and nothing is asked. Any other
tree has a formula, in which each operator joins all that is before it to the term after it, and groups
are formulas in the same way. Evaluating the tree is evaluating the formula with short circuits; where
asking has no effect, the value is that of the formula with every operand looked at. -/
theorem evalM_eq_formula {t : Tree α} (h : t.Reachable) :
    (t = [] → ∀ (m : Type → Type) [Monad m] (ask : α → m Bool), Tree.evalM ask t = pure false)
      ∧ (t ≠ [] → ∃ x, t.formula? = some x
        ∧ (∀ (m : Type → Type) [Monad m] [LawfulMonad m] (ask : α → m Bool),
          Tree.evalM ask t = x.evalM ask)
        ∧ ∀ p : α → Bool, Tree.eval p t = x.value p) := by
  refine ⟨?_, fun ht => ?_⟩
  · rintro rfl m _ ask
    rfl
  · obtain ⟨x, hx, heval⟩ := (h.wellFormed.group ht).exists_formula rfl
    refine ⟨x, hx, heval, fun p => ?_⟩
    -- the value is what is left where asking has no effect
    have hpure : Tree.evalM (fun a => (pure (p a) : Id Bool)) t = pure (x.value p) :=
      (heval Id _).trans (x.evalM_pure p)
    exact congrArg Id.run hpure

/-- The first term is false, so the group after it is not asked about. -/
theorem evalM_eq_formula_nested :
    Tree.Reachable [.leaf "a", .operator .and, .group [.leaf "b", .operator .or, .leaf "c"]]
      ∧ (Tree.evalM (recorded fun a => a == "b")
          [.leaf "a", .operator .and, .group [.leaf "b", .operator .or, .leaf "c"]]).run []
        = (false, ["a"]) := by
  obtain ⟨x, hx, heval, -⟩ := (evalM_eq_formula reachable_nested).2 (by decide)
  obtain rfl : .join (.leaf "a") .and (.join (.leaf "b") .or (.leaf "c")) = x := Option.some.inj hx
  refine ⟨reachable_nested, ?_⟩
  rw [heval]
  rfl

/-- **Where each leaf has an answer, the two ways to evaluate are one**: the same leaves are asked about in
the same order, and there is a value, the same. -/
theorem evalKnownM_eq_evalM {t : Tree α} (h : t.Reachable) (ht : t ≠ []) {m : Type → Type} [Monad m]
    [LawfulMonad m] (ask : α → m Bool) :
    Tree.evalKnownM (fun a => some <$> ask a) t = some <$> Tree.evalM ask t :=
  h.wellFormed.evalKnownM_some ht ask

/-- The first two leaves decide, and the third is not asked about. -/
theorem evalKnownM_eq_evalM_nested :
    Tree.Reachable [.leaf "a", .operator .and, .group [.leaf "b", .operator .or, .leaf "c"]]
      ∧ (Tree.evalKnownM (fun a => some <$> recorded (fun a => a != "c") a)
          [.leaf "a", .operator .and, .group [.leaf "b", .operator .or, .leaf "c"]]).run []
        = (some true, ["a", "b"]) := by
  refine ⟨reachable_nested, ?_⟩
  rw [evalKnownM_eq_evalM reachable_nested (by decide)]
  rfl

/-- **Evaluating what is answered.** Let `kept` be the tree without the leaves that have no answer.
There is a value just if `kept` is not empty, it is the value of `kept`, and the leaves of `kept` that
are asked about are those of the tree that are asked about and have an answer. -/
theorem evalKnown_eq_eval_filter {t : Tree α} (h : t.Reachable) (p : α → Option Bool) :
    let kept := Tree.filter (fun a => (p a).isSome) t
    (Tree.evalKnown p t = none ↔ kept = [])
      ∧ (kept ≠ [] → Tree.evalKnown p t = some (Tree.eval (fun a => p a == some true) kept))
      ∧ Tree.asked (fun a => p a == some true) kept
        = (Tree.askedKnown p t).filter fun a => (p a).isSome := by
  intro kept
  have hboth := h.wellFormed.run_valueM_filter (p := p)
  by_cases hk : kept = []
  · -- nothing is left: there is no value, and no call has an answer
    rw [show Tree.filter (fun a => (p a).isSome) t = [] from hk] at hboth
    obtain ⟨hnone, hcalls⟩ := Prod.mk.inj hboth
    refine ⟨⟨fun _ => hk, fun _ => hnone.symm⟩, fun hne => absurd hk hne, ?_⟩
    rw [hk]
    exact hcalls
  · -- the value and the calls of what is left are those of the tree
    have hkept : kept.WellFormed := h.wellFormed.filter
    have hrun := hkept.run_valueM hk fun a => p a == some true
    obtain ⟨hsome, hcalls⟩ := Prod.mk.inj (hrun.symm.trans hboth)
    refine ⟨⟨fun hnone => ?_, fun hnil => absurd hnil hk⟩, fun _ => hsome.symm, hcalls⟩
    rw [hnone] at hsome
    cases hsome

/-- The first term has no answer, so the value is that of the group, and both its leaves are asked
about. -/
theorem evalKnown_eq_eval_filter_nested :
    Tree.Reachable [.leaf "a", .operator .and, .group [.leaf "b", .operator .or, .leaf "c"]]
      ∧ Tree.evalKnown (fun a => if a = "a" then none else some (a == "c"))
          [.leaf "a", .operator .and, .group [.leaf "b", .operator .or, .leaf "c"]] = some true
      ∧ (Tree.askedKnown (fun a => if a = "a" then none else some (a == "c"))
          [.leaf "a", .operator .and, .group [.leaf "b", .operator .or, .leaf "c"]]).filter
            (fun a => (if a = "a" then none else some (a == "c")).isSome) = ["b", "c"] := by
  obtain ⟨-, hvalue, hasked⟩ := evalKnown_eq_eval_filter reachable_nested
    fun a => if a = "a" then none else some (a == "c")
  exact ⟨reachable_nested, hvalue (by decide), hasked.symm⟩

end Junction
