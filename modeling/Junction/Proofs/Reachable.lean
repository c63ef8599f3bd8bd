import Junction.Proofs.Reading.Built
import Junction.Proofs.Tree.Pruning

/-!
# Reachable trees

A tree comes from an expression, and after that leaves may be dropped from it and one of its groups
may be taken as the tree, any number of times and in any order. `Tree.DerivesFrom` is what can be come
to in this way from the trees of a class, and `Tree.Reachable` what can be come to from any
expression, under any keywords, in either form and with any leaf hook. The predicates by which
leaves are dropped and the hooks may keep a state.

Reachable trees are well formed (`Tree.Reachable.wellFormed`), and a derived tree has no leaves but
those of the class (`Tree.DerivesFrom.wellFormed_and`).
-/

namespace Junction

variable {α : Type}

/-- **The trees that can be come to** from the trees of a class by dropping leaves and by taking a
group as the tree. -/
inductive Tree.DerivesFrom (source : Tree α → Prop) : Tree α → Prop
  | origin {t : Tree α} (h : source t) : DerivesFrom source t
  | filtered {σ : Type} (keep : α → StateM σ Bool) (s : σ) {t : Tree α}
      (h : DerivesFrom source t) : DerivesFrom source ((Tree.filterM keep t).run s).1
  | entered {t g : Tree α} (h : DerivesFrom source t) (hg : .group g ∈ t) : DerivesFrom source g

/-- **A reachable tree** derives from an expression. -/
def Tree.Reachable (t : Tree α) : Prop :=
  t.DerivesFrom fun t => ∃ (f : Form) (k : Keywords) (σ : Type) (hook : f.Leaf → StateM σ α) (s : σ)
    (input : String), ((parseTreeM f k hook input).run s).1 = .ok t

/-- A derived tree is well formed, and has no leaves but those of the class. -/
theorem Tree.DerivesFrom.wellFormed_and {source : Tree α → Prop} {P : α → Prop}
    (hsource : ∀ t, source t → t.WellFormed ∧ ∀ a ∈ t.leaves, P a) {t : Tree α}
    (h : t.DerivesFrom source) : t.WellFormed ∧ ∀ a ∈ t.leaves, P a := by
  induction h with
  | origin h => exact hsource _ h
  | filtered keep s _ ih => exact ih.1.filterM_run ih.2 s
  | entered _ hg ih =>
    refine ⟨(ih.1.inner _ hg).of_group, fun a ha => ih.2 a ?_⟩
    exact Tree.mem_leaves.mpr ⟨_, hg, ha⟩

/-- **A reachable tree is well formed.** -/
theorem Tree.Reachable.wellFormed {t : Tree α} (h : t.Reachable) : t.WellFormed := by
  refine (Tree.DerivesFrom.wellFormed_and (P := fun _ => True) (fun t ht => ⟨?_, ?_⟩) h).1
  · obtain ⟨f, k, σ, hook, s, input, ht⟩ := ht
    exact wellFormed_of_parseTreeM ht
  · exact fun _ _ => trivial

/-- The tree of an expression without a leaf hook is reachable. -/
theorem Tree.reachable_of_parseTree {f : Form} {k : Keywords} {input : String}
    {t : Tree f.Leaf} (h : parseTree f k input = .ok t) : t.Reachable := by
  refine .origin ⟨f, k, Unit, pure, (), input, ?_⟩
  rw [parseTreeM_of_events (parseTree_eq_ok_iff.mp h), Tree.mapM_pure]
  rfl

end Junction
