import Junction.Proofs.Tree.Answered
import Junction.Proofs.Tree.Survivors

/-!
# Trees of which something is known

How a tree is nested does not matter to whether anything of it is left, and not to whether it has a
value. Dropping leaves leaves the others in their order (`Tree.WellFormed.leaves_filter`), so nothing is
left just if no leaf is kept; and as evaluating with leaves that have no answer is evaluating the tree
without them, there is no value just if no leaf has an answer (`Tree.WellFormed.evalKnown_eq_none_iff`).
That terms are passed over does not come in: there has to be a value before one is.
-/

namespace Junction

variable {α : Type}

/-- In every term there is a leaf. -/
theorem Element.WellFormed.leaves_ne_nil {e : Element α} (h : e.WellFormed)
    (he : e.isOperator = false) : e.leaves ≠ [] := by
  induction h with
  | leaf a => exact List.cons_ne_nil a []
  | operator o => cases he
  | @group g alternates _ ih =>
    -- a group begins with a term, which has a leaf
    have hfirst : ∃ e ∈ g, e.isOperator = false := by
      cases alternates with
      | term hterm => exact ⟨_, List.mem_cons_self, hterm⟩
      | join hterm _ => exact ⟨_, List.mem_cons_self, hterm⟩
    obtain ⟨e, hmem, hterm⟩ := hfirst
    obtain ⟨a, ha⟩ := List.exists_mem_of_ne_nil _ (ih e hmem hterm)
    exact List.ne_nil_of_mem (Tree.mem_leaves.mpr ⟨e, hmem, ha⟩)

namespace Tree.WellFormed

variable {t : Tree α}

/-- **Only the empty tree has no leaf.** -/
theorem leaves_eq_nil_iff (h : t.WellFormed) : t.leaves = [] ↔ t = [] := by
  refine ⟨fun hleaves => ?_, ?_⟩
  · by_contra hne
    exact (h.group hne).leaves_ne_nil rfl hleaves
  · rintro rfl
    rfl

/-- **Dropping leaves leaves the others in their order.** -/
theorem leaves_filter (h : t.WellFormed) (p : α → Bool) :
    (Tree.filter p t).leaves = t.leaves.filter p := by
  -- the tree with its answers, which do not depend on each other here
  let marked : Tree (α × Bool) := Id.run (Tree.mapM (answered fun a => (pure (p a) : Id Bool)) t)
  have hmarked : marked.leaves = t.leaves.map fun a => (a, p a) := by
    have hleaves : t.leaves.mapM (answered fun a => (pure (p a) : Id Bool))
        = do return (← Tree.mapM (answered fun a => (pure (p a) : Id Bool)) t).leaves :=
      Tree.mapM_leaves t
    calc marked.leaves
        = Id.run (t.leaves.mapM (answered fun a => (pure (p a) : Id Bool))) :=
          (congrArg Id.run hleaves).symm
      _ = t.leaves.map fun a => (a, p a) := congrArg Id.run List.mapM_pure
  calc (Tree.filter p t).leaves
      = marked.survived.leaves := by
        rw [Tree.filter, h.filterM_eq_survived]
        rfl
    _ = accepted (t.leaves.map fun a => (a, p a)) := by rw [Tree.leaves_survived, hmarked]
    _ = ((t.leaves.filter p).map fun a => (a, p a)).map Prod.fst := by
        rw [accepted, List.filter_map]
        rfl
    _ = t.leaves.filter p := by
        rw [List.map_map]
        exact List.map_id _

/-- **Nothing is left** just if no leaf is kept. -/
theorem filter_eq_nil_iff (h : t.WellFormed) {p : α → Bool} :
    Tree.filter p t = [] ↔ ∀ a ∈ t.leaves, p a = false := by
  rw [← h.filter.leaves_eq_nil_iff, h.leaves_filter, List.filter_eq_nil_iff]
  simp only [Bool.not_eq_true]

/-- **There is no value** just if no leaf has an answer. -/
theorem evalKnown_eq_none_iff (h : t.WellFormed) {p : α → Option Bool} :
    Tree.evalKnown p t = none ↔ ∀ a ∈ t.leaves, p a = none := by
  have hkept : Tree.filter (fun a => (p a).isSome) t = [] ↔ ∀ a ∈ t.leaves, p a = none := by
    rw [h.filter_eq_nil_iff]
    simp only [Option.isSome_eq_false_iff, Option.isNone_iff_eq_none]
  rw [← hkept]
  -- the value is that of what is left
  have hrun := h.run_valueM_filter (p := p)
  by_cases hnil : Tree.filter (fun a => (p a).isSome) t = []
  · rw [hnil] at hrun
    exact ⟨fun _ => hnil, fun _ => (congrArg Prod.fst hrun).symm⟩
  · rw [h.filter.run_valueM hnil] at hrun
    refine ⟨fun hnone => ?_, fun hnil' => absurd hnil' hnil⟩
    rw [hnone] at hrun
    cases hrun

end Tree.WellFormed

end Junction
