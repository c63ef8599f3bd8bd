import Junction.Proofs.Tree.Asking
import Junction.Proofs.Tree.Pruning

/-!
# Dual trees

The dual of a tree has `AND` where the tree has `OR`, and `OR` where it has `AND`. An operator decides at
a value just where the other one decides at the opposite value (`Operator.decides_dual`). So a walk over
the dual that is told the opposite of each answer passes over the same terms, and comes to the opposite
value:

* `Tree.WellFormed.evalKnownM_dual` for leaves that may have no answer, which stay without one;
* `Tree.WellFormed.evalM_dual` for leaves that are true or false. The empty tree is left out: it is false,
  and so is its dual.

Both hold in every lawful monad, so the same leaves are asked about (`Tree.WellFormed.asked_dual`,
`Tree.WellFormed.askedKnown_dual`). Dropping leaves takes no notice of what an operator is, so it commutes
with the dual on all trees (`Tree.filterM_dual`).
-/

namespace Junction

variable {α : Type} {m : Type → Type}

/-- The other operator. -/
def Operator.dual : Operator → Operator
  | and => or
  | or => and

mutual

/-- An element with the operators in it exchanged. -/
def Element.dual : Element α → Element α
  | .leaf a => .leaf a
  | .operator o => .operator o.dual
  | .group g => .group (Tree.dual g)
termination_by structural e => e

/-- **A tree with `AND` for each `OR` and `OR` for each `AND`.** -/
def Tree.dual : Tree α → Tree α
  | [] => []
  | e :: later => e.dual :: Tree.dual later
termination_by structural t => t

end

/-- A link with the operators in it exchanged. -/
def Link.dual (l : Link α) : Link α := ⟨l.operator.dual, l.term.dual⟩

/-! ### Operators -/

namespace Operator

/-- An operator decides at a value just if the other one decides at the opposite. -/
theorem decides_dual (o : Operator) (v : Bool) : o.dual.decides (!v) = o.decides v := by
  cases o with
  | and => rfl
  | or => exact Bool.not_not v

end Operator

/-! ### Elements -/

theorem Tree.dual_eq (t : Tree α) : Tree.dual t = List.map Element.dual t := by
  induction t with
  | nil => rfl
  | cons e t ih => rw [Tree.dual, ih, List.map_cons]

theorem Tree.mem_dual {t : Tree α} {e' : Element α} : e' ∈ t.dual ↔ ∃ e ∈ t, e.dual = e' := by
  rw [Tree.dual_eq]
  exact List.mem_map

theorem Tree.dual_ne_nil {t : Tree α} (h : t ≠ []) : t.dual ≠ [] := by
  rw [Tree.dual_eq]
  exact fun hnil => h (List.map_eq_nil_iff.mp hnil)

@[simp] theorem Element.isOperator_dual (e : Element α) : e.dual.isOperator = e.isOperator := by
  cases e <;> rfl

theorem Tree.dual_reverse (t : List (Element α)) :
    Tree.dual t.reverse = (List.map Element.dual t).reverse := by
  rw [Tree.dual_eq, List.map_reverse]

theorem Tree.Alternates.dual {t : Tree α} (h : t.Alternates) : t.dual.Alternates := by
  induction h with
  | @term e he => exact .term (e.isOperator_dual.trans he)
  | @join e o t he _ ih => exact .join (e.isOperator_dual.trans he) ih

theorem Element.WellFormed.dual {e : Element α} (h : e.WellFormed) : e.dual.WellFormed := by
  induction h with
  | leaf a => exact .leaf a
  | operator o => exact .operator o.dual
  | @group g alternates _ ih =>
    refine .group alternates.dual fun e' he' => ?_
    obtain ⟨e, he, rfl⟩ := Tree.mem_dual.mp he'
    exact ih e he

theorem Tree.WellFormed.dual {t : Tree α} (h : t.WellFormed) : t.dual.WellFormed where
  alternates hne := (h.alternates fun ht => hne (by rw [ht]; rfl)).dual
  inner := by
    intro e' he'
    obtain ⟨e, he, rfl⟩ := Tree.mem_dual.mp he'
    exact (h.inner e he).dual

/-- The links of a tree with the operators exchanged are the links of the tree, exchanged. -/
theorem Tree.linksFrom_dual (o : Operator) (t : Tree α) :
    Tree.linksFrom o.dual t.dual = (Tree.linksFrom o t).map Link.dual := by
  induction t using Tree.inductTerms generalizing o with
  | nil => rfl
  | operator o' t ih => exact ih o'
  | term e t he ih =>
    rw [Tree.dual, Tree.linksFrom_term (e.isOperator_dual.trans he), Tree.linksFrom_term he, ih]
    rfl

/-! ### Values -/

section Values

variable [Monad m] [LawfulMonad m]

/-- **The opposite value.** Where each link yields the opposite value, so do all of them. -/
theorem Link.evalM_dual {value value' : Element α → m (Option Bool)} {ls : List (Link α)}
    (h : ∀ l ∈ ls, value' l.term.dual = Option.map not <$> value l.term) (soFar : Option Bool) :
    Link.evalM value' (soFar.map not) (ls.map Link.dual)
      = Option.map not <$> Link.evalM value soFar ls := by
  induction ls generalizing soFar with
  | nil => rw [List.map_nil, Link.evalM_nil, Link.evalM_nil, map_pure]
  | cons l ls ih =>
    obtain ⟨hl, hls⟩ := List.forall_mem_cons.mp h
    -- either walk passes over the link just if the other does
    have hdecides : (soFar.map not).any l.dual.operator.decides = soFar.any l.operator.decides := by
      cases soFar with
      | none => rfl
      | some v => exact l.operator.decides_dual v
    rw [List.map_cons]
    cases hd : soFar.any l.operator.decides with
    | true =>
      rw [Link.evalM_of_decides hd, Link.evalM_of_decides (hdecides.trans hd)]
      exact ih hls soFar
    | false =>
      rw [Link.evalM_of_not_decides hd, Link.evalM_of_not_decides (hdecides.trans hd)]
      change value' l.term.dual >>= _ = _
      rw [hl, bind_map_left, map_bind]
      refine bind_congr fun v => ?_
      rw [← Option.map_or]
      exact ih hls (v.or soFar)

/-- A term whose leaves have the opposite answers has the opposite value in its dual. -/
theorem Element.WellFormed.evalKnownM_dual {e : Element α} (h : e.WellFormed)
    (ask : α → m (Option Bool)) :
    e.dual.evalKnownM (fun a => Option.map not <$> ask a)
      = Option.map not <$> e.evalKnownM ask := by
  induction h with
  | leaf a => rfl
  | operator o => exact (map_pure (Option.map not) (none : Option Bool)).symm
  | @group g alternates _ ih =>
    have hg : (Tree.dual g).Alternates := alternates.dual
    change (Element.group (Tree.dual g)).evalKnownM _ = _
    rw [Element.evalKnownM_group hg Operator.or.dual, Element.evalKnownM_group alternates .or,
      Tree.linksFrom_dual]
    exact Link.evalM_dual (fun l hl => ih _ (Tree.mem_of_mem_linksFrom hl).1) none

/-- **The opposite answers in the dual tree come to the opposite value**, where there is one. -/
theorem Tree.WellFormed.evalKnownM_dual {t : Tree α} (h : t.WellFormed)
    (ask : α → m (Option Bool)) :
    Tree.evalKnownM (fun a => Option.map not <$> ask a) t.dual
      = Option.map not <$> Tree.evalKnownM ask t := by
  by_cases ht : t = []
  · subst ht
    exact (map_pure (Option.map not) (none : Option Bool)).symm
  · exact (h.group ht).evalKnownM_dual ask

/-- **The opposite answers in the dual tree come to the opposite value.** -/
theorem Tree.WellFormed.evalM_dual {t : Tree α} (h : t.WellFormed) (ht : t ≠ []) (ask : α → m Bool) :
    Tree.evalM (fun a => not <$> ask a) t.dual = not <$> Tree.evalM ask t := by
  -- the law is known of leaves that may have no answer, and these all have one
  refine (map_inj_right Option.some.inj).mp ?_
  have hanswer : ∀ a, some <$> not <$> ask a = Option.map not <$> some <$> ask a := by
    intro a
    rw [Functor.map_map, Functor.map_map]
    rfl
  calc some <$> Tree.evalM (fun a => not <$> ask a) t.dual
      = Tree.evalKnownM (fun a => some <$> not <$> ask a) t.dual :=
        (h.dual.evalKnownM_some (Tree.dual_ne_nil ht) _).symm
    _ = Tree.evalKnownM (fun a => Option.map not <$> some <$> ask a) t.dual := by
        simp only [hanswer]
    _ = Option.map not <$> Tree.evalKnownM (fun a => some <$> ask a) t := h.evalKnownM_dual _
    _ = Option.map not <$> some <$> Tree.evalM ask t := by rw [h.evalKnownM_some ht]
    _ = some <$> not <$> Tree.evalM ask t := by
        rw [Functor.map_map, Functor.map_map]
        rfl

end Values

section Answers

variable {t : Tree α}

theorem Tree.WellFormed.eval_dual (h : t.WellFormed) (ht : t ≠ []) (p : α → Bool) :
    Tree.eval (fun a => !p a) t.dual = !Tree.eval p t :=
  h.evalM_dual ht fun a => (pure (p a) : Id Bool)

theorem Tree.WellFormed.evalKnown_dual (h : t.WellFormed) (p : α → Option Bool) :
    Tree.evalKnown (fun a => (p a).map not) t.dual = (Tree.evalKnown p t).map not :=
  h.evalKnownM_dual fun a => (pure (p a) : Id (Option Bool))

/-- **The same leaves are asked about**, in the same order. -/
theorem Tree.WellFormed.asked_dual (h : t.WellFormed) (p : α → Bool) :
    Tree.asked (fun a => !p a) t.dual = Tree.asked p t := by
  by_cases ht : t = []
  · subst ht
    rfl
  · exact congrArg (fun x => (x.run []).2) (h.evalM_dual ht (recorded p))

theorem Tree.WellFormed.askedKnown_dual (h : t.WellFormed) (p : α → Option Bool) :
    Tree.askedKnown (fun a => (p a).map not) t.dual = Tree.askedKnown p t :=
  congrArg (fun x => (x.run []).2) (h.evalKnownM_dual (recorded p))

end Answers

/-! ### Dropping leaves -/

section Dropping

variable [Monad m] [LawfulMonad m] {keep : α → m Bool}

theorem Tree.filterOnto_dual_of_mem {t : Tree α}
    (h : ∀ e ∈ t, e.dual.filterM keep = Option.map Element.dual <$> e.filterM keep)
    (kept : List (Element α)) (skip : Bool) :
    Tree.filterOnto keep (List.map Element.dual kept) skip t.dual
      = Tree.dual <$> Tree.filterOnto keep kept skip t := by
  induction t generalizing kept skip with
  | nil =>
    simp [Tree.filterOnto, Tree.dual, Tree.dual_reverse]
  | cons e t ih =>
    have ht := ih fun e' he' => h e' (List.mem_cons_of_mem _ he')
    cases skip with
    | true => simpa [Tree.filterOnto, Tree.dual] using ht kept false
    | false =>
      simp only [Tree.filterOnto, Tree.dual, Bool.false_eq_true, if_false]
      rw [h e List.mem_cons_self, bind_map_left, map_bind]
      refine bind_congr fun r => ?_
      cases r with
      | some e' => exact ht (e' :: kept) false
      | none =>
        -- a dropped element takes the one before it along, and the next where there is none before
        have hempty : (List.map Element.dual kept.tail).isEmpty = kept.tail.isEmpty := List.isEmpty_map
        have hnone := ht kept.tail kept.tail.isEmpty
        change Tree.filterOnto keep (List.map Element.dual kept).tail
          (List.map Element.dual kept).tail.isEmpty (Tree.dual t) = _
        rw [← List.map_tail, hempty]
        exact hnone

@[simp] theorem Tree.asTerm?_dual (t : Tree α) : t.dual.asTerm? = t.asTerm?.map Element.dual := by
  match t with
  | [] => rfl
  | [_] => rfl
  | _ :: _ :: _ => rfl

theorem Tree.opened_dual (t : Tree α) : t.dual.opened = t.opened.dual := by
  match t with
  | [] => rfl
  | [.leaf _] | [.operator _] => rfl
  | [.group _] => rfl
  | e :: _ :: _ => cases e <;> rfl

/-- Dropping leaves of a term does not depend on the operators in it. -/
theorem Element.filterM_dual (e : Element α) :
    e.dual.filterM keep = Option.map Element.dual <$> e.filterM keep := by
  induction e using Element.induct with
  | leaf a =>
    change (Element.leaf a).filterM keep = _
    rw [Element.filterM, map_bind]
    refine bind_congr fun accepted => ?_
    rw [map_pure]
    cases accepted <;> rfl
  | operator o => exact (map_pure (Option.map Element.dual) (some (Element.operator o))).symm
  | group g ih =>
    -- the filter does not look at the operators inside
    have hg : Tree.filterOnto keep [] false (Tree.dual g)
        = Tree.dual <$> Tree.filterOnto keep [] false g := Tree.filterOnto_dual_of_mem ih [] false
    change (do return (← Tree.filterOnto keep [] false (Tree.dual g)).asTerm?) = _
    rw [hg, Element.filterM, bind_map_left, map_bind]
    simp only [Tree.asTerm?_dual, map_pure]

/-- **Dropping leaves does not depend on the operators**: the operators of what is left are exchanged. -/
theorem Tree.filterM_dual (keep : α → m Bool) (t : Tree α) :
    Tree.filterM keep t.dual = Tree.dual <$> Tree.filterM keep t := by
  have ht : Tree.filterOnto keep [] false t.dual = Tree.dual <$> Tree.filterOnto keep [] false t :=
    Tree.filterOnto_dual_of_mem (fun e _ => e.filterM_dual) [] false
  rw [Tree.filterM, Tree.filterM, ht, bind_map_left, map_bind]
  simp only [Tree.opened_dual, map_pure]

end Dropping

theorem Tree.filter_dual (p : α → Bool) (t : Tree α) :
    Tree.filter p t.dual = (Tree.filter p t).dual :=
  Tree.filterM_dual (fun a => (pure (p a) : Id Bool)) t

end Junction
