import Junction.Proofs.Tree.Mapping
import Junction.Proofs.Tree.Pruning

/-!
# What survives a pass

`Tree.filterM` asks and drops in one walk. The two can be told apart: first each leaf gets its answer, in
the order of the leaves and whatever the other answers are, and then the tree of answered leaves says what
is left (`Tree.WellFormed.filterM_eq_survived`). So a predicate that keeps a state makes no difference to
how leaves are dropped, only to which.

What is left is said without the walk, from the inside out:

* a leaf **survives** if it is accepted, and a group if one of its terms does (`Element.survivor?`). A
  group of one surviving term becomes this term;
* the surviving terms of a group keep the operator before them (`Tree.survivors`), the first of them
  excepted;
* at the top a group that is left alone is opened (`Tree.survived`).

Hence the leaves that are left are the accepted ones, in order (`Tree.leaves_survived`), each group that
is left has two terms or more, and no group is left alone (`Tree.branches_survived`).
-/

namespace Junction

variable {α : Type} {m : Type → Type}

/-- A leaf together with the answer for it. -/
def answered [Monad m] (keep : α → m Bool) (a : α) : m (α × Bool) := do
  return (a, ← keep a)

mutual

/-- **What survives of a term** whose leaves are answered, if anything does. -/
def Element.survivor? : Element (α × Bool) → Option (Element α)
  | .leaf (a, accepted) => if accepted then some (.leaf a) else none
  | .operator _ => none
  | .group g =>
    match Tree.survivors .or g with
    | [] => none
    | [only] => some only.term
    | links => some (.group (Tree.ofLinks links))
termination_by structural e => e

/-- **The surviving terms** of some elements, each with the operator directly before it; `o` stands
before the first element. -/
def Tree.survivors (o : Operator) : Tree (α × Bool) → List (Link α)
  | [] => []
  | e :: later =>
    match e with
    | .operator o' => Tree.survivors o' later
    | term =>
      match term.survivor? with
      | some e' => ⟨o, e'⟩ :: Tree.survivors o later
      | none => Tree.survivors o later
termination_by structural t => t

end

/-- **What survives of a tree** whose leaves are answered. -/
def Tree.survived (t : Tree (α × Bool)) : Tree α :=
  match Tree.survivors .or t with
  | [⟨_, .group g⟩] => g
  | links => Tree.ofLinks links

/-! ### The walk and its description -/

theorem Tree.survivors_operator (o o' : Operator) (t : Tree (α × Bool)) :
    Tree.survivors o (.operator o' :: t) = Tree.survivors o' t := rfl

theorem Tree.survivors_term {e : Element (α × Bool)} (he : e.isOperator = false) (o : Operator)
    (t : Tree (α × Bool)) :
    Tree.survivors o (e :: t) = (e.survivor?.map (Link.mk o)).toList ++ Tree.survivors o t := by
  cases e with
  | leaf a =>
    simp only [Tree.survivors]
    cases (Element.leaf a).survivor? <;> rfl
  | operator o' => cases he
  | group g =>
    simp only [Tree.survivors]
    cases (Element.group g).survivor? <;> rfl

/-- A group survives as what its surviving terms come to as a term. -/
theorem Element.survivor?_group (g : Tree (α × Bool)) :
    (Element.group g).survivor? = (Tree.ofLinks (Tree.survivors .or g)).asTerm? := by
  rw [Element.survivor?]
  rcases Tree.survivors .or g with _ | ⟨l, _ | ⟨l', ls⟩⟩ <;> rfl

/-- A tree survives as what its surviving terms come to at the top. -/
theorem Tree.survived_eq (t : Tree (α × Bool)) :
    t.survived = (Tree.ofLinks (Tree.survivors .or t)).opened := by
  unfold Tree.survived
  rcases Tree.survivors .or t with _ | ⟨⟨o, e⟩, _ | ⟨l', ls⟩⟩
  · rfl
  · cases e <;> rfl
  · cases e <;> rfl

section Walk

variable [Monad m] [LawfulMonad m] {keep : α → m Bool}

/-- A term answered is a term. -/
theorem Element.bind_mapM_term {β γ : Type} {e : Element α} (he : e.isOperator = false)
    {hook : α → m β} {f g : Element β → m γ}
    (h : ∀ e' : Element β, e'.isOperator = false → f e' = g e') :
    e.mapM hook >>= f = e.mapM hook >>= g := by
  cases e with
  | leaf a =>
    rw [Element.mapM, bind_assoc, bind_assoc]
    refine bind_congr fun b => ?_
    rw [pure_bind, pure_bind, h _ rfl]
  | operator o => cases he
  | group g' =>
    rw [Element.mapM, bind_assoc, bind_assoc]
    refine bind_congr fun t => ?_
    rw [pure_bind, pure_bind, h _ rfl]

/-- If asking and dropping can be told apart in each term, they can in the links of a tree. -/
theorem Tree.filterMapM_linksFrom {t : Tree α}
    (h : ∀ e ∈ t, e.isOperator = false →
      e.filterM keep = do return (← e.mapM (answered keep)).survivor?) (o : Operator) :
    (Tree.linksFrom o t).filterMapM (Link.filterM keep)
      = do return Tree.survivors o (← Tree.mapM (answered keep) t) := by
  induction t using Tree.inductTerms generalizing o with
  | nil => rw [Tree.mapM, pure_bind]; rfl
  | operator o' t ih =>
    have ht := ih fun e' he' => h e' (List.mem_cons_of_mem _ he')
    rw [Tree.linksFrom_operator, ht o', Tree.mapM, Element.mapM]
    simp only [pure_bind, bind_assoc, Tree.survivors_operator]
  | term e t he ih =>
    have ht := ih fun e' he' => h e' (List.mem_cons_of_mem _ he')
    rw [Tree.linksFrom_term he, List.filterMapM_cons, Link.filterM, h e List.mem_cons_self he,
      Tree.mapM]
    simp only [pure_bind, bind_assoc]
    -- answered it is still a term, so what survives of it comes before the survivors after it
    refine Element.bind_mapM_term he fun e' he' => ?_
    simp only [Tree.survivors_term he']
    cases e'.survivor? with
    | none => exact ht o
    | some r =>
      change (do
        let ls ← (Tree.linksFrom o t).filterMapM (Link.filterM keep)
        return (⟨o, r⟩ : Link α) :: ls) = _
      rw [ht o, bind_assoc]
      simp only [pure_bind]
      rfl

/-- **Asking and dropping can be told apart** in a term. -/
theorem Element.WellFormed.filterM_eq_survivor? {e : Element α} (h : e.WellFormed)
    (he : e.isOperator = false) :
    e.filterM keep = do return (← e.mapM (answered keep)).survivor? := by
  induction h with
  | leaf a =>
    rw [Element.filterM, Element.mapM, answered]
    simp only [bind_assoc, pure_bind]
    rfl
  | operator o => cases he
  | group alternates _ ih =>
    -- a group is dropped link by link, and the induction hypothesis is about the terms of links
    rw [Element.filterM, alternates.filterOnto_eq .or, Tree.filterMapM_linksFrom ih, Element.mapM]
    simp only [bind_assoc, pure_bind, Element.survivor?_group]

/-- **Asking and dropping can be told apart** in a tree. -/
theorem Tree.WellFormed.filterM_eq_survived {t : Tree α} (h : t.WellFormed) :
    Tree.filterM keep t = do return (← Tree.mapM (answered keep) t).survived := by
  by_cases hne : t = []
  · subst hne
    rw [Tree.mapM, pure_bind, Tree.filterM, Tree.filterOnto, pure_bind]
    rfl
  · have hterm : ∀ e ∈ t, e.isOperator = false →
        e.filterM keep = do return (← e.mapM (answered keep)).survivor? :=
      fun e he => (h.inner e he).filterM_eq_survivor?
    rw [Tree.filterM, (h.alternates hne).filterOnto_eq .or, Tree.filterMapM_linksFrom hterm]
    simp only [bind_assoc, pure_bind, Tree.survived_eq]

end Walk

/-! ### The answers -/

section Answers

/-- The answers for some leaves are noted down beside them. -/
theorem mapM_answered [Monad m] [LawfulMonad m] (keep : α → m Bool) (leaves : List α) :
    leaves.mapM keep = do return (← leaves.mapM (answered keep)).map Prod.snd := by
  induction leaves with
  | nil => simp
  | cons a leaves ih => simp [answered, ih]

variable {σ : Type} {keep : α → StateM σ Bool}

/-- **To answer the leaves of a tree leaves the tree as it is.** -/
theorem Tree.map_fst_answered (t : Tree α) (s : σ) :
    Tree.map Prod.fst ((Tree.mapM (answered keep) t).run s).1 = t := by
  have hkept : ∀ (a : α) (s : σ), Prod.fst ((answered keep a).run s).1 = id a := fun _ _ => rfl
  exact (Tree.map_mapM_run hkept t s).trans (Tree.map_id t)

end Answers

/-! ### The leaves that are left -/

/-- The leaves that are accepted, in order. -/
def accepted (leaves : List (α × Bool)) : List α := (leaves.filter Prod.snd).map Prod.fst

/-- The leaves of links put together are those of their terms. -/
theorem Tree.leaves_ofLinks_eq (ls : List (Link α)) :
    (Tree.ofLinks ls).leaves = ls.flatMap fun l => l.term.leaves := by
  -- an operator has no leaves, so each link has those of its term
  have hrest : ∀ ls : List (Link α),
      Tree.leaves (ls.flatMap Link.elements) = ls.flatMap fun l => l.term.leaves := by
    intro ls
    induction ls with
    | nil => rfl
    | cons l ls ih =>
      rw [List.flatMap_cons, List.flatMap_cons, Tree.leaves_append, ih]
      simp [Link.elements, Element.leaves]
  cases ls with
  | nil => rfl
  | cons l ls => rw [Tree.ofLinks_cons, Tree.leaves_cons, hrest, List.flatMap_cons]

theorem Tree.leaves_asTerm? (t : Tree α) : t.asTerm?.toList.flatMap Element.leaves = t.leaves := by
  match t with
  | [] => rfl
  | [e] => simp [Tree.asTerm?]
  | e :: e' :: t => simp [Tree.asTerm?, Element.leaves]

/-- If what survives of each element has its accepted leaves, so have the surviving terms. -/
theorem Tree.leaves_survivors_of_mem {t : Tree (α × Bool)}
    (h : ∀ e ∈ t, e.survivor?.toList.flatMap Element.leaves = accepted e.leaves) (o : Operator) :
    ((Tree.survivors o t).flatMap fun l => l.term.leaves) = accepted t.leaves := by
  induction t using Tree.inductTerms generalizing o with
  | nil => rfl
  | operator o' t ih => exact ih (fun e' he' => h e' (List.mem_cons_of_mem _ he')) o'
  | term e t he ih =>
    have hcons : accepted (Tree.leaves (e :: t)) = accepted e.leaves ++ accepted (Tree.leaves t) := by
      simp [accepted]
    rw [hcons, ← h e List.mem_cons_self, Tree.survivors_term he, List.flatMap_append,
      ih fun e' he' => h e' (List.mem_cons_of_mem _ he')]
    cases e.survivor? <;> rfl

theorem Element.leaves_survivor? (e : Element (α × Bool)) :
    e.survivor?.toList.flatMap Element.leaves = accepted e.leaves := by
  induction e using Element.induct with
  | leaf a =>
    obtain ⟨a, b⟩ := a
    cases b <;> rfl
  | operator o => rfl
  | group g ih =>
    rw [Element.survivor?_group, Tree.leaves_asTerm?, Tree.leaves_ofLinks_eq,
      Tree.leaves_survivors_of_mem ih]
    rfl

/-- **The leaves that are left are the accepted ones**, in order. -/
theorem Tree.leaves_survived (t : Tree (α × Bool)) : t.survived.leaves = accepted t.leaves := by
  rw [Tree.survived_eq, Tree.leaves_opened, Tree.leaves_ofLinks_eq,
    Tree.leaves_survivors_of_mem fun e _ => e.leaves_survivor?]

/-! ### The groups that are left -/

/-- The terms of a group, operators left out. -/
def Tree.terms (t : Tree α) : List (Element α) :=
  List.filter (fun e => !e.isOperator) t

theorem Tree.terms_operator (o : Operator) (t : Tree α) :
    Tree.terms (.operator o :: t) = t.terms := rfl

theorem Tree.terms_term {e : Element α} (he : e.isOperator = false) (t : Tree α) :
    Tree.terms (e :: t) = e :: t.terms :=
  List.filter_cons_of_pos (by rw [he]; rfl)

/-- The terms of links put together are those of the links. -/
theorem Tree.terms_ofLinks {ls : List (Link α)} (h : ∀ l ∈ ls, l.term.isOperator = false) :
    (Tree.ofLinks ls).terms = ls.map Link.term := by
  -- behind the first one each link is an operator and a term
  have hrest : ∀ ls : List (Link α), (∀ l ∈ ls, l.term.isOperator = false) →
      Tree.terms (ls.flatMap Link.elements) = ls.map Link.term := by
    intro ls h
    induction ls with
    | nil => rfl
    | cons l ls ih =>
      obtain ⟨hl, hls⟩ := List.forall_mem_cons.mp h
      change Tree.terms (.operator l.operator :: l.term :: ls.flatMap Link.elements) = _
      rw [Tree.terms_operator, Tree.terms_term hl, ih hls, List.map_cons]
  cases ls with
  | nil => rfl
  | cons l ls =>
    obtain ⟨hl, hls⟩ := List.forall_mem_cons.mp h
    rw [Tree.ofLinks_cons, Tree.terms_term hl, hrest ls hls, List.map_cons]

/-- A term in which each group has two terms or more. -/
inductive Element.Branches : Element α → Prop
  | leaf (a : α) : Branches (.leaf a)
  | group {g : Tree α} (two : 2 ≤ g.terms.length)
      (inner : ∀ e ∈ g, e.isOperator = false → Branches e) : Branches (.group g)

section Branches

variable {t g : Tree α} {ls : List (Link α)}

theorem Element.Branches.isTerm {e : Element α} (h : e.Branches) : e.isOperator = false := by
  cases h <;> rfl

theorem Element.not_branches_singleton (e : Element α) : ¬ (Element.group [e]).Branches := by
  intro h
  cases h with
  | group two _ =>
    have hle : (Tree.terms [e]).length ≤ 1 := List.length_filter_le _ _
    omega

/-- The terms of links that are put together are of that kind if those of the links are. -/
theorem Tree.branches_of_mem_ofLinks (h : ∀ l ∈ ls, l.term.Branches) :
    ∀ e ∈ Tree.ofLinks ls, e.isOperator = false → e.Branches := by
  intro e he hterm
  rcases Tree.mem_ofLinks he with ⟨l, hl, rfl⟩ | ho
  · exact h l hl
  · rw [hterm] at ho
    cases ho

/-- So is the term that they come to inside a tree: a group is made of two links or more. -/
theorem Tree.branches_of_asTerm? (h : ∀ l ∈ ls, l.term.Branches) {e : Element α}
    (he : (Tree.ofLinks ls).asTerm? = some e) : e.Branches := by
  match ls with
  | [] => cases he
  | [l] =>
    obtain rfl : l.term = e := Option.some.inj he
    exact h l List.mem_cons_self
  | l :: l' :: ls =>
    obtain rfl : .group (Tree.ofLinks (l :: l' :: ls)) = e := Option.some.inj he
    -- each link brings one term into the group
    have htwo : 2 ≤ (Tree.terms (Tree.ofLinks (l :: l' :: ls))).length := by
      rw [Tree.terms_ofLinks fun k hk => (h k hk).isTerm, List.length_map]
      exact Nat.le_add_left 2 ls.length
    exact .group htwo (Tree.branches_of_mem_ofLinks h)

/-- Opening a group at the top leaves none alone there. -/
theorem Tree.branches_of_mem_opened (h : ∀ e ∈ t, e.isOperator = false → e.Branches) :
    (∀ e ∈ t.opened, e.isOperator = false → e.Branches) ∧ ∀ g, t.opened ≠ [.group g] := by
  unfold Tree.opened
  split
  · rename_i g
    -- the group that is opened branches, so it is not again a group alone
    have hg : (Element.group g).Branches := h _ List.mem_cons_self rfl
    refine ⟨?_, ?_⟩
    · cases hg with
      | group _ inner => exact inner
    · rintro g' rfl
      exact Element.not_branches_singleton _ hg
  · rename_i hne
    exact ⟨h, fun g hg => hne g hg⟩

/-- A group inside a tree of such terms, at any depth, has two terms or more. -/
theorem Tree.Inside.two_le (hg : t.Inside g) (h : ∀ e ∈ t, e.isOperator = false → e.Branches) :
    2 ≤ g.terms.length := by
  -- down to the group, each group that it is in branches
  have hbranches : (Element.group g).Branches := by
    induction hg with
    | here hg => exact h _ hg rfl
    | deeper _ hg ih =>
      cases ih with
      | group _ inner => exact inner _ hg rfl
  cases hbranches with
  | group two _ => exact two

end Branches

/-- A surviving term is what survives of an element. -/
theorem Tree.exists_of_mem_survivors {o : Operator} {t : Tree (α × Bool)} {l : Link α}
    (h : l ∈ Tree.survivors o t) : ∃ e ∈ t, e.survivor? = some l.term := by
  induction t using Tree.inductTerms generalizing o with
  | nil => exact absurd h List.not_mem_nil
  | operator o' t ih =>
    obtain ⟨e, he, hs⟩ := ih h
    exact ⟨e, List.mem_cons_of_mem _ he, hs⟩
  | term e t hterm ih =>
    rw [Tree.survivors_term hterm] at h
    -- it is what survives of this term, or of a later one
    rcases List.mem_append.mp h with hl | hl
    · obtain ⟨e', he', rfl⟩ := Option.map_eq_some_iff.mp (Option.mem_toList.mp hl)
      exact ⟨e, List.mem_cons_self, he'⟩
    · obtain ⟨e', he', hs⟩ := ih hl
      exact ⟨e', List.mem_cons_of_mem _ he', hs⟩

/-- **What survives is such a term.** -/
theorem Element.branches_of_survivor? {e : Element (α × Bool)} {e' : Element α}
    (h : e.survivor? = some e') : e'.Branches := by
  induction e using Element.induct generalizing e' with
  | leaf a =>
    obtain ⟨a, b⟩ := a
    cases b with
    | false => cases h
    | true => exact Option.some.inj h ▸ .leaf a
  | operator o => cases h
  | group g ih =>
    rw [Element.survivor?_group] at h
    -- of the group its only survivor is left, or a group of several
    refine Tree.branches_of_asTerm? (fun l hl => ?_) h
    obtain ⟨e, he, hs⟩ := Tree.exists_of_mem_survivors hl
    exact ih e he hs

/-- **Each group that is left has two terms or more, and none is left alone.** -/
theorem Tree.branches_survived (t : Tree (α × Bool)) :
    (∀ g, t.survived.Inside g → 2 ≤ g.terms.length) ∧ ∀ g, t.survived ≠ [.group g] := by
  have hlinks : ∀ l ∈ Tree.survivors .or t, l.term.Branches := by
    intro l hl
    obtain ⟨e, -, hs⟩ := Tree.exists_of_mem_survivors hl
    exact Element.branches_of_survivor? hs
  obtain ⟨hterms, halone⟩ := Tree.branches_of_mem_opened (Tree.branches_of_mem_ofLinks hlinks)
  rw [Tree.survived_eq]
  exact ⟨fun g hg => hg.two_le hterms, halone⟩

end Junction
