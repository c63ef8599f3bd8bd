import Mathlib.Data.List.Basic
import Junction.Proofs.Tree.WellFormed
import Junction.Tree.Filter

/-!
# Dropping leaves, link by link

`Tree.filterM` walks along a tree with the elements kept so far, takes the last of them away again
when a term is dropped, and passes over an operator at the beginning. On a tree that alternates all
this comes to one rule: **the links whose term is kept stay, and the first of them loses its
operator** (`Tree.Alternates.filterOnto_eq`). The rule is over any lawful monad, so it holds for a predicate
with a state as well.

From it follow, by induction on elements:

* `Tree.WellFormed.filterM_run`: what is left of a well-formed tree is well formed, and its leaves
  are leaves of the tree, also where the predicate keeps a state;
* `Tree.WellFormed.filter_filter`: dropping twice is dropping once. Inside a tree this is
  `Element.WellFormed.kept_bind_kept`, by induction on elements; at the top a group may be opened
  in between, which makes no difference (`Tree.WellFormed.filter_opened`).
-/

namespace Junction

variable {α : Type} {m : Type → Type}

/-! ### The rule -/

/-- What is left of a link: its operator goes with its term. -/
def Link.filterM [Monad m] (keep : α → m Bool) (l : Link α) : m (Option (Link α)) := do
  return (← l.term.filterM keep).map fun e => ⟨l.operator, e⟩

section Rule

variable [Monad m] [LawfulMonad m] {keep : α → m Bool}

/-- An operator is kept until a term goes. -/
theorem Tree.filterOnto_operator (kept : List (Element α)) (o : Operator) (t : Tree α) :
    Tree.filterOnto keep kept false (.operator o :: t)
      = Tree.filterOnto keep (.operator o :: kept) false t := by
  simp [Tree.filterOnto, Element.filterM]

omit [LawfulMonad m] in
/-- A term after an operator: kept, or dropped together with the operator. -/
theorem Tree.filterOnto_joined {kept : List (Element α)} (hk : kept ≠ []) (o : Operator)
    (e : Element α) (t : Tree α) :
    Tree.filterOnto keep (.operator o :: kept) false (e :: t) = (do
      match ← e.filterM keep with
      | some e => Tree.filterOnto keep (e :: .operator o :: kept) false t
      | none => Tree.filterOnto keep kept false t) := by
  have hempty : kept.isEmpty = false := by simpa using hk
  refine bind_congr fun r => ?_
  cases r with
  | some e => rfl
  | none =>
    change Tree.filterOnto keep kept kept.isEmpty t = _
    rw [hempty]

omit [LawfulMonad m] in
/-- A term at the beginning: kept, or dropped together with the operator after it. -/
theorem Tree.filterOnto_first (e : Element α) (t : Tree α) :
    Tree.filterOnto keep [] false (e :: t) = (do
      match ← e.filterM keep with
      | some e => Tree.filterOnto keep [e] false t
      | none => Tree.filterOnto keep [] true t) := by
  refine bind_congr fun r => ?_
  cases r <;> rfl

/-- The rule after some term has been kept. -/
theorem Tree.Alternates.filterOnto_joined {t : Tree α} (h : t.Alternates)
    {kept : List (Element α)} (hk : kept ≠ []) (o : Operator) :
    Tree.filterOnto keep (.operator o :: kept) false t = do
      return kept.reverse
        ++ (← (Tree.linksFrom o t).filterMapM (Link.filterM keep)).flatMap Link.elements := by
  induction h generalizing kept o with
  | term he =>
    rw [Tree.filterOnto_joined hk, Tree.linksFrom_term he, List.filterMapM_cons]
    simp only [Link.filterM, bind_assoc, pure_bind, Tree.linksFrom_nil, List.filterMapM_nil]
    refine bind_congr fun r => ?_
    cases r with
    | none => simp [Tree.filterOnto]
    | some e => simp [Tree.filterOnto, Link.elements]
  | @join e o' t he _ ih =>
    rw [Tree.filterOnto_joined hk, Tree.linksFrom_term he, Tree.linksFrom_operator,
      List.filterMapM_cons]
    simp only [Link.filterM, bind_assoc, pure_bind]
    refine bind_congr fun r => ?_
    cases r with
    | none =>
      -- the term has taken its operator along, and the one after it takes its place
      change Tree.filterOnto keep kept false (.operator o' :: t) = _
      rw [Tree.filterOnto_operator, ih hk]
      rfl
    | some e' =>
      change Tree.filterOnto keep (e' :: .operator o :: kept) false (.operator o' :: t) = _
      rw [Tree.filterOnto_operator, ih (List.cons_ne_nil _ _)]
      simp [Link.elements]

/-- **The rule.** Of a tree that alternates, the links with a kept term are left, and the first of
them loses its operator. -/
theorem Tree.Alternates.filterOnto_eq {t : Tree α} (h : t.Alternates) (o : Operator) :
    Tree.filterOnto keep [] false t = do
      return Tree.ofLinks (← (Tree.linksFrom o t).filterMapM (Link.filterM keep)) := by
  induction h generalizing o with
  | term he =>
    rw [Tree.filterOnto_first, Tree.linksFrom_term he, List.filterMapM_cons]
    simp only [Link.filterM, bind_assoc, pure_bind, Tree.linksFrom_nil, List.filterMapM_nil]
    refine bind_congr fun r => ?_
    cases r with
    | none => simp [Tree.filterOnto]
    | some e => simp [Tree.filterOnto]
  | @join e o' t he ht ih =>
    rw [Tree.filterOnto_first, Tree.linksFrom_term he, Tree.linksFrom_operator,
      List.filterMapM_cons]
    simp only [Link.filterM, bind_assoc, pure_bind]
    refine bind_congr fun r => ?_
    cases r with
    | none =>
      -- the operator after a dropped first term is passed over
      change Tree.filterOnto keep [] false t = _
      rw [ih o']
      rfl
    | some e' =>
      change Tree.filterOnto keep [e'] false (.operator o' :: t) = _
      rw [Tree.filterOnto_operator, ht.filterOnto_joined (List.cons_ne_nil _ _)]
      simp

end Rule

/-! ### What is left is well formed -/

/-- A well-formed term all of whose leaves have the property `P`. -/
structure Element.TermOver (P : α → Prop) (e : Element α) : Prop where
  isTerm : e.isOperator = false
  wellFormed : e.WellFormed
  leaves : ∀ a ∈ e.leaves, P a

section Left

variable {P : α → Prop}

/-- The links of a well-formed tree are such terms. -/
theorem Tree.WellFormed.termOver_of_mem {t : Tree α} (h : t.WellFormed)
    (hP : ∀ a ∈ t.leaves, P a) {o : Operator} {l : Link α} (hl : l ∈ Tree.linksFrom o t) :
    l.term.TermOver P := by
  obtain ⟨hm, ht⟩ := Tree.mem_of_mem_linksFrom hl
  exact ⟨ht, h.inner _ hm, fun a ha => hP a (Tree.mem_leaves.mpr ⟨_, hm, ha⟩)⟩

theorem Tree.WellFormed.termOver {t : Tree α} (h : t.WellFormed) (o : Operator) :
    ∀ l ∈ Tree.linksFrom o t, l.term.TermOver fun _ => True :=
  fun _ hl => h.termOver_of_mem (fun _ _ => trivial) hl

variable {ls : List (Link α)}

/-- Such terms, put together, are a well-formed tree. -/
theorem Tree.wellFormed_ofLinks (h : ∀ l ∈ ls, l.term.TermOver P) :
    (Tree.ofLinks ls).WellFormed where
  alternates hne := by
    cases ls with
    | nil => exact absurd rfl hne
    | cons l ls => exact Tree.alternates_ofLinks fun l' hl' => (h l' hl').isTerm
  inner e he := by
    rcases Tree.mem_ofLinks he with ⟨l, hl, rfl⟩ | ho
    · exact (h l hl).wellFormed
    · cases e with
      | operator o => exact .operator o
      | leaf a => exact .leaf a
      | group g => cases ho

theorem Tree.leaves_ofLinks (h : ∀ l ∈ ls, l.term.TermOver P) :
    ∀ a ∈ (Tree.ofLinks ls).leaves, P a := by
  intro a ha
  obtain ⟨e, he, hae⟩ := Tree.mem_leaves.mp ha
  rcases Tree.mem_ofLinks he with ⟨l, hl, rfl⟩ | ho
  · exact (h l hl).leaves a hae
  · cases e with
    | operator o => exact absurd hae List.not_mem_nil
    | leaf a => cases ho
    | group g => cases ho

/-- So is the term that they come to inside a tree. -/
theorem Tree.termOver_of_asTerm? (h : ∀ l ∈ ls, l.term.TermOver P) {e : Element α}
    (he : (Tree.ofLinks ls).asTerm? = some e) : e.TermOver P := by
  match ls with
  | [] => cases he
  | [l] =>
    obtain rfl : l.term = e := Option.some.inj he
    exact h l List.mem_cons_self
  | l :: l' :: ls =>
    obtain rfl : .group (Tree.ofLinks (l :: l' :: ls)) = e := Option.some.inj he
    have hw := Tree.wellFormed_ofLinks h
    exact ⟨rfl, .group (hw.alternates (List.cons_ne_nil _ _)) hw.inner, Tree.leaves_ofLinks h⟩

/-- Opening a group at the top keeps a tree well formed and keeps its leaves. -/
theorem Tree.WellFormed.opened {t : Tree α} (h : t.WellFormed) : t.opened.WellFormed := by
  unfold Tree.opened
  split
  · exact (h.inner _ List.mem_cons_self).of_group
  · exact h

@[simp] theorem Tree.leaves_opened (t : Tree α) : t.opened.leaves = t.leaves := by
  unfold Tree.opened
  split
  · simp [Element.leaves]
  · rfl

variable {σ : Type} {keep : α → StateM σ Bool}

/-- What holds of all that is left of each link holds of the links that are left. -/
theorem Link.of_mem_filterMapM_run {Q : Element α → Prop}
    (h : ∀ l ∈ ls, ∀ s e, ((l.term.filterM keep).run s).1 = some e → Q e) (s : σ) :
    ∀ l ∈ ((ls.filterMapM (Link.filterM keep)).run s).1, Q l.term := by
  induction ls generalizing s with
  | nil =>
    intro l hl
    exact absurd hl List.not_mem_nil
  | cons l ls ih =>
    obtain ⟨hfirst, hls⟩ := List.forall_mem_cons.mp h
    intro l' hl'
    -- the links after the first are asked about in the state that it leaves
    rw [List.filterMapM_cons] at hl'
    simp only [Link.filterM, bind_assoc, pure_bind, StateT.run_bind] at hl'
    obtain ⟨⟨r, s'⟩, hr⟩ : ∃ r, (l.term.filterM keep).run s = r := ⟨_, rfl⟩
    rw [hr] at hl'
    cases r with
    | none => exact ih hls s' l' hl'
    | some e =>
      change l' ∈ ⟨l.operator, e⟩ :: ((ls.filterMapM (Link.filterM keep)).run s').1 at hl'
      rcases List.mem_cons.mp hl' with rfl | hl'
      · exact hfirst s e (by rw [hr])
      · exact ih hls s' l' hl'

/-- **What is left of a well-formed term is one**, and its leaves are leaves of the term. -/
theorem Element.TermOver.filterM_run {e e' : Element α} (h : e.TermOver P) {s : σ}
    (he' : ((e.filterM keep).run s).1 = some e') : e'.TermOver P := by
  induction e using Element.induct generalizing e' s with
  | leaf a =>
    simp only [Element.filterM, StateT.run_bind] at he'
    obtain ⟨⟨b, s'⟩, hb⟩ : ∃ r, (keep a).run s = r := ⟨_, rfl⟩
    rw [hb] at he'
    cases b with
    | false => cases he'
    | true =>
      obtain rfl : Element.leaf a = e' := Option.some.inj he'
      exact h
  | operator o => cases h.isTerm
  | group g ih =>
    -- by the rule what is left is made of links, and each of them of a term of the group
    rw [Element.filterM, h.wellFormed.alternates.filterOnto_eq .or] at he'
    refine Tree.termOver_of_asTerm? (Link.of_mem_filterMapM_run ?_ s) he'
    intro l hl s e' he'
    have hl' := h.wellFormed.of_group.termOver_of_mem h.leaves hl
    exact ih l.term (Tree.mem_of_mem_linksFrom hl).1 hl' he'

/-- **What is left of a well-formed tree is well formed**, and its leaves are leaves of the tree. -/
theorem Tree.WellFormed.filterM_run {t : Tree α} (h : t.WellFormed) (hP : ∀ a ∈ t.leaves, P a)
    (s : σ) :
    ((Tree.filterM keep t).run s).1.WellFormed
      ∧ ∀ a ∈ ((Tree.filterM keep t).run s).1.leaves, P a := by
  by_cases hne : t = []
  · subst hne
    exact ⟨.nil, fun a ha => absurd ha List.not_mem_nil⟩
  · rw [Tree.filterM, (h.alternates hne).filterOnto_eq .or]
    have hls : ∀ l ∈ (((Tree.linksFrom .or t).filterMapM (Link.filterM keep)).run s).1,
        l.term.TermOver P := by
      refine Link.of_mem_filterMapM_run (fun l hl s e he => ?_) s
      exact (h.termOver_of_mem hP hl).filterM_run he
    refine ⟨(Tree.wellFormed_ofLinks hls).opened, fun a ha => ?_⟩
    refine Tree.leaves_ofLinks hls a ?_
    rwa [← Tree.leaves_opened]

end Left

/-! ### A predicate without state -/

/-- What is left of an element where the leaves that `p` accepts are kept. -/
def Element.kept (p : α → Bool) (e : Element α) : Option (Element α) :=
  Id.run (e.filterM fun a => pure (p a))

/-- What is left of a link. -/
def Link.kept (p : α → Bool) (l : Link α) : Option (Link α) :=
  (l.term.kept p).map fun e => ⟨l.operator, e⟩

section Pure

variable {p q : α → Bool}

theorem Element.kept_leaf (a : α) :
    (Element.leaf a).kept p = if p a then some (.leaf a) else none := rfl

section Monadic

variable [Monad m] [LawfulMonad m]

/-- Where keeping has no effect on the terms of links, it has none on the links. -/
theorem Link.filterMapM_pure {ls : List (Link α)}
    (h : ∀ l ∈ ls, l.term.filterM (fun a => (pure (p a) : m Bool)) = pure (l.term.kept p)) :
    ls.filterMapM (Link.filterM fun a => (pure (p a) : m Bool))
      = pure (ls.filterMap (Link.kept p)) := by
  induction ls with
  | nil => rfl
  | cons l ls ih =>
    have hl : Link.filterM (fun a => (pure (p a) : m Bool)) l = pure (Link.kept p l) := by
      rw [Link.filterM, h l List.mem_cons_self, pure_bind]
      rfl
    have hls := ih fun l' hl' => h l' (List.mem_cons_of_mem _ hl')
    rw [List.filterMapM_cons, List.filterMap_cons, hl, pure_bind]
    -- the link is dropped, or it is the first of those that are kept
    cases Link.kept p l with
    | none => exact hls
    | some l' =>
      change ls.filterMapM _ >>= (fun ls => pure (l' :: ls)) = _
      rw [hls, pure_bind]

end Monadic

/-- The rule for a predicate without state, in a group. -/
theorem Element.kept_group {g : Tree α} (h : g.Alternates) (o : Operator) :
    (Element.group g).kept p
      = (Tree.ofLinks ((Tree.linksFrom o g).filterMap (Link.kept p))).asTerm? := by
  rw [Element.kept, Element.filterM, h.filterOnto_eq o, Link.filterMapM_pure fun _ _ => rfl]
  rfl

/-- **The rule for a predicate without state.** -/
theorem Tree.Alternates.filter_eq {t : Tree α} (h : t.Alternates) (o : Operator) :
    Tree.filter p t = (Tree.ofLinks ((Tree.linksFrom o t).filterMap (Link.kept p))).opened := by
  rw [Tree.filter, Tree.filterM, h.filterOnto_eq o, Link.filterMapM_pure fun _ _ => rfl]
  rfl

/-- In every monad a predicate without state only keeps and drops. -/
theorem Element.WellFormed.filterM_pure [Monad m] [LawfulMonad m] {e : Element α}
    (h : e.WellFormed) : e.filterM (fun a => (pure (p a) : m Bool)) = pure (e.kept p) := by
  induction h with
  | leaf a => rw [Element.filterM, pure_bind, Element.kept_leaf]
  | operator o => rfl
  | @group g alternates _ ih =>
    have hls : ∀ l ∈ Tree.linksFrom .or g,
        l.term.filterM (fun a => (pure (p a) : m Bool)) = pure (l.term.kept p) :=
      fun l hl => ih l.term (Tree.mem_of_mem_linksFrom hl).1
    rw [Element.filterM, alternates.filterOnto_eq .or, Link.filterMapM_pure hls,
      Element.kept_group alternates .or, pure_bind, pure_bind]

/-- What a predicate without state leaves of a well-formed term is one. -/
theorem Element.TermOver.kept {P : α → Prop} {e e' : Element α} (h : e.TermOver P)
    (he' : e.kept p = some e') : e'.TermOver P := by
  have hr : ((e.filterM fun a => (pure (p a) : StateM Unit Bool)).run ()).1 = some e' := by
    rw [h.wellFormed.filterM_pure]
    exact he'
  exact h.filterM_run hr

theorem Link.termOver_of_mem_filterMap {P : α → Prop} {ls : List (Link α)}
    (h : ∀ l ∈ ls, l.term.TermOver P) : ∀ l ∈ ls.filterMap (Link.kept p), l.term.TermOver P := by
  intro l' hl'
  obtain ⟨l, hl, hk⟩ := List.mem_filterMap.mp hl'
  obtain ⟨e, he, rfl⟩ := Option.map_eq_some_iff.mp hk
  exact (h l hl).kept he

/-- What a predicate without state leaves of a well-formed tree is well formed. -/
theorem Tree.WellFormed.filter {t : Tree α} (h : t.WellFormed) :
    (Tree.filter p t).WellFormed := by
  by_cases hne : t = []
  · subst hne
    exact .nil
  · rw [(h.alternates hne).filter_eq .or]
    exact (Tree.wellFormed_ofLinks (Link.termOver_of_mem_filterMap (h.termOver .or))).opened

/-! ### Dropping twice -/

/-- Dropping leaves of a term that some links come to is dropping leaves of the links. -/
theorem Tree.asTerm?_bind_kept {ls : List (Link α)} (h : ∀ l ∈ ls, l.term.isOperator = false) :
    (Tree.ofLinks ls).asTerm?.bind (Element.kept p)
      = (Tree.ofLinks (ls.filterMap (Link.kept p))).asTerm? := by
  match ls with
  | [] => rfl
  | [l] =>
    change l.term.kept p = _
    simp only [List.filterMap_cons, List.filterMap_nil, Link.kept]
    cases l.term.kept p <;> rfl
  | l :: l' :: ls =>
    change (Element.group (Tree.ofLinks (l :: l' :: ls))).kept p = _
    rw [Element.kept_group (Tree.alternates_ofLinks h) l.operator, Tree.linksFrom_ofLinks h]

/-- Dropping twice is dropping once for links if it is for their terms. -/
theorem Link.filterMap_kept_filterMap_kept {ls : List (Link α)}
    (h : ∀ l ∈ ls, (l.term.kept p).bind (Element.kept q) = l.term.kept fun a => p a && q a) :
    (ls.filterMap (Link.kept p)).filterMap (Link.kept q)
      = ls.filterMap (Link.kept fun a => p a && q a) := by
  rw [List.filterMap_filterMap]
  refine List.filterMap_congr fun l hl => ?_
  rw [Link.kept, Link.kept, ← h l hl]
  cases l.term.kept p <;> rfl

/-- **Dropping twice is dropping once**, inside a tree. -/
theorem Element.WellFormed.kept_bind_kept {e : Element α} (h : e.WellFormed) :
    (e.kept p).bind (Element.kept q) = e.kept fun a => p a && q a := by
  induction h with
  | leaf a =>
    simp only [Element.kept_leaf]
    cases p a <;> rfl
  | operator o => rfl
  | @group g alternates inner ih =>
    have hg := Tree.WellFormed.termOver ⟨fun _ => alternates, inner⟩ .or
    have hp : ∀ l ∈ (Tree.linksFrom .or g).filterMap (Link.kept p),
        l.term.isOperator = false :=
      fun l hl => (Link.termOver_of_mem_filterMap hg l hl).isTerm
    -- a group that has become a term or nothing is as good as its links for the second pass
    rw [Element.kept_group alternates .or, Element.kept_group alternates .or,
      Tree.asTerm?_bind_kept hp, Link.filterMap_kept_filterMap_kept]
    exact fun l hl => ih l.term (Tree.mem_of_mem_linksFrom hl).1

/-- Opening a tree at the top is opening the term that it is. -/
theorem Tree.opened_toList_asTerm? (t : Tree α) : Tree.opened t.asTerm?.toList = t.opened := by
  match t with
  | [] => rfl
  | [_] => rfl
  | e :: _ :: _ => cases e <;> rfl

/-- A second pass over links, put together. -/
theorem Tree.filter_ofLinks {ls : List (Link α)} (h : ∀ l ∈ ls, l.term.isOperator = false) :
    Tree.filter p (Tree.ofLinks ls) = (Tree.ofLinks (ls.filterMap (Link.kept p))).opened := by
  cases ls with
  | nil => rfl
  | cons l ls => rw [(Tree.alternates_ofLinks h).filter_eq l.operator, Tree.linksFrom_ofLinks h]

/-- **A group opened at the top makes no difference** to what a pass leaves. -/
theorem Tree.WellFormed.filter_opened {t : Tree α} (h : t.WellFormed) :
    Tree.filter p t.opened = Tree.filter p t := by
  unfold Tree.opened
  split
  · rename_i g
    have hg : (Element.group g).WellFormed := h.inner _ List.mem_cons_self
    have ht : Tree.Alternates [.group g] := .term rfl
    have hone : Tree.ofLinks ([⟨.or, .group g⟩].filterMap (Link.kept p))
        = ((Element.group g).kept p).toList := by
      simp only [List.filterMap_cons, List.filterMap_nil, Link.kept]
      cases (Element.group g).kept p <;> rfl
    -- outside the group is one link, and what is left of it is what is left inside as a term
    rw [hg.alternates.filter_eq .or, ht.filter_eq .or, Tree.linksFrom_term rfl,
      Tree.linksFrom_nil, hone, Element.kept_group hg.alternates .or,
      Tree.opened_toList_asTerm?]
  · rfl

/-- **Dropping twice is dropping once**, for a whole tree. -/
theorem Tree.WellFormed.filter_filter {t : Tree α} (h : t.WellFormed) :
    Tree.filter q (Tree.filter p t) = Tree.filter (fun a => p a && q a) t := by
  by_cases hne : t = []
  · subst hne
    rfl
  · -- both filters work on the links, and what the first one keeps are links again
    have ht := h.termOver .or
    have hls := Link.termOver_of_mem_filterMap (p := p) ht
    have hterm : ∀ l ∈ (Tree.linksFrom .or t).filterMap (Link.kept p),
        l.term.isOperator = false := fun l hl => (hls l hl).isTerm
    calc Tree.filter q (Tree.filter p t)
        = Tree.filter q (Tree.ofLinks ((Tree.linksFrom .or t).filterMap (Link.kept p))) := by
          rw [(h.alternates hne).filter_eq .or, (Tree.wellFormed_ofLinks hls).filter_opened]
      _ = (Tree.ofLinks (((Tree.linksFrom .or t).filterMap (Link.kept p)).filterMap
            (Link.kept q))).opened := Tree.filter_ofLinks hterm
      _ = (Tree.ofLinks ((Tree.linksFrom .or t).filterMap
            (Link.kept fun a => p a && q a))).opened := by
          rw [Link.filterMap_kept_filterMap_kept fun l hl => (ht l hl).wellFormed.kept_bind_kept]
      _ = Tree.filter (fun a => p a && q a) t := ((h.alternates hne).filter_eq .or).symm

end Pure

end Junction
