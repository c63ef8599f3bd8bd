import Junction.Proofs.Tree.Asking
import Junction.Proofs.Tree.Pruning

/-!
# Evaluating the answered leaves

Leaves without an answer can be left out in two ways: they are dropped from the tree and what is left
is evaluated, or the tree is evaluated as it is and they contribute nothing. Both come to the same
value and ask about the same leaves (`Tree.WellFormed.mirrors_filter`).

The comparison is in two steps. First, evaluating what is left of a tree is a walk over the links of
the tree itself, in which a dropped term has no value (`Tree.WellFormed.valueM_filter`). So a link that
is dropped, one that is passed over and a group of one term, which becomes that term, all come to
the same. Second, the two walks agree link by link, up to the calls for leaves without an answer
(`Mirrors`).
-/

namespace Junction

variable {α β : Type} {m : Type → Type}

/-! ### Evaluating what is left -/

section Kept

variable [Monad m]

/-- The value of a term, none where there is no term. -/
def Element.valueM? (ask : α → m Bool) : Option (Element α) → m (Option Bool)
  | none => pure none
  | some e => e.valueM ask

/-- The value of what is left of a term; a term that is dropped has none. -/
def Element.keptValueM (keep : α → Bool) (ask : α → m Bool) (e : Element α) :
    m (Option Bool) :=
  Element.valueM? ask (e.kept keep)

variable [LawfulMonad m] {keep : α → Bool} {ask : α → m Bool}

/-- To drop links is to let their terms have no value. -/
theorem Link.evalM_filterMap_kept (soFar : Option Bool) (ls : List (Link α)) :
    Link.evalM (Element.valueM ask) soFar (ls.filterMap (Link.kept keep))
      = Link.evalM (Element.keptValueM keep ask) soFar ls := by
  induction ls generalizing soFar with
  | nil => rfl
  | cons l ls ih =>
    cases hd : soFar.any l.operator.decides with
    | true =>
      -- the link is passed over, and so it is if it is left
      rw [Link.evalM_of_decides hd, ← ih, List.filterMap_cons, Link.kept]
      cases l.term.kept keep with
      | none => rfl
      | some e => exact Link.evalM_of_decides (by exact hd) _
    | false =>
      rw [Link.evalM_of_not_decides hd, List.filterMap_cons, Link.kept, Element.keptValueM]
      -- a term that is dropped leaves the value so far as it is
      cases l.term.kept keep with
      | none =>
        rw [show Element.valueM? ask (none : Option (Element α)) = pure none from rfl, pure_bind,
          Option.none_or]
        exact ih soFar
      | some e =>
        change Link.evalM _ soFar (⟨l.operator, e⟩ :: ls.filterMap (Link.kept keep)) = _
        rw [Link.evalM_of_not_decides (by exact hd)]
        exact bind_congr fun v => ih (v.or soFar)

/-- The value of the term that some links come to is the value of the links. -/
theorem Tree.valueM_asTerm? {ls : List (Link α)} (h : ∀ l ∈ ls, l.term.isOperator = false) :
    Element.valueM? ask (Tree.ofLinks ls).asTerm? = Link.evalM (Element.valueM ask) none ls := by
  rcases ls with _ | ⟨l, _ | ⟨l', ls⟩⟩
  · rfl
  · rw [Link.evalM_none_cons]
    exact (bind_pure _).symm
  · change (Element.group (Tree.ofLinks (l :: l' :: ls))).valueM ask = _
    rw [Element.valueM_group (Tree.alternates_ofLinks h) l.operator, Tree.linksFrom_ofLinks h]

/-- **The value of what is left of a group** is that of its links, dropped terms having none. -/
theorem Element.keptValueM_group {g : Tree α} (h : (Element.group g).WellFormed)
    (o : Operator) :
    (Element.group g).keptValueM keep ask
      = Link.evalM (Element.keptValueM keep ask) none (Tree.linksFrom o g) := by
  have hls := h.of_group.termOver o
  rw [Element.keptValueM, Element.kept_group h.alternates o, Tree.valueM_asTerm?,
    Link.evalM_filterMap_kept]
  exact fun l hl => (Link.termOver_of_mem_filterMap hls l hl).isTerm

/-- The value of a tree, none if it is empty. -/
def Tree.valueM (ask : α → m Bool) : Tree α → m (Option Bool)
  | [] => pure none
  | t => do return some (← Tree.evalM ask t)

omit [LawfulMonad m] in
theorem Tree.valueM_of_ne_nil {t : Tree α} (h : t ≠ []) :
    t.valueM ask = do return some (← Tree.evalM ask t) := by
  cases t with
  | nil => exact absurd rfl h
  | cons e t => rfl

/-- Opening a group at the top does not change the value. -/
theorem Tree.WellFormed.valueM_opened {t : Tree α} (h : t.WellFormed) :
    t.opened.valueM ask = Element.valueM? ask t.asTerm? := by
  -- only a single group is opened
  rcases t with _ | ⟨e, _ | ⟨e', t⟩⟩
  · rfl
  · cases e with
    | leaf a =>
      change (do return some (← Tree.evalFrom ask false false .or [.leaf a])) = _
      rw [Tree.evalFrom_term rfl]
      simp [Tree.evalFrom, Operator.apply, Tree.asTerm?, Element.valueM?, Element.valueM,
        Element.evalM]
    | operator o => cases h.alternates (List.cons_ne_nil _ _) with | term he => cases he
    | group g =>
      have hg : g ≠ [] := (h.inner _ List.mem_cons_self).alternates.ne_nil
      cases g with
      | nil => exact absurd rfl hg
      | cons e g => rfl
  · cases e <;> rfl

/-- **The value of what is left of a tree** is that of its links, dropped terms having none. -/
theorem Tree.WellFormed.valueM_filter {t : Tree α} (h : t.WellFormed) :
    (Tree.filter keep t).valueM ask
      = Link.evalM (Element.keptValueM keep ask) none (Tree.linksFrom .or t) := by
  by_cases hne : t = []
  · subst hne
    rfl
  · -- what is kept of the links is well-formed again
    have hls := Link.termOver_of_mem_filterMap (p := keep) (h.termOver .or)
    have hterm : ∀ l ∈ (Tree.linksFrom .or t).filterMap (Link.kept keep),
        l.term.isOperator = false := fun l hl => (hls l hl).isTerm
    calc (Tree.filter keep t).valueM ask
        = (Tree.ofLinks ((Tree.linksFrom .or t).filterMap (Link.kept keep))).opened.valueM ask := by
          rw [(h.alternates hne).filter_eq .or]
      _ = Link.evalM (Element.valueM ask) none
            ((Tree.linksFrom .or t).filterMap (Link.kept keep)) := by
          rw [(Tree.wellFormed_ofLinks hls).valueM_opened, Tree.valueM_asTerm? hterm]
      _ = Link.evalM (Element.keptValueM keep ask) none (Tree.linksFrom .or t) :=
          Link.evalM_filterMap_kept none _

end Kept

/-! ### The two walks side by side -/

section Answered

variable (p : α → Option Bool)

/-- `y` ends as `x` does if it begins with the answered ones of the calls that `x` begins with: with
the same value, and the answered ones of the calls that `x` ends with. -/
def Mirrors (x y : StateM (List α) β) : Prop :=
  ∀ calls, y.run (calls.filter fun a => (p a).isSome)
    = ((x.run calls).1, (x.run calls).2.filter fun a => (p a).isSome)

variable {p}

theorem Mirrors.pure (v : β) :
    Mirrors p (pure v : StateM (List α) β) (pure v : StateM (List α) β) := fun _ => rfl

theorem Mirrors.bind {γ : Type} {x y : StateM (List α) β} {f g : β → StateM (List α) γ}
    (hx : Mirrors p x y) (hf : ∀ v, Mirrors p (f v) (g v)) :
    Mirrors p (x >>= f) (y >>= g) := by
  intro calls
  rw [StateT.run_bind, hx calls]
  exact hf _ _

/-- Asking about a leaf, and asking about it if it has an answer. -/
theorem Element.mirrors_leaf (a : α) :
    Mirrors p ((Element.leaf a).evalKnownM (recorded p))
      ((Element.leaf a).keptValueM (fun a => (p a).isSome) (recorded fun a => p a == some true)) := by
  intro calls
  rw [Element.keptValueM, Element.kept_leaf]
  cases h : p a with
  | none =>
    -- the call is noted down on one side only, and is not an answered one
    rw [Element.evalKnownM, run_recorded, h, List.filter_append, List.filter_singleton, h]
    exact congrArg (none, ·) (List.append_nil _).symm
  | some v =>
    -- the call is noted down on both sides, and the answer is the same
    rw [Element.evalKnownM, run_recorded, h, List.filter_append, List.filter_singleton, h]
    change (some (p a == some true), _) = _
    rw [h]
    cases v <;> rfl

/-- If the two walks agree on the terms of links, they agree on the links. -/
theorem Link.mirrors_evalM {value value' : Element α → StateM (List α) (Option Bool)}
    {ls : List (Link α)} (h : ∀ l ∈ ls, Mirrors p (value l.term) (value' l.term))
    (soFar : Option Bool) :
    Mirrors p (Link.evalM value soFar ls) (Link.evalM value' soFar ls) :=
  Link.evalM_rel (R := Mirrors p) .pure (fun _ _ _ _ hx hf => hx.bind hf) h soFar

/-- **The two walks agree on a term.** -/
theorem Element.WellFormed.mirrors {e : Element α} (h : e.WellFormed)
    (he : e.isOperator = false) :
    Mirrors p (e.evalKnownM (recorded p))
      (e.keptValueM (fun a => (p a).isSome) (recorded fun a => p a == some true)) := by
  induction h with
  | leaf a => exact Element.mirrors_leaf a
  | operator o => cases he
  | group alternates inner ih =>
    rw [Element.evalKnownM_group alternates .or,
      Element.keptValueM_group (.group alternates inner) .or]
    refine Link.mirrors_evalM (fun l hl => ?_) none
    have hm := Tree.mem_of_mem_linksFrom hl
    exact ih l.term hm.1 hm.2

/-- **The two walks agree on a tree.** -/
theorem Tree.WellFormed.mirrors_filter {t : Tree α} (h : t.WellFormed) :
    Mirrors p (Tree.evalKnownM (recorded p) t)
      ((Tree.filter (fun a => (p a).isSome) t).valueM (recorded fun a => p a == some true)) := by
  by_cases hne : t = []
  · subst hne
    exact .pure none
  · rw [h.valueM_filter, (h.alternates hne).evalKnownM_eq .or]
    refine Link.mirrors_evalM (fun l hl => ?_) none
    have hm := Tree.mem_of_mem_linksFrom hl
    exact (h.inner _ hm.1).mirrors hm.2

/-- Evaluating what is left without the leaves that have no answer, with the calls noted down. -/
theorem Tree.WellFormed.run_valueM_filter {t : Tree α} (h : t.WellFormed) :
    ((Tree.filter (fun a => (p a).isSome) t).valueM (recorded fun a => p a == some true)).run []
      = (Tree.evalKnown p t, (Tree.askedKnown p t).filter fun a => (p a).isSome) := by
  have hsides := h.mirrors_filter (p := p) []
  have hvalue := h.evalKnownM_recorded p []
  rw [List.filter_nil, hvalue] at hsides
  exact hsides

/-- The value of a tree that is not empty, with the calls noted down. -/
theorem Tree.WellFormed.run_valueM {t : Tree α} (h : t.WellFormed) (hne : t ≠ [])
    (q : α → Bool) : (t.valueM (recorded q)).run [] = (some (Tree.eval q t), Tree.asked q t) := by
  have hvalue := h.evalM_recorded q []
  rw [Tree.valueM_of_ne_nil hne, StateT.run_bind]
  exact Prod.ext (congrArg some hvalue) rfl

end Answered

end Junction
