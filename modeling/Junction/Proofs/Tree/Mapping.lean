import Junction.Proofs.Tree.WellFormed

/-!
# Trees with other leaves

A leaf hook puts each leaf of a tree through an action, from left to right, and leaves operators and
groups as they are: `Tree.mapM`. What it does is done to the leaves in their order, each of them once
(`Tree.mapM_leaves`). The tree stays well formed, whatever state the hook keeps
(`Tree.WellFormed.mapM_run`), and a hook that does nothing leaves it as it is (`Tree.mapM_pure`).

Where the action is a function, `Tree.map`, the events of the tree are put through it one by one
(`Tree.events_map`). A function that forgets the leaves leaves the **shape** of the tree, which a hook does
not change (`Tree.shape_mapM_run`); shape and leaves together are the tree (`Tree.eq_of_shape_eq`).
-/

namespace Junction

variable {α β : Type} {m : Type → Type}

mutual

/-- An element with each leaf put through an action. -/
def Element.mapM [Monad m] (hook : α → m β) : Element α → m (Element β)
  | .leaf a => do return .leaf (← hook a)
  | .operator o => pure (.operator o)
  | .group g => do return .group (← Tree.mapM hook g)
termination_by structural e => e

/-- **A tree with each leaf put through an action**, from left to right. -/
def Tree.mapM [Monad m] (hook : α → m β) : Tree α → m (Tree β)
  | [] => pure []
  | e :: later => do return (← e.mapM hook) :: (← Tree.mapM hook later)
termination_by structural t => t

end

/-! ### Laws -/

/-- A hook that does nothing leaves an element as it is. -/
theorem Element.mapM_pure [Monad m] [LawfulMonad m] (e : Element α) :
    e.mapM (fun a => (pure a : m α)) = pure e := by
  induction e using Element.induct with
  | leaf a => rw [Element.mapM, pure_bind]
  | operator o => rfl
  | group g ih =>
    -- the group is rebuilt element by element
    have hg : Tree.mapM (fun a => (pure a : m α)) g = pure g := by
      induction g with
      | nil => rfl
      | cons e g ihg =>
        rw [Tree.mapM, ih e List.mem_cons_self, pure_bind,
          ihg fun e' he' => ih e' (List.mem_cons_of_mem _ he'), pure_bind]
    rw [Element.mapM, hg, pure_bind]

theorem Tree.mapM_pure [Monad m] [LawfulMonad m] (t : Tree α) :
    Tree.mapM (fun a => (pure a : m α)) t = pure t := by
  induction t with
  | nil => rfl
  | cons e t ih => rw [Tree.mapM, e.mapM_pure, pure_bind, ih, pure_bind]

section Leaves

variable [Monad m] [LawfulMonad m] {hook : α → m β}

/-- If the leaves of each element are put through the action in their order, those of a tree are. -/
theorem Tree.mapM_leaves_of_mem {t : Tree α}
    (h : ∀ e ∈ t, e.leaves.mapM hook = do return (← e.mapM hook).leaves) :
    t.leaves.mapM hook = do return (← Tree.mapM hook t).leaves := by
  induction t with
  | nil => rw [Tree.mapM, pure_bind]; rfl
  | cons e t ih =>
    rw [Tree.leaves_cons, List.mapM_append, h e List.mem_cons_self,
      ih fun e' he' => h e' (List.mem_cons_of_mem _ he'), Tree.mapM]
    simp only [bind_assoc, pure_bind, Tree.leaves_cons]

theorem Element.mapM_leaves (e : Element α) :
    e.leaves.mapM hook = do return (← e.mapM hook).leaves := by
  induction e using Element.induct with
  | leaf a => simp [Element.leaves, Element.mapM]
  | operator o => simp [Element.leaves, Element.mapM]
  | group g ih =>
    rw [Element.mapM]
    simp only [bind_assoc, pure_bind]
    exact Tree.mapM_leaves_of_mem ih

/-- **The leaves are put through the action in their order**, each of them once. -/
theorem Tree.mapM_leaves (t : Tree α) :
    t.leaves.mapM hook = do return (← Tree.mapM hook t).leaves :=
  Tree.mapM_leaves_of_mem fun e _ => e.mapM_leaves

end Leaves

section Shape

variable {σ : Type} {hook : α → StateM σ β}

theorem Element.isOperator_mapM_run (e : Element α) (s : σ) :
    ((e.mapM hook).run s).1.isOperator = e.isOperator := by
  cases e <;> rfl

theorem Tree.Alternates.mapM_run {t : Tree α} (h : t.Alternates) (s : σ) :
    Tree.Alternates ((Tree.mapM hook t).run s).1 := by
  induction h generalizing s with
  | @term e he => exact .term ((e.isOperator_mapM_run s).trans he)
  | @join e o t he _ ih => exact .join ((e.isOperator_mapM_run s).trans he) (ih _)

theorem Tree.of_mem_mapM_run {t : Tree α} {P : Element β → Prop}
    (h : ∀ e ∈ t, ∀ s, P ((e.mapM hook).run s).1) (s : σ) :
    ∀ e ∈ ((Tree.mapM hook t).run s).1, P e := by
  induction t generalizing s with
  | nil => exact fun e he => absurd he List.not_mem_nil
  | cons e t ih =>
    intro e' he'
    rcases List.mem_cons.mp he' with rfl | he'
    · exact h e List.mem_cons_self s
    · exact ih (fun e'' he'' => h e'' (List.mem_cons_of_mem _ he'')) _ e' he'

theorem Element.WellFormed.mapM_run {e : Element α} (h : e.WellFormed) (s : σ) :
    ((e.mapM hook).run s).1.WellFormed := by
  induction h generalizing s with
  | leaf a => exact .leaf _
  | operator o => exact .operator o
  | group alternates _ ih =>
    exact .group (alternates.mapM_run s) (Tree.of_mem_mapM_run (fun e he => ih e he) s)

/-- **Putting leaves through an action keeps a tree well formed.** -/
theorem Tree.WellFormed.mapM_run {t : Tree α} (h : t.WellFormed) (s : σ) :
    Tree.WellFormed ((Tree.mapM hook t).run s).1 where
  alternates hne := by
    refine (h.alternates fun ht => hne ?_).mapM_run s
    rw [ht]
    rfl
  inner := Tree.of_mem_mapM_run (fun e he => (h.inner e he).mapM_run) s

end Shape

/-! ### Functions -/

mutual

/-- An element with each leaf put through a function. -/
def Element.map (g : α → β) : Element α → Element β
  | .leaf a => .leaf (g a)
  | .operator o => .operator o
  | .group t => .group (Tree.map g t)
termination_by structural e => e

/-- **A tree with each leaf put through a function.** -/
def Tree.map (g : α → β) : Tree α → Tree β
  | [] => []
  | e :: later => e.map g :: Tree.map g later
termination_by structural t => t

end

/-- An event with its leaf put through a function. -/
def Event.map (g : α → β) : Event α → Event β
  | .openGroup => .openGroup
  | .closeGroup => .closeGroup
  | .operator o => .operator o
  | .leaf a => .leaf (g a)

section Functions

variable {γ : Type} {g : α → β} {h : β → γ}

theorem Tree.map_eq (t : Tree α) : Tree.map g t = List.map (Element.map g) t := by
  induction t with
  | nil => rfl
  | cons e t ih => rw [Tree.map, ih, List.map_cons]

theorem Element.map_map (e : Element α) : (e.map g).map h = e.map fun a => h (g a) := by
  induction e using Element.induct with
  | leaf a => rfl
  | operator o => rfl
  | group t ih =>
    rw [Element.map, Element.map, Element.map, Tree.map_eq, Tree.map_eq, Tree.map_eq, List.map_map]
    exact congrArg Element.group (List.map_congr_left ih)

theorem Tree.map_map (t : Tree α) : Tree.map h (Tree.map g t) = Tree.map (fun a => h (g a)) t := by
  rw [Tree.map_eq, Tree.map_eq, Tree.map_eq, List.map_map]
  exact List.map_congr_left fun e _ => e.map_map

theorem Element.map_id (e : Element α) : e.map (fun a => a) = e := by
  induction e using Element.induct with
  | leaf a => rfl
  | operator o => rfl
  | group t ih =>
    rw [Element.map, Tree.map_eq, List.map_congr_left ih, List.map_id']

theorem Tree.map_id (t : Tree α) : Tree.map (fun a => a) t = t := by
  rw [Tree.map_eq, List.map_congr_left fun e _ => e.map_id, List.map_id']

/-- The events of an element are put through the function. -/
theorem Element.events_map (e : Element α) : (e.map g).events = e.events.map (Event.map g) := by
  induction e using Element.induct with
  | leaf a => rfl
  | operator o => rfl
  | group t ih =>
    -- the events inside the group, one element after the other
    have ht : Tree.events (Tree.map g t) = (Tree.events t).map (Event.map g) := by
      induction t with
      | nil => rfl
      | cons e t iht =>
        rw [Tree.map, Tree.events_cons, Tree.events_cons, List.map_append, ih e List.mem_cons_self,
          iht fun e' he' => ih e' (List.mem_cons_of_mem _ he')]
    rw [Element.map, Element.events, Element.events, ht, List.map_append, List.map_cons]
    rfl

/-- **The events of a tree are put through the function.** -/
theorem Tree.events_map (t : Tree α) :
    Tree.events (Tree.map g t) = (Tree.events t).map (Event.map g) := by
  induction t with
  | nil => rfl
  | cons e t ih => rw [Tree.map, Tree.events_cons, Tree.events_cons, List.map_append, e.events_map, ih]

end Functions

/-! ### Shape -/

section Hooked

variable {γ σ : Type} {hook : α → StateM σ β} {g : β → γ} {g' : α → γ}

/-- If a function is as good on the hooked leaves of each element as another on the leaves, it is on those
of the tree. -/
theorem Tree.map_mapM_run_of_mem {t : Tree α}
    (h : ∀ e ∈ t, ∀ s, ((e.mapM hook).run s).1.map g = e.map g') (s : σ) :
    Tree.map g ((Tree.mapM hook t).run s).1 = Tree.map g' t := by
  induction t generalizing s with
  | nil => rfl
  | cons e t ih =>
    change ((e.mapM hook).run s).1.map g :: Tree.map g _ = e.map g' :: Tree.map g' t
    rw [h e List.mem_cons_self]
    exact congrArg (e.map g' :: ·) (ih (fun e' he' => h e' (List.mem_cons_of_mem _ he')) _)

theorem Element.map_mapM_run (h : ∀ a s, g ((hook a).run s).1 = g' a) (e : Element α) (s : σ) :
    ((e.mapM hook).run s).1.map g = e.map g' := by
  induction e using Element.induct generalizing s with
  | leaf a => exact congrArg Element.leaf (h a s)
  | operator o => rfl
  | group t ih => exact congrArg Element.group (Tree.map_mapM_run_of_mem ih s)

/-- **A function of the hooked leaves** that is one of the leaves themselves. -/
theorem Tree.map_mapM_run (h : ∀ a s, g ((hook a).run s).1 = g' a) (t : Tree α) (s : σ) :
    Tree.map g ((Tree.mapM hook t).run s).1 = Tree.map g' t :=
  Tree.map_mapM_run_of_mem (fun e _ => e.map_mapM_run h) s

end Hooked

/-- **The shape of a tree**: its operators and groups, and the places of its leaves. -/
def Tree.shape (t : Tree α) : Tree Unit := Tree.map (fun _ => ()) t

/-- **A hook does not change the shape.** -/
theorem Tree.shape_mapM_run {σ : Type} {hook : α → StateM σ β} (t : Tree α) (s : σ) :
    Tree.shape ((Tree.mapM hook t).run s).1 = t.shape :=
  Tree.map_mapM_run (fun _ _ => rfl) t s

/-- If each element is known by its shape and its leaves, whatever leaves come after it, a tree is. -/
theorem Tree.eq_of_shape_eq_of_mem {t u : Tree α} {p q : List α}
    (h : ∀ x ∈ t, ∀ (y : Element α) (p q : List α), x.map (fun _ => ()) = y.map (fun _ => ()) →
      x.leaves ++ p = y.leaves ++ q → x = y ∧ p = q)
    (hshape : t.shape = u.shape) (hleaves : t.leaves ++ p = u.leaves ++ q) : t = u ∧ p = q := by
  induction t generalizing u with
  | nil =>
    cases u with
    | nil => exact ⟨rfl, hleaves⟩
    | cons y u => cases hshape
  | cons x t ih =>
    cases u with
    | nil => cases hshape
    | cons y u =>
      obtain ⟨hx, ht⟩ := List.cons.inj hshape
      rw [Tree.leaves_cons, Tree.leaves_cons, List.append_assoc, List.append_assoc] at hleaves
      -- the first elements have the same leaves, so the leaves of the others are the same too
      obtain ⟨rfl, hrest⟩ := h x List.mem_cons_self y _ _ hx hleaves
      obtain ⟨rfl, hpq⟩ := ih (fun x' hx' => h x' (List.mem_cons_of_mem _ hx')) ht hrest
      exact ⟨rfl, hpq⟩

theorem Element.eq_of_shape_eq (x : Element α) : ∀ (y : Element α) (p q : List α),
    x.map (fun _ => ()) = y.map (fun _ => ()) → x.leaves ++ p = y.leaves ++ q → x = y ∧ p = q := by
  -- elements of two kinds differ in shape
  induction x using Element.induct with
  | leaf a =>
    intro y p q hshape hleaves
    cases y with
    | leaf b =>
      obtain ⟨rfl, hpq⟩ := List.cons.inj hleaves
      exact ⟨rfl, hpq⟩
    | operator o => cases hshape
    | group u => cases hshape
  | operator o =>
    intro y p q hshape hleaves
    cases y with
    | leaf b => cases hshape
    | operator o' => exact ⟨congrArg Element.operator (Element.operator.inj hshape), hleaves⟩
    | group u => cases hshape
  | group t ih =>
    intro y p q hshape hleaves
    cases y with
    | leaf b => cases hshape
    | operator o => cases hshape
    | group u =>
      obtain ⟨rfl, hpq⟩ := Tree.eq_of_shape_eq_of_mem ih (Element.group.inj hshape) hleaves
      exact ⟨rfl, hpq⟩

/-- **A tree is known by its shape and its leaves.** -/
theorem Tree.eq_of_shape_eq {t u : Tree α} (hshape : t.shape = u.shape) (hleaves : t.leaves = u.leaves) :
    t = u :=
  (Tree.eq_of_shape_eq_of_mem (p := []) (q := []) (fun x _ => x.eq_of_shape_eq) hshape
    (congrArg (· ++ []) hleaves)).1

end Junction
