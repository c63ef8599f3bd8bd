import Junction.Tree.Basic

/-!
# Well-formed trees

A tree is well formed when its elements **alternate**: a term, an operator, a term, and so on, with
a term at either end; and when the same holds in each group, none of which is empty. Only the
tree itself may be empty.

Evaluating and pruning a tree walk along its elements with a flag for the element to pass over. On a
tree that alternates the walk is one over **links**, each term together with the operator before
it, and most facts are easier to say of links:

* `Tree.linksFrom` are the links of a tree, given an operator to stand before the first term;
* `Tree.ofLinks` puts links together again and leaves out the operator of the first.

`Tree.InTurn` says by places what `Tree.Alternates` says by construction, and `Tree.Inside` takes it to
the groups at any depth.

`Element.induct` is induction on an element whose hypothesis is about each element of a group, and
`Tree.inductTerms` is induction along a tree that tells operators from terms.
-/

namespace Junction

variable {α : Type}

/-- **Induction on an element.** What holds of a group as soon as it holds of each element in it
holds of every element. -/
theorem Element.induct {motive : Element α → Prop} (leaf : ∀ a, motive (.leaf a))
    (operator : ∀ o, motive (.operator o))
    (group : ∀ g : Tree α, (∀ e ∈ g, motive e) → motive (.group g)) (e : Element α) : motive e := by
  refine @Element.rec α motive (fun g => ∀ e ∈ g, motive e) leaf operator group ?_ ?_ e
  · intro e he
    exact absurd he List.not_mem_nil
  · intro e g he hg e' h
    rcases List.mem_cons.mp h with rfl | h
    · exact he
    · exact hg e' h

/-- **Induction along a tree**, with operators and terms told apart. -/
theorem Tree.inductTerms {motive : Tree α → Prop} (nil : motive [])
    (operator : ∀ o t, motive t → motive (.operator o :: t))
    (term : ∀ e t, e.isOperator = false → motive t → motive (e :: t)) (t : Tree α) : motive t := by
  induction t with
  | nil => exact nil
  | cons e t ih =>
    cases e with
    | leaf a => exact term _ t rfl ih
    | operator o => exact operator o t ih
    | group g => exact term _ t rfl ih

/-! ### Alternation -/

/-- **Alternation**: terms with an operator between each two, at least one term. -/
inductive Tree.Alternates : Tree α → Prop
  | term {e : Element α} (he : e.isOperator = false) : Alternates [e]
  | join {e : Element α} {o : Operator} {t : Tree α} (he : e.isOperator = false)
      (ht : Alternates t) : Alternates (e :: .operator o :: t)

theorem Tree.Alternates.ne_nil {t : Tree α} (h : t.Alternates) : t ≠ [] := by
  cases h <;> exact List.cons_ne_nil _ _

/-- One more operator and term keep the alternation. -/
theorem Tree.Alternates.snoc {t : Tree α} (h : t.Alternates) (o : Operator) {e : Element α}
    (he : e.isOperator = false) : Tree.Alternates (t ++ [.operator o, e]) := by
  induction h with
  | term he' => exact .join he' (.term he)
  | join he' _ ih => exact .join he' ih

/-- An element is well formed if each group in it alternates. -/
inductive Element.WellFormed : Element α → Prop
  | leaf (a : α) : WellFormed (.leaf a)
  | operator (o : Operator) : WellFormed (.operator o)
  | group {g : Tree α} (alternates : Tree.Alternates g) (inner : ∀ e ∈ g, WellFormed e) :
      WellFormed (.group g)

/-- **A well-formed tree**: it is empty or alternates, and so does each group in it, which is not
empty. -/
structure Tree.WellFormed (t : Tree α) : Prop where
  alternates : t ≠ [] → t.Alternates
  inner : ∀ e ∈ t, e.WellFormed

theorem Tree.WellFormed.nil : Tree.WellFormed ([] : Tree α) where
  alternates h := absurd rfl h
  inner _ he := absurd he List.not_mem_nil

theorem Element.WellFormed.alternates {g : Tree α} (h : (Element.group g).WellFormed) :
    g.Alternates := by
  cases h with
  | group alternates _ => exact alternates

/-- A well-formed tree may stand as a group, unless it is empty. -/
theorem Tree.WellFormed.group {t : Tree α} (h : t.WellFormed) (ht : t ≠ []) :
    (Element.group t).WellFormed := .group (h.alternates ht) h.inner

/-- The inside of a group of a well-formed tree is a well-formed tree. -/
theorem Element.WellFormed.of_group {g : Tree α} (h : (Element.group g).WellFormed) :
    g.WellFormed := by
  cases h with
  | group alternates inner => exact ⟨fun _ => alternates, inner⟩

/-! ### Places -/

/-- **In turn**: terms at the even places and operators at the odd ones, from a term to a term. -/
def Tree.InTurn (t : Tree α) : Prop :=
  t.length % 2 = 1 ∧ ∀ (i : Nat) (hi : i < t.length), t[i].isOperator = decide (i % 2 = 1)

/-- **The groups inside a tree**, at any depth. -/
inductive Tree.Inside (t : Tree α) : Tree α → Prop
  | here {g : Tree α} (hg : .group g ∈ t) : Inside t g
  | deeper {g g' : Tree α} (h : Inside t g) (hg : .group g' ∈ g) : Inside t g'

theorem Tree.Alternates.inTurn {t : Tree α} (h : t.Alternates) : t.InTurn := by
  induction h with
  | term he =>
    refine ⟨rfl, fun i hi => ?_⟩
    obtain rfl : i = 0 := Nat.lt_one_iff.mp hi
    exact he
  | @join e o t he _ ih =>
    obtain ⟨hlength, hplaces⟩ := ih
    have hshift : ∀ n, (n + 2) % 2 = n % 2 := fun n => Nat.add_mod_right n 2
    refine ⟨(hshift t.length).trans hlength, fun i hi => ?_⟩
    -- the term and the operator in front take up two places, which keeps odd places odd
    match i with
    | 0 => exact he
    | 1 => rfl
    | i + 2 =>
      rw [hshift]
      exact hplaces i (Nat.lt_of_add_lt_add_right hi)

/-- Every group inside a well-formed tree is as a group is to be. -/
theorem Tree.WellFormed.of_inside {t g : Tree α} (h : t.WellFormed) (hg : t.Inside g) :
    (Element.group g).WellFormed := by
  induction hg with
  | here hg => exact h.inner _ hg
  | deeper _ hg ih => exact ih.of_group.inner _ hg

/-! ### Deciding -/

/-- Whether a tree alternates. -/
instance Tree.decidableAlternates : (t : Tree α) → Decidable t.Alternates
  | [] => isFalse nofun
  | [e] => decidable_of_iff (e.isOperator = false) ⟨.term, fun h => by cases h; assumption⟩
  | [_, _] => isFalse nofun
  | e :: .operator o :: e' :: t =>
    have := Tree.decidableAlternates (e' :: t)
    decidable_of_iff (e.isOperator = false ∧ Tree.Alternates (e' :: t))
      ⟨fun h => .join h.1 h.2, fun h => by cases h with | join he ht => exact ⟨he, ht⟩⟩
  | _ :: .leaf _ :: _ :: _ => isFalse nofun
  | _ :: .group _ :: _ :: _ => isFalse nofun

mutual

/-- Whether an element is well formed. -/
def Element.decWellFormed : (e : Element α) → Decidable e.WellFormed
  | .leaf a => isTrue (.leaf a)
  | .operator o => isTrue (.operator o)
  | .group g =>
    have := Tree.decInner g
    decidable_of_iff (Tree.Alternates g ∧ ∀ e ∈ g, e.WellFormed)
      ⟨fun h => .group h.1 h.2, fun h => ⟨h.alternates, h.of_group.inner⟩⟩
termination_by structural e => e

/-- Whether the elements of a tree are well formed. -/
def Tree.decInner : (t : Tree α) → Decidable (∀ e ∈ t, e.WellFormed)
  | [] => isTrue nofun
  | e :: t =>
    have := Element.decWellFormed e
    have := Tree.decInner t
    decidable_of_iff (e.WellFormed ∧ ∀ e' ∈ t, e'.WellFormed) List.forall_mem_cons.symm
termination_by structural t => t

end

instance Tree.decidableWellFormed : (t : Tree α) → Decidable t.WellFormed
  | [] => isTrue .nil
  | e :: t =>
    have := Tree.decInner (e :: t)
    decidable_of_iff (Tree.Alternates (e :: t) ∧ ∀ e' ∈ e :: t, e'.WellFormed)
      ⟨fun h => ⟨fun _ => h.1, h.2⟩, fun h => ⟨h.alternates (List.cons_ne_nil e t), h.inner⟩⟩

/-! ### Leaves and events -/

/-- A leaf of an element of a tree is a leaf of the tree. -/
theorem Tree.mem_leaves {t : Tree α} {a : α} : a ∈ t.leaves ↔ ∃ e ∈ t, a ∈ e.leaves := by
  induction t with
  | nil => simp
  | cons e t ih => simp [ih]

/-- A tree with elements has events. -/
theorem Tree.events_ne_nil {t : Tree α} (h : t ≠ []) : t.events ≠ [] := by
  obtain ⟨e, t, rfl⟩ := List.exists_cons_of_ne_nil h
  rw [Tree.events_cons]
  cases e <;> exact List.cons_ne_nil _ _

/-! ### Links -/

/-- A term with the operator before it. -/
structure Link (α : Type) where
  operator : Operator
  term : Element α

/-- A link as elements of a tree. -/
def Link.elements (l : Link α) : Tree α := [.operator l.operator, l.term]

/-- **The links of a tree** that stands after the operator `o`. -/
def Tree.linksFrom (o : Operator) : Tree α → List (Link α)
  | [] => []
  | .operator o' :: t => Tree.linksFrom o' t
  | e :: t => ⟨o, e⟩ :: Tree.linksFrom o t

/-- **The tree of some links**, the operator of the first left out. -/
def Tree.ofLinks (ls : List (Link α)) : Tree α := (ls.flatMap Link.elements).tail

@[simp] theorem Tree.linksFrom_nil (o : Operator) : Tree.linksFrom o ([] : Tree α) = [] := rfl

@[simp] theorem Tree.linksFrom_operator (o o' : Operator) (t : Tree α) :
    Tree.linksFrom o (.operator o' :: t) = Tree.linksFrom o' t := rfl

theorem Tree.linksFrom_term {e : Element α} (he : e.isOperator = false) (o : Operator)
    (t : Tree α) : Tree.linksFrom o (e :: t) = ⟨o, e⟩ :: Tree.linksFrom o t := by
  cases e with
  | leaf a => rfl
  | operator o' => cases he
  | group g => rfl

@[simp] theorem Tree.ofLinks_nil : Tree.ofLinks ([] : List (Link α)) = [] := rfl

@[simp] theorem Tree.ofLinks_cons (l : Link α) (ls : List (Link α)) :
    Tree.ofLinks (l :: ls) = l.term :: ls.flatMap Link.elements := rfl

/-- The links of a tree are terms of it. -/
theorem Tree.mem_of_mem_linksFrom {o : Operator} {t : Tree α} {l : Link α}
    (h : l ∈ Tree.linksFrom o t) : l.term ∈ t ∧ l.term.isOperator = false := by
  induction t using Tree.inductTerms generalizing o with
  | nil => exact absurd h List.not_mem_nil
  | operator o' t ih => exact ⟨List.mem_cons_of_mem _ (ih h).1, (ih h).2⟩
  | term e t he ih =>
    rw [Tree.linksFrom_term he] at h
    rcases List.mem_cons.mp h with rfl | h
    · exact ⟨List.mem_cons_self, he⟩
    · exact ⟨List.mem_cons_of_mem _ (ih h).1, (ih h).2⟩

/-- Links of terms, written out, have these links. -/
theorem Tree.linksFrom_flatMap {ls : List (Link α)} (h : ∀ l ∈ ls, l.term.isOperator = false)
    (o : Operator) : Tree.linksFrom o (ls.flatMap Link.elements) = ls := by
  induction ls generalizing o with
  | nil => rfl
  | cons l ls ih =>
    obtain ⟨hl, hls⟩ := List.forall_mem_cons.mp h
    change Tree.linksFrom l.operator (l.term :: ls.flatMap Link.elements) = _
    rw [Tree.linksFrom_term hl, ih hls]

/-- The tree of some links has these links, but for the operator of the first. -/
theorem Tree.linksFrom_ofLinks {l : Link α} {ls : List (Link α)}
    (h : ∀ l' ∈ l :: ls, l'.term.isOperator = false) (o : Operator) :
    Tree.linksFrom o (Tree.ofLinks (l :: ls)) = ⟨o, l.term⟩ :: ls := by
  obtain ⟨hl, hls⟩ := List.forall_mem_cons.mp h
  rw [Tree.ofLinks_cons, Tree.linksFrom_term hl, Tree.linksFrom_flatMap hls]

/-- The tree of some links of terms alternates. -/
theorem Tree.alternates_ofLinks {l : Link α} {ls : List (Link α)}
    (h : ∀ l' ∈ l :: ls, l'.term.isOperator = false) :
    (Tree.ofLinks (l :: ls)).Alternates := by
  induction ls generalizing l with
  | nil => exact .term (h l List.mem_cons_self)
  | cons l' ls ih =>
    obtain ⟨hl, hls⟩ := List.forall_mem_cons.mp h
    exact .join hl (ih hls)

/-- A term of the tree of some links is the term of one of them. -/
theorem Tree.mem_ofLinks {ls : List (Link α)} {e : Element α} (h : e ∈ Tree.ofLinks ls) :
    (∃ l ∈ ls, l.term = e) ∨ e.isOperator = true := by
  have hm := List.mem_of_mem_tail h
  obtain ⟨l, hl, he⟩ := List.mem_flatMap.mp hm
  rcases List.mem_cons.mp he with rfl | he
  · exact .inr rfl
  · exact .inl ⟨l, hl, (List.mem_singleton.mp he).symm⟩

end Junction
