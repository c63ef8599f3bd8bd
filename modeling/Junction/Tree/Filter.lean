import Junction.Tree.Basic

/-!
# Dropping leaves

`Tree.filterM` keeps the leaves that a predicate accepts and drops the others from the tree. A
dropped term takes the operator before it along; at the beginning of a group, where there is none,
it takes the operator after it. A group that becomes empty is dropped as a term, a group of a
single term becomes that term, and at the top a group that is left alone is opened.

The predicate is an action of any monad; `Tree.filter` is the pure case.
-/

namespace Junction

variable {α : Type} {m : Type → Type}

/-- A filtered group as a term of the group around it, if anything of it is left. -/
def Tree.asTerm? : Tree α → Option (Element α)
  | [] => none
  | [e] => some e
  | t => some (.group t)

/-- A filtered tree at the top: a group that is left alone is opened. -/
def Tree.opened : Tree α → Tree α
  | [.group g] => g
  | t => t

mutual

/-- What is left of an element, if anything is. An operator stays until its term goes. -/
def Element.filterM [Monad m] (keep : α → m Bool) : Element α → m (Option (Element α))
  | .leaf a => do return if ← keep a then some (.leaf a) else none
  | .operator o => pure (some (.operator o))
  | .group g => do return (← Tree.filterOnto keep [] false g).asTerm?
termination_by structural e => e

/-- What is left of a group: `kept` is what is left of the elements before, the latest first, and
`skip` tells to pass over the next element. -/
def Tree.filterOnto [Monad m] (keep : α → m Bool) (kept : List (Element α)) (skip : Bool) :
    Tree α → m (Tree α)
  | [] => pure kept.reverse
  | e :: later =>
    if skip then Tree.filterOnto keep kept false later
    else do
      match ← e.filterM keep with
      | some e => Tree.filterOnto keep (e :: kept) false later
      | none => Tree.filterOnto keep kept.tail kept.tail.isEmpty later
termination_by structural t => t

end

/-- **The tree of the leaves that are kept.** -/
def Tree.filterM [Monad m] (keep : α → m Bool) (t : Tree α) : m (Tree α) := do
  return (← Tree.filterOnto keep [] false t).opened

/-- The tree of the leaves that `p` accepts. -/
def Tree.filter (p : α → Bool) (t : Tree α) : Tree α :=
  Id.run (Tree.filterM (fun a => pure (p a)) t)

@[simp] theorem Tree.filter_nil (p : α → Bool) : Tree.filter p ([] : Tree α) = [] := rfl

end Junction
