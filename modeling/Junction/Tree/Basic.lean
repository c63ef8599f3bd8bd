import Junction.Event

/-!
# Trees

A tree is the sequence of the elements of an expression: leaves, operators, and groups, which hold
elements in turn. A tree and the inside of a group are alike, so both are a `Tree`, a list of
`Element`s.

* `Tree.leaves` lists the leaves in the order in which they are written;
* `Tree.events` is the tree written out again as events, the inverse of building it.

Elements contain lists of elements, so each function on trees comes as a pair: one on an element
and one on a list of them.
-/

namespace Junction

/-- One element of a tree or a group. -/
inductive Element (α : Type) where
  | leaf (value : α)
  | operator (o : Operator)
  | group (elements : List (Element α))

/-- **A tree**: the elements of an expression or of a group. -/
abbrev Tree (α : Type) := List (Element α)

variable {α : Type}

namespace Element

/-- The element is an operator. -/
def isOperator : Element α → Bool
  | operator _ => true
  | _ => false

end Element

/-! ### Equality -/

mutual

/-- Whether two elements are the same. -/
def Element.decEq [DecidableEq α] : (x y : Element α) → Decidable (x = y)
  | .leaf a, .leaf b => decidable_of_iff (a = b) (by simp)
  | .operator o, .operator p => decidable_of_iff (o = p) (by simp)
  | .group g, .group h =>
    have := Tree.decEq g h
    decidable_of_iff (g = h) (by simp)
  | .leaf _, .operator _ | .leaf _, .group _ | .operator _, .leaf _ | .operator _, .group _
  | .group _, .leaf _ | .group _, .operator _ => isFalse (by simp)
termination_by structural x => x

/-- Whether two trees are the same. -/
def Tree.decEq [DecidableEq α] : (s t : Tree α) → Decidable (s = t)
  | [], [] => isTrue rfl
  | [], _ :: _ | _ :: _, [] => isFalse (by simp)
  | x :: s, y :: t =>
    have := Element.decEq x y
    have := Tree.decEq s t
    decidable_of_iff (x = y ∧ s = t) (by simp)
termination_by structural s => s

end

instance [DecidableEq α] : DecidableEq (Element α) := Element.decEq

/-! ### Views -/

mutual

/-- The leaves in an element. -/
def Element.leaves : Element α → List α
  | .leaf a => [a]
  | .operator _ => []
  | .group g => Tree.leaves g
termination_by structural e => e

/-- **The leaves of a tree**, in the order in which they are written. -/
def Tree.leaves : Tree α → List α
  | [] => []
  | e :: later => e.leaves ++ Tree.leaves later
termination_by structural t => t

end

mutual

/-- The events that write an element. -/
def Element.events : Element α → List (Event α)
  | .leaf a => [.leaf a]
  | .operator o => [.operator o]
  | .group g => .openGroup :: Tree.events g ++ [.closeGroup]
termination_by structural e => e

/-- **The events that write a tree**: an opening before each group and a closing after it. -/
def Tree.events : Tree α → List (Event α)
  | [] => []
  | e :: later => e.events ++ Tree.events later
termination_by structural t => t

end

@[simp] theorem Tree.leaves_nil : Tree.leaves ([] : Tree α) = [] := rfl

@[simp] theorem Tree.leaves_cons (e : Element α) (t : Tree α) :
    Tree.leaves (e :: t) = e.leaves ++ Tree.leaves t := rfl

@[simp] theorem Tree.leaves_append (s t : Tree α) :
    Tree.leaves (s ++ t) = Tree.leaves s ++ Tree.leaves t := by
  induction s with
  | nil => rfl
  | cons e s ih => simp [ih]

@[simp] theorem Tree.events_nil : Tree.events ([] : Tree α) = [] := rfl

@[simp] theorem Tree.events_cons (e : Element α) (t : Tree α) :
    Tree.events (e :: t) = e.events ++ Tree.events t := rfl

@[simp] theorem Tree.events_append (s t : Tree α) :
    Tree.events (s ++ t) = Tree.events s ++ Tree.events t := by
  induction s with
  | nil => rfl
  | cons e s ih => simp [ih]

end Junction
