import Junction.Operator

/-!
# Events

An expression is a sequence of **events**, in the order in which its parts are written: a group
opens or closes, an operator, a leaf. What a leaf is depends on how leaves are written, so events
are over any type of leaves.
-/

namespace Junction

/-- One part of an expression. -/
inductive Event (Leaf : Type) where
  | openGroup
  | closeGroup
  | operator (o : Operator)
  | leaf (value : Leaf)
  deriving DecidableEq

namespace Event

variable {Leaf : Type}

/-- The leaf that the event brings, if it brings one. -/
def leaf? : Event Leaf → Option Leaf
  | leaf value => some value
  | _ => none

end Event

end Junction
