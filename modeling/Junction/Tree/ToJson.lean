import Junction.Form
import Junction.Json.Basic
import Junction.Tree.Basic

/-!
# Trees as JSON

A tree is written as the list of its elements: an operator as its text, a group as a list, and a
leaf as itself, an operand as its text and a condition as an object of its three parts. So operators
and operands are both texts, and only their places tell them apart.
-/

namespace Junction

variable {α : Type}

/-- **A condition as JSON.** -/
def Condition.toJson (c : Condition) : Json :=
  .object [("left", .text c.left), ("operator", .text c.operator), ("right", .text c.right)]

/-- The condition that a value writes: an object with the three parts and any other fields, or a
list of the three parts. -/
def Condition.ofJson? : Json → Option Condition
  | .object fields => do
    return ⟨← (← fields.lookup "left").text?, ← (← fields.lookup "operator").text?,
      ← (← fields.lookup "right").text?⟩
  | .list [left, operator, right] => do
    return ⟨← left.text?, ← operator.text?, ← right.text?⟩
  | _ => none

mutual

/-- An element as JSON. -/
def Element.toJson (leafJson : α → Json) : Element α → Json
  | .leaf a => leafJson a
  | .operator o => .text o.text
  | .group g => .list (Tree.elementsJson leafJson g)
termination_by structural e => e

/-- The elements of a tree as JSON. -/
def Tree.elementsJson (leafJson : α → Json) : Tree α → List Json
  | [] => []
  | e :: later => e.toJson leafJson :: Tree.elementsJson leafJson later
termination_by structural t => t

end

/-- A leaf as JSON. -/
def Form.leafJson : (f : Form) → f.Leaf → Json
  | operands, operand => .text operand
  | conditions, condition => condition.toJson

/-- **A tree as JSON.** -/
def Form.treeJson (f : Form) (t : Tree f.Leaf) : Json := .list (Tree.elementsJson f.leafJson t)

end Junction
