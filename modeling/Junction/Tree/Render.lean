import Junction.Form
import Junction.Tree.Basic

/-!
# Trees as text

A tree is written as an expression again: its elements one space apart, groups in parentheses,
operators in capitals, whatever their keywords were, and leaves in their own text.

`Tree.render` is over any text of leaves; `Form.render` writes a tree of a form.
-/

namespace Junction

variable {α : Type}

mutual

/-- The characters that write an element. -/
def Element.render (leafText : α → String) : Element α → List Char
  | .leaf a => (leafText a).toList
  | .operator o => o.text.toList
  | .group g => '(' :: Tree.render leafText g ++ [')']
termination_by structural e => e

/-- **The characters that write a tree.** -/
def Tree.render (leafText : α → String) : Tree α → List Char
  | [] => []
  | e :: later =>
    match later with
    | [] => e.render leafText
    | _ :: _ => e.render leafText ++ ' ' :: Tree.render leafText later
termination_by structural t => t

end

/-- **The text of a tree** whose leaves are of the form. -/
def Form.render (f : Form) (t : Tree f.Leaf) : String := String.ofList (Tree.render f.leafText t)

@[simp] theorem Tree.render_nil (leafText : α → String) :
    Tree.render leafText [] = [] := rfl

@[simp] theorem Tree.render_singleton (leafText : α → String) (e : Element α) :
    Tree.render leafText [e] = e.render leafText := rfl

@[simp] theorem Tree.render_cons_cons (leafText : α → String) (e e' : Element α) (t : Tree α) :
    Tree.render leafText (e :: e' :: t)
      = e.render leafText ++ ' ' :: Tree.render leafText (e' :: t) := rfl

end Junction
