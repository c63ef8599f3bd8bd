import Junction.Tree.Basic

/-!
# The value of a tree

A tree has a value once its leaves have. A group is read from left to right: it starts at false,
each term is joined to the value so far by the operator before it, and the first term by `OR`.
Where the value so far decides the result under an operator, the term after it is **skipped**, and
its leaves are not asked about.

* `Tree.evalM` asks each leaf for a truth value, and `Tree.eval` asks a predicate;
* `Tree.evalKnownM` asks leaves that may have no answer, and `Tree.evalKnown` a partial predicate.
  A term without an answer contributes nothing: the value is that of the other terms, and there is
  none if no term has an answer. While there is no value, an operator after a term without an
  answer has nothing on its left and is passed over.

The asking is an action of any monad, so it may keep a state, or record which leaves it was for.
-/

namespace Junction

variable {α : Type} {m : Type → Type}

/-! ### Leaves that are true or false -/

mutual

/-- The value of a term. An operator is no term and is never asked for a value. -/
def Element.evalM [Monad m] (ask : α → m Bool) : Element α → m Bool
  | .leaf a => ask a
  | .operator _ => pure false
  | .group g => Tree.evalFrom ask false false .or g
termination_by structural e => e

/-- The value of a group from some element on: `soFar` is the value of the elements before, `op` the
operator read last, and `skip` tells to pass over the next element. -/
def Tree.evalFrom [Monad m] (ask : α → m Bool) (skip soFar : Bool) (op : Operator) :
    Tree α → m Bool
  | [] => pure soFar
  | e :: later =>
    if skip then Tree.evalFrom ask false soFar op later
    else
      match e with
      | .operator o => Tree.evalFrom ask (o.decides soFar) soFar o later
      | term => do Tree.evalFrom ask false (op.apply soFar (← term.evalM ask)) op later
termination_by structural t => t

end

/-- **The value of a tree.** -/
def Tree.evalM [Monad m] (ask : α → m Bool) (t : Tree α) : m Bool :=
  Tree.evalFrom ask false false .or t

/-- The value of a tree whose leaves have the values `p`. -/
def Tree.eval (p : α → Bool) (t : Tree α) : Bool := Id.run (Tree.evalM (fun a => pure (p a)) t)

/-! ### Leaves that may have no answer -/

mutual

/-- The value of a term, if it has one. -/
def Element.evalKnownM [Monad m] (ask : α → m (Option Bool)) : Element α → m (Option Bool)
  | .leaf a => ask a
  | .operator _ => pure none
  | .group g => Tree.evalKnownFrom ask false none .or g
termination_by structural e => e

/-- The value of a group from some element on, as in `Tree.evalFrom`; `soFar` is none while no term
has had a value. -/
def Tree.evalKnownFrom [Monad m] (ask : α → m (Option Bool)) (skip : Bool)
    (soFar : Option Bool) (op : Operator) : Tree α → m (Option Bool)
  | [] => pure soFar
  | e :: later =>
    if skip then Tree.evalKnownFrom ask false soFar op later
    else
      match e with
      | .operator o => Tree.evalKnownFrom ask (o.decides (soFar.getD false)) soFar o later
      | term => do
        match ← term.evalKnownM ask with
        | some value =>
          Tree.evalKnownFrom ask false (some (op.apply (soFar.getD false) value)) op later
        | none => Tree.evalKnownFrom ask soFar.isNone soFar op later
termination_by structural t => t

end

/-- **The value of the terms that have one.** -/
def Tree.evalKnownM [Monad m] (ask : α → m (Option Bool)) (t : Tree α) : m (Option Bool) :=
  Tree.evalKnownFrom ask false none .or t

/-- The value of a tree whose leaves have the values `p`, some of them none. -/
def Tree.evalKnown (p : α → Option Bool) (t : Tree α) : Option Bool :=
  Id.run (Tree.evalKnownM (fun a => pure (p a)) t)

@[simp] theorem Tree.eval_nil (p : α → Bool) : Tree.eval p [] = false := rfl

@[simp] theorem Tree.evalKnown_nil (p : α → Option Bool) : Tree.evalKnown p [] = none := rfl

end Junction
