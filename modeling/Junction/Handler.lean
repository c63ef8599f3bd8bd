import Junction.Reader

/-!
# Handlers

An expression is read for what is done with its parts. A **handler** says what: one action for each
event, run as soon as the event has been read, and one for the error of an expression that is refused.
The actions are those of any monad. Where a handler says nothing, nothing is done with an event, and an
error is passed back.

* `Reader.drive` reads on from a point, step by step, with a handler;
* `handleExpression` reads an expression with one. It fails with the error that the handler passes back;
  an error that the handler keeps ends the reading all the same, quietly.
-/

namespace Junction

variable {m : Type → Type}

/-- **What is done with the parts of an expression** while it is read. -/
structure Handler (Leaf : Type) (m : Type → Type) [Monad m] where
  /-- An event has been read. -/
  event : Event Leaf → m Unit := fun _ => pure ()
  /-- The expression is refused. -/
  error : ParseError → m (Except ParseError Unit) := fun e => pure (.error e)

/-- **Reads on from a point**, and hands over what is read step by step; `input` is the whole text. -/
def Reader.drive [Monad m] (f : Form) (k : Keywords) (h : Handler f.Leaf m) (input : List Char)
    (r : Reader) : m (Except ParseError Unit) :=
  match _h : r.step f k with
  | .event e next => do
    h.event e
    drive f k h input next
  | .ends ending =>
    match ending.error? input with
    | none => pure (.ok ())
    | some error => h.error error
termination_by r.rest.length
decreasing_by exact length_rest_lt_of_step _h

/-- **Reads an expression** with a handler. -/
def handleExpression [Monad m] (f : Form) (k : Keywords) (h : Handler f.Leaf m) (input : String) :
    m (Except ParseError Unit) :=
  (Reader.start input.toList).drive f k h input.toList

end Junction
