import Junction.Handler
import Junction.Tree.Basic

/-!
# Trees from events

The events of an expression, taken one after another, build its tree. `Builder` is a tree under
construction: the group that is open, and the groups around it. A leaf goes through a **leaf hook**
on its way into the tree, an action that is run once for each leaf in the order of the events.

The tree is built while the expression is read. An error makes this fail, unless there is a **sink** for
errors: then the error goes to the sink, and the tree is given up and left empty.

* `Builder.add` takes one more event;
* `TreeOptions` are the hook and the sink, and `TreeOptions.handler` builds a `Draft` with them;
* `parseTreeWith` reads an expression with options and yields the finished draft;
* `parseTreeM` reads an expression first and builds its tree afterwards, or fails with the error;
* `parseTree` has no hook.
-/

namespace Junction

variable {Leaf α : Type} {m : Type → Type}

/-- A tree under construction. -/
structure Builder (α : Type) where
  /-- The elements of the innermost open group, the latest first. -/
  current : List (Element α)
  /-- The elements so far of the groups around it, the nearest first. -/
  outer : List (List (Element α))

namespace Builder

/-- Nothing built yet. -/
def empty : Builder α := ⟨[], []⟩

/-- One more element in the open group. -/
def push (b : Builder α) (e : Element α) : Builder α := { b with current := e :: b.current }

/-- A group begins. -/
def openGroup (b : Builder α) : Builder α := ⟨[], b.current :: b.outer⟩

/-- The open group ends and goes into the group around it. -/
def closeGroup (b : Builder α) : Builder α :=
  match b.outer with
  | [] => b
  | around :: outer => ⟨.group b.current.reverse :: around, outer⟩

/-- The elements so far of the outermost group. -/
def root (b : Builder α) : Tree α := ((b.outer.getLast?).getD b.current).reverse

/-- **One more event**, its leaf put through the hook. -/
def add [Monad m] (hook : Leaf → m α) (b : Builder α) : Event Leaf → m (Builder α)
  | .openGroup => pure b.openGroup
  | .closeGroup => pure b.closeGroup
  | .operator o => pure (b.push (.operator o))
  | .leaf value => do return b.push (.leaf (← hook value))

end Builder

/-- What a tree is built with. -/
structure TreeOptions (Leaf α : Type) (m : Type → Type) where
  /-- What becomes of a leaf. -/
  hook : Leaf → m α
  /-- Where an error goes, if not back to the caller. -/
  sink? : Option (ParseError → m Unit) := none

/-- A tree under construction that may be given up. -/
structure Draft (α : Type) extends Builder α where
  failed : Bool

namespace Draft

/-- Nothing built yet. -/
def empty : Draft α := ⟨Builder.empty, false⟩

/-- **The tree, once all is read.** One that was given up is empty, whatever had been built. -/
def finish (d : Draft α) : Tree α := if d.failed then [] else d.root

end Draft

/-- **Builds a tree with the options.** An error that goes to the sink is not passed back. -/
def TreeOptions.handler [Monad m] (o : TreeOptions Leaf α m) : Handler Leaf (StateT (Draft α) m) where
  event e := do
    let d ← get
    let built ← (d.toBuilder.add o.hook e : m (Builder α))
    set { d with toBuilder := built }
  error e :=
    match o.sink? with
    | none => return .error e
    | some sink => do
      sink e
      modify fun d => { d with failed := true }
      return .ok ()

/-- **Reads an expression and builds its tree with the options.** -/
def parseTreeWith [Monad m] (f : Form) (k : Keywords) (o : TreeOptions f.Leaf α m) (input : String) :
    m (Except ParseError (Tree α)) := do
  let (result, draft) ← (handleExpression f k o.handler input).run Draft.empty
  return result.map fun _ => draft.finish

/-- **Reads an expression, and then builds its tree**, the leaves put through the hook. -/
def parseTreeM [Monad m] (f : Form) (k : Keywords) (hook : f.Leaf → m α) (input : String) :
    m (Except ParseError (Tree α)) := do
  let outcome := readExpression f k input
  let built ← outcome.events.foldlM (Builder.add hook) Builder.empty
  match outcome.error? with
  | none => return .ok built.root
  | some error => return .error error

/-- **The tree of an expression.** -/
def parseTree (f : Form) (k : Keywords) (input : String) : Except ParseError (Tree f.Leaf) :=
  Id.run (parseTreeM f k pure input)

end Junction
