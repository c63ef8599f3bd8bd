import Junction.Event
import Junction.Form
import Junction.ParseError

/-!
# Reading expressions

An expression is terms joined by operators, where a term is a leaf or a group in parentheses. It is
read from left to right, and each part is an event as soon as it has been read, so an expression
that is refused further on has still had its events.

* `Reader` is a point in the text: the text that is left and what may come there;
* `Reader.step` reads one event, or comes to an `Ending`;
* `Reader.run` takes steps until the ending (`Reader.run_eq`), which comes since each event leaves
  less text (`Reader.length_rest_lt_of_step`);
* `readExpression` runs from the beginning of a text: the events, and the error if it is refused.
-/

namespace Junction

open Text

/-- What has just been read. -/
inductive Stage where
  /-- Nothing. The expression may end here, with no term at all, or begin with a term. -/
  | fresh
  /-- An operator or an opening parenthesis. A term has to come. -/
  | due
  /-- A term. -/
  | done
  deriving DecidableEq

/-- A point in an expression: `rest` is the text from it on, `prev` the character before it, and
`depth` the number of groups open there. -/
structure Reader where
  stage : Stage
  depth : Nat
  prev : Option Char
  rest : List Char

/-- How reading an expression ends. -/
inductive Ending where
  /-- The text is an expression. -/
  | complete
  /-- At `rest` a token of one of the kinds `expected` should have stood. -/
  | wants (expected : KindSet) (rest : List Char)
  /-- At the end of the text `count` groups were open. -/
  | unclosed (count : Nat)

/-- What one step of reading comes to. -/
inductive Step (Leaf : Type) where
  | event (e : Event Leaf) (next : Reader)
  | ends (ending : Ending)

/-- The kinds that may come after a term, `depth` groups being open. -/
def afterTerm (depth : Nat) : KindSet :=
  if 0 < depth then .ofList [.operator, .closeParen] else .singleton .operator

namespace Ending

/-- The error of an ending; `input` is the whole text. -/
def error? (input : List Char) : Ending → Option ParseError
  | complete => none
  | wants expected [] => some (.incomplete expected)
  | wants expected rest =>
    some (.unexpected (String.ofList (input.take (input.length - rest.length)))
      (String.ofList rest) expected)
  | unclosed count => some (.unclosed count)

end Ending

namespace Reader

/-- The beginning of a text. -/
def start (cs : List Char) : Reader := ⟨.fresh, 0, none, cs⟩

/-- The last character before `cs` once leading white space is skipped, where `prev` came before
it. -/
def prevAfterBlank (prev : Option Char) (cs : List Char) : Option Char :=
  (cs.takeWhile isBlank).getLast?.or prev

/-- The ending at the end of the text. -/
def atEnd (f : Form) : Stage → Nat → Ending
  | .fresh, _ => .complete
  | .due, _ => .wants f.termStart []
  | .done, 0 => .complete
  | .done, depth => .unclosed depth

/-- A step where a term may come, at a text with no white space in front. -/
def stepTerm (f : Form) (lexicon : Lexicon) (depth : Nat) (prev : Option Char) :
    List Char → Step f.Leaf
  | '(' :: cs => .event .openGroup ⟨.due, depth + 1, some '(', cs⟩
  | cs =>
    match f.readLeaf lexicon prev cs with
    | .read leaf => .event (.leaf leaf.value) ⟨.done, depth, leaf.taken.getLast?, leaf.rest⟩
    | .wants expected rest => .ends (.wants expected rest)

/-- A step after a term, at a text with no white space in front. -/
def stepAfterTerm (Leaf : Type) (lexicon : Lexicon) (depth : Nat) (prev : Option Char)
    (cs : List Char) : Step Leaf :=
  match lexicon.operator? prev cs with
  | some o => .event (.operator o.value) ⟨.due, depth, o.taken.getLast?, o.rest⟩
  | none =>
    match depth, cs with
    | depth + 1, ')' :: cs => .event .closeGroup ⟨.done, depth, some ')', cs⟩
    | depth, cs => .ends (.wants (afterTerm depth) cs)

/-- **One step of reading.** White space before the event is skipped. -/
def step (f : Form) (k : Keywords) (r : Reader) : Step f.Leaf :=
  match skipBlank r.rest with
  | [] => .ends (atEnd f r.stage r.depth)
  | c :: cs =>
    match r.stage with
    | .done =>
      stepAfterTerm f.Leaf k.lexicon r.depth (prevAfterBlank r.prev r.rest) (c :: cs)
    | _ => stepTerm f k.lexicon r.depth (prevAfterBlank r.prev r.rest) (c :: cs)

/-- A step at a term leaves less text. -/
theorem length_rest_lt_of_stepTerm {f : Form} {lexicon : Lexicon} {depth : Nat}
    {prev : Option Char} {cs : List Char} {e : Event f.Leaf} {next : Reader}
    (h : stepTerm f lexicon depth prev cs = .event e next) : next.rest.length < cs.length := by
  unfold stepTerm at h
  split at h
  · simp only [Step.event.injEq] at h
    obtain ⟨-, rfl⟩ := h
    simp
  · split at h
    · rename_i leaf hl
      simp only [Step.event.injEq] at h
      obtain ⟨-, rfl⟩ := h
      exact (Form.readsFrom_of_readLeaf hl).length_rest_lt
    · simp at h

/-- A step after a term leaves less text. -/
theorem length_rest_lt_of_stepAfterTerm {Leaf : Type} {k : Keywords} {depth : Nat}
    {prev : Option Char} {cs : List Char} {e : Event Leaf} {next : Reader}
    (h : stepAfterTerm Leaf k.lexicon depth prev cs = .event e next) :
    next.rest.length < cs.length := by
  unfold stepAfterTerm at h
  split at h
  · rename_i o ho
    simp only [Step.event.injEq] at h
    obtain ⟨-, rfl⟩ := h
    exact (Keywords.readsFrom_of_operator? ho).length_rest_lt
  · split at h
    · simp only [Step.event.injEq] at h
      obtain ⟨-, rfl⟩ := h
      simp
    · simp at h

/-- Each event leaves less text. -/
theorem length_rest_lt_of_step {f : Form} {k : Keywords} {r next : Reader} {e : Event f.Leaf}
    (h : r.step f k = .event e next) : next.rest.length < r.rest.length := by
  refine Nat.lt_of_lt_of_le ?_ (length_skipBlank_le r.rest)
  unfold step at h
  split at h
  · simp at h
  · rename_i c cs hb
    rw [hb]
    split at h
    · exact length_rest_lt_of_stepAfterTerm h
    · exact length_rest_lt_of_stepTerm h

/-- **The events from a point on, and how reading ends.** -/
def run (f : Form) (k : Keywords) (r : Reader) : List (Event f.Leaf) × Ending :=
  match _h : r.step f k with
  | .ends ending => ([], ending)
  | .event e next =>
    let later := run f k next
    (e :: later.1, later.2)
termination_by r.rest.length
decreasing_by exact length_rest_lt_of_step _h

/-- Reading is one step after another. -/
theorem run_eq (f : Form) (k : Keywords) (r : Reader) :
    r.run f k = match r.step f k with
      | .ends ending => ([], ending)
      | .event e next => (e :: (next.run f k).1, (next.run f k).2) := by
  rw [run]
  split <;> simp_all

end Reader

/-- What reading an expression yields: the events before the end or the error, and the error. -/
structure Outcome (Leaf : Type) where
  events : List (Event Leaf)
  error? : Option ParseError

/-- **Reads an expression.** -/
def readExpression (f : Form) (k : Keywords) (input : String) : Outcome f.Leaf :=
  let (events, ending) := (Reader.start input.toList).run f k
  ⟨events, ending.error? input.toList⟩

end Junction
