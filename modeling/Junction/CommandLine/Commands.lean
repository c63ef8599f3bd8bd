import Junction.CommandLine.Arguments
import Junction.Facts.Check
import Junction.Json.Printer
import Junction.Tree.Eval
import Junction.Tree.Filter
import Junction.Tree.OfEvents
import Junction.Tree.Render
import Junction.Tree.ToJson
import Junction.Yaml.Printer

/-!
# Commands

What each command prints, given the settings (`Invocation.answer`):

* `tree` prints the tree of an expression, and `check` whether it is one at all;
* `solve` prints the value of an expression of conditions under the facts, where what is not
  decided is false, and `fsolve` that of its conditions that are decided, or `unknown`;
* `filter` prints the expression of the conditions that are decided.

A fact of the command line takes the place of one of the settings.
-/

namespace Junction

open Text

/-- Why a command prints an error. -/
inductive Failure where
  | settings (error : SettingsError)
  | expression (f : Form) (input : String) (error : ParseError)

/-- The failure in words. What lies behind it is told apart. -/
def Failure.message : Failure → String
  | settings _ => "Config: Failed to load settings"
  | expression .operands input _ => "Parse: Invalid expression '" ++ input ++ "'"
  | expression .conditions input _ => "Parse: Invalid condition expression '" ++ input ++ "'"

/-- A tree in an output format. -/
def OutputFormat.print (format : OutputFormat) (f : Form) (t : Tree f.Leaf) : String :=
  match format with
  | json => (f.treeJson t).pretty
  | yaml => String.ofList (trimEnd (Yaml.render (f.treeJson t)).toList)
  | text => f.render t

/-- The value of a tree in words. -/
def truthText (value : Bool) : String := if value then "true" else "false"

namespace Invocation

/-- The tree of the expression. -/
def parse (i : Invocation) (settings : Settings) (f : Form) : Except Failure (Tree f.Leaf) :=
  match parseTree f settings.keywords i.expression with
  | .ok t => .ok t
  | .error e => .error (.expression f i.expression e)

/-- The form of the leaves of the expression. -/
def form (i : Invocation) : Form := if i.conditions then .conditions else .operands

/-- The facts of the settings with those of the command line. -/
def allFacts (i : Invocation) (settings : Settings) : Facts := settings.facts.insertAll i.facts

/-- **What the command prints.** -/
def answer (i : Invocation) (settings : Settings) : Except Failure String :=
  match i.command with
  | .tree => do
    let t ← i.parse settings i.form
    return (i.format.getD settings.output).print i.form t
  | .check => do
    let _ ← i.parse settings i.form
    return "ok"
  | .solve => do
    let t ← i.parse settings .conditions
    return truthText (Tree.eval (i.allFacts settings).holds t)
  | .fsolve => do
    let t ← i.parse settings .conditions
    match Tree.evalKnown (i.allFacts settings).check t with
    | some value => return truthText value
    | none => return "unknown"
  | .filter => do
    let t ← i.parse settings .conditions
    return (i.format.getD .text).print .conditions (Tree.filter (i.allFacts settings).knows t)

/-- **What the program prints** under the layers of its settings. `document` is the document that
the invocation names: the empty object if it names none, and none if it cannot be read. -/
def run (i : Invocation) (program : String) (document : Option Json)
    (environment : List (String × String)) : Except Failure String :=
  match document with
  | none => .error (.settings .malformed)
  | some document =>
    match Settings.ofDocument (Settings.layered program document environment) with
    | .error e => .error (.settings e)
    | .ok settings => i.answer settings

end Invocation

end Junction
