import Junction.Decimal.Shortest
import Junction.Facts.Basic
import Junction.Json.Basic
import Junction.Keywords
import Junction.Text.Lowercase

/-!
# Settings

Settings are the operator keywords, facts that are known beforehand, and the form in which trees
are printed. They come in **layers**: a document, and then variables of the environment, each of
which sets one value. `Settings.layered` puts the layers together into one document, and
`Settings.ofDocument` takes the settings from it.

A variable counts if its name begins with the program's name and an underscore. What follows, in
lower case, is the **path** of the value: the names of fields from the outside in, with two
underscores between them. The names at the top of a document are paths as well, with points
between the names of fields.
-/

namespace Junction

open Text

/-! ### Paths -/

/-- One step from a value to one that it holds. -/
inductive PathStep where
  /-- The field of a name. -/
  | field (name : String)
  /-- The item at an index. A negative index counts from the end. -/
  | item (index : Int)
  deriving DecidableEq

namespace PathStep

/-- A character of the name of a field in a path. -/
def isNameChar (c : Char) : Bool := c.isAlphanum || c == '_' || c == '-'

/-- A blank that may stand around an index. -/
def isIndexBlank (c : Char) : Bool := c == ' ' || c == '\t'

/-- The index that `cs` writes: digits after a minus sign or none, blanks around them. -/
def index? (cs : List Char) : Option Int :=
  let cs := (cs.dropWhile isIndexBlank).reverse.dropWhile isIndexBlank |>.reverse
  let (negative, digits) := match cs with
    | '-' :: digits => (true, digits)
    | digits => (false, digits)
  let n := Decimal.value digits
  if digits = [] ∨ ¬ digits.all Decimal.isDigit ∨ Nat.pow 2 63 ≤ n then none
  else some (if negative then -(n : Int) else n)

/-- The steps after the first one; `fuel` bounds their number. -/
def later? : Nat → List Char → Option (List PathStep)
  | _, [] => some []
  | 0, _ => none
  | fuel + 1, c :: cs =>
    if c = '.' then
      match cs.takeWhile isNameChar with
      | [] => none
      | name => (later? fuel (cs.dropWhile isNameChar)).map (field (String.ofList name) :: ·)
    else if c = '[' then
      match cs.dropWhile (· ≠ ']') with
      | [] => none
      | _ :: rest => do
        let i ← index? (cs.takeWhile (· ≠ ']'))
        return item i :: (← later? fuel rest)
    else none

/-- The steps of a path; a text that is no path is the name of one field. -/
def path (s : String) : List PathStep :=
  match s.toList.takeWhile isNameChar, s.toList.dropWhile isNameChar with
  | [], _ => [field s]
  | name, rest =>
    match later? rest.length rest with
    | some steps => field (String.ofList name) :: steps
    | none => [field s]

end PathStep

/-! ### Putting documents together -/

namespace Json

/-- The items with the one at an index changed. Items that are missing up to it are null. -/
def changeItem (change : Json → Json) (items : List Json) (index : Int) : List Json :=
  if 0 ≤ index then
    let i := index.toNat
    items.take i ++ List.replicate (i - items.length) null ++ change (items.getD i null)
      :: items.drop (i + 1)
  else
    let i := (-index).toNat
    if i ≤ items.length then
      let i := items.length - i
      items.take i ++ change (items.getD i null) :: items.drop (i + 1)
    else change null :: List.replicate (i - items.length - 1) null ++ items

/-- The fields with the one of a name changed, which is null if it is missing. -/
def changeField (change : Json → Json) (name : String) :
    List (String × Json) → List (String × Json)
  | [] => [(name, change null)]
  | (other, value) :: fields =>
    if other = name then (other, change value) :: fields
    else (other, value) :: changeField change name fields

/-- The value with the one at a path changed. A value on the way that cannot hold the next step
gives way to one that can. -/
def change (change' : Json → Json) : List PathStep → Json → Json
  | [], j => change' j
  | .field name :: steps, j =>
    object (changeField (change change' steps) name (j.fields?.getD []))
  | .item index :: steps, j => list (changeItem (change change' steps) (j.items?.getD []) index)

mutual

/-- **One value laid over another.** The fields of objects are laid over each other one by one; any
other value takes the place of what was there. -/
def laidOver : Json → Json → Json
  | object fields, below => object (fieldsLaidOver fields (below.fields?.getD []))
  | value, _ => value
termination_by structural j => j

/-- Fields laid over others. -/
def fieldsLaidOver : List (String × Json) → List (String × Json) → List (String × Json)
  | [], below => below
  | field :: fields, below => fieldsLaidOver fields (fieldLaidOver field below)
termination_by structural fields => fields

/-- One field laid over others. -/
def fieldLaidOver : String × Json → List (String × Json) → List (String × Json)
  | (name, value), below => changeField value.laidOver name below
termination_by structural field => field

end

end Json

/-! ### Settings -/

/-- The form in which a tree is printed. -/
inductive OutputFormat where
  | json
  | yaml
  | text
  deriving DecidableEq

/-- The format of a name. -/
def OutputFormat.ofName? : String → Option OutputFormat
  | "json" => some json
  | "yaml" => some yaml
  | "text" => some text
  | _ => none

/-- **The settings.** -/
structure Settings where
  keywords : Keywords
  facts : Facts
  output : OutputFormat

/-- Why there are no settings. -/
inductive SettingsError where
  /-- The document cannot be read, or a value in it is not of the kind that it has to be. -/
  | malformed
  /-- The keywords cannot be used. -/
  | keywords (fault : KeywordFault)
  deriving DecidableEq

namespace Settings

/-- The text of a value that stands for a text: a number and a truth value are taken as they are
written. A whole number of 64 bits keeps its digits, and any other number is a double. -/
def textOf? : Json → Option String
  | .text s => some s
  | .bool b => some (if b then "true" else "false")
  | .number d =>
    if d.exponent = 0 ∧ d.coefficient < Nat.pow 2 63 + d.negative.toNat then
      some (if d.negative then "-" ++ toString d.coefficient else toString d.coefficient)
    else some d.doubleText
  | _ => none

/-- The text of a value that may be missing. -/
def textOr (default : String) : Option Json → Except SettingsError String
  | none => .ok default
  | some value =>
    match textOf? value with
    | some s => .ok s
    | none => .error .malformed

/-- The keywords of the operators: an object of both, a list of both, or nothing. A keyword that is
missing is the standard one. -/
def keywordPair : Option Json → Except SettingsError (String × String)
  | none => .ok ("AND", "OR")
  | some (.object fields) => do
    return (← textOr "AND" (fields.lookup "and_keyword"),
      ← textOr "OR" (fields.lookup "or_keyword"))
  | some (.list items) => do
    return (← textOr "AND" items[0]?, ← textOr "OR" items[1]?)
  | some _ => .error .malformed

/-- The facts: an object of texts, or nothing. -/
def factsOf : Option Json → Except SettingsError Facts
  | none => .ok .empty
  | some (.object fields) => do
    return .ofList (← fields.mapM fun (name, value) => do
      return (name, ← textOr "" (some value)))
  | some _ => .error .malformed

/-- The output format: its name, an object of one field that has the name, or nothing. -/
def outputOf : Option Json → Except SettingsError OutputFormat
  | none => .ok .json
  | some (.text name) | some (.object [(name, _)]) =>
    match OutputFormat.ofName? name with
    | some format => .ok format
    | none => .error .malformed
  | some _ => .error .malformed

/-- **The settings of a document.** Other fields than those of settings do not count. -/
def ofDocument (document : Json) : Except SettingsError Settings := do
  let fields := document.fields?.getD []
  let (conjunction, disjunction) ← keywordPair (fields.lookup "grammar")
  let facts ← factsOf (fields.lookup "facts")
  let output ← outputOf (fields.lookup "output")
  match Keywords.ofPair conjunction disjunction with
  | .ok keywords => return ⟨keywords, facts, output⟩
  | .error fault => .error (.keywords fault)

/-- The path that a variable sets, if it counts for the program. Every two underscores stand for a
step. -/
def variablePath? (program name : String) : Option (List PathStep) :=
  match (lowercase (program.toList ++ ['_'])).isPrefixOf? (lowercase name.toList) with
  | none => none
  | some rest => some (PathStep.path (String.ofList (points rest)))
where
  /-- The characters with a point for every two underscores. -/
  points : List Char → List Char
    | '_' :: '_' :: cs => '.' :: points cs
    | c :: cs => c :: points cs
    | [] => []

/-- **The layers in one document**: the fields of `document` at their paths, and over them the
variables of the environment that count for the program. -/
def layered (program : String) (document : Json) (environment : List (String × String)) : Json :=
  let documented := (document.fields?.getD []).foldl
    (fun below (name, value) => below.change value.laidOver (PathStep.path name)) (.object [])
  environment.foldl
    (fun below (name, value) =>
      match variablePath? program name with
      | none => below
      | some path => below.change (fun _ => .text value) path)
    documented

end Settings

end Junction
