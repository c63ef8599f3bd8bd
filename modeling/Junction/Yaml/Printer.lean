import Junction.Json.Printer
import Junction.Yaml.Scalar

/-!
# YAML

`Yaml.render` writes a JSON value as YAML in block style: each item of a list on a line of its own
after a dash, each field of an object on a line of its own after its name, and what they hold
indented by two spaces more. The first line of a list or an object that is an item stands on the
line of its dash. Texts are written in the style that `Yaml.style` chooses.
-/

namespace Junction.Yaml

/-- Spaces up to a column. -/
def spaces (column : Nat) : List Char := List.replicate column ' '

/-- The characters of a text over several lines, each line after the first at a column; at
`lineStart` the text begins a line. A line without characters is not indented. -/
def indented (column : Nat) (lineStart : Bool) : List Char → List Char
  | [] => []
  | c :: cs =>
    if isBreak c then c :: indented column true cs
    else (if lineStart then spaces column else []) ++ c :: indented column false cs

/-- A hexadecimal number of a fixed count of digits, letters as capitals. -/
def hex : Nat → Nat → List Char
  | 0, _ => []
  | digits + 1, n => hex digits (n / 16) ++ [(Nat.digitChar (n % 16)).toUpper]

/-- The escape of a character in double quotes. -/
def escape (c : Char) : List Char :=
  let n := c.toNat
  match [(0x00, '0'), (0x07, 'a'), (0x08, 'b'), (0x09, 't'), (0x0A, 'n'), (0x0B, 'v'), (0x0C, 'f'),
    (0x0D, 'r'), (0x1B, 'e'), (0x22, '"'), (0x5C, '\\'), (0x85, 'N'), (0xA0, '_'), (0x2028, 'L'),
    (0x2029, 'P')].lookup n with
  | some letter => ['\\', letter]
  | none =>
    if n ≤ 0xFF then '\\' :: 'x' :: hex 2 n
    else if n ≤ 0xFFFF then '\\' :: 'u' :: hex 4 n
    else '\\' :: 'U' :: hex 8 n

/-- A text in double quotes. -/
def doubleQuoted (cs : List Char) : List Char :=
  '"' :: cs.flatMap (fun c =>
    if !isPrintable c || isBreak c || c == '"' || c == '\\' then escape c else [c]) ++ ['"']

/-- A text in single quotes, each single quote in it twice. -/
def singleQuoted (column : Nat) (cs : List Char) : List Char :=
  '\'' :: indented column false (cs.flatMap fun c => if c = '\'' then ['\'', '\''] else [c])
    ++ (if cs.getLast?.any isBreak then spaces column else []) ++ ['\'']

/-- What the last breaks of a literal text come to: a mark where there is not exactly one. -/
def chomping (cs : List Char) : List Char :=
  match cs.reverse with
  | [] => ['-']
  | [c] => if isBreak c then ['+'] else ['-']
  | c :: d :: _ => if !isBreak c then ['-'] else if isBreak d then ['+'] else []

/-- A text as a literal block. Where its first line does not show the indentation, it is told. -/
def literal (column : Nat) (cs : List Char) : List Char :=
  let told := cs.head?.any fun c => c == ' ' || isBreak c
  '|' :: (if told then ['2'] else []) ++ chomping cs ++ '\n' :: indented column true cs

/-- A text in its style; its lines after the first stand at a column. -/
def scalar (column : Nat) (cs : List Char) : List Char :=
  match style cs with
  | .plain => cs
  | .singleQuoted => singleQuoted column cs
  | .doubleQuoted => doubleQuoted cs
  | .literal => literal column cs

/-- The line after some text begins at a column. A text that ends with a break, as a literal block
can, has no need of another. -/
def newLine (column : Nat) (before : List Char) : List Char :=
  (if before.getLast?.any isBreak then [] else ['\n']) ++ spaces column

mutual

/-- The characters of a value whose lines after the first stand at a column. -/
def block (column : Nat) : Json → List Char
  | .list [] => ['[', ']']
  | .list (item :: items) => blockItems column (item :: items)
  | .object [] => ['\x7b', '\x7d']
  | .object (field :: fields) => blockFields column (field :: fields)
  | .text s => scalar column s.toList
  | value => value.scalar
termination_by structural j => j

/-- Items of a list, from a line's beginning on. -/
def blockItems (column : Nat) : List Json → List Char
  | [] => []
  | j :: later =>
    let item := '-' :: ' ' :: block (column + 2) j
    match later with
    | [] => item
    | _ :: _ => item ++ newLine column item ++ blockItems column later
termination_by structural items => items

/-- Fields of an object, from a line's beginning on. -/
def blockFields (column : Nat) : List (String × Json) → List Char
  | [] => []
  | entry :: later =>
    let field := blockField column entry
    match later with
    | [] => field
    | _ :: _ => field ++ newLine column field ++ blockFields column later
termination_by structural fields => fields

/-- One field. A list or an object in it begins on the next line. -/
def blockField (column : Nat) : String × Json → List Char
  | (name, value) =>
    scalar column name.toList ++ ':' ::
      match value with
      | .list (item :: items) => newLine column [] ++ blockItems column (item :: items)
      | .object (field :: fields) =>
        newLine (column + 2) [] ++ blockFields (column + 2) (field :: fields)
      | value => ' ' :: block (column + 2) value
termination_by structural field => field

end

/-- **The value in YAML.** Only a literal block that comes last leaves a break at the end. -/
def render (j : Json) : String := String.ofList (block 0 j)

end Junction.Yaml
