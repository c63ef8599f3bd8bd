import Junction.Json.Basic

/-!
# JSON as text

A JSON value is written on one line without spaces (`Json.compact`), or over several lines, each
level indented by two spaces more than the one around it (`Json.pretty`). In strings the quote, the
backslash and the control characters are escaped; every other character stands for itself.
-/

namespace Junction

namespace Json

/-- A hexadecimal digit, letters in lower case. -/
def hexDigit (n : Nat) : Char := Nat.digitChar n

/-- A character in a string. -/
def escapeChar (c : Char) : List Char :=
  if c = '"' then ['\\', '"']
  else if c = '\\' then ['\\', '\\']
  else if c.toNat = 0x08 then ['\\', 'b']
  else if c.toNat = 0x09 then ['\\', 't']
  else if c.toNat = 0x0A then ['\\', 'n']
  else if c.toNat = 0x0C then ['\\', 'f']
  else if c.toNat = 0x0D then ['\\', 'r']
  else if c.toNat < 0x20 then
    ['\\', 'u', '0', '0', hexDigit (c.toNat / 16), hexDigit (c.toNat % 16)]
  else [c]

/-- A string, in its quotes. -/
def quoted (s : String) : List Char := '"' :: s.toList.flatMap escapeChar ++ ['"']

/-- A number. -/
def numeral (d : Decimal) : List Char :=
  (if d.negative then ['-'] else []) ++ (toString d.coefficient).toList
    ++ if d.exponent = 0 then [] else 'e' :: (toString d.exponent).toList

/-- A value that holds no other. -/
def scalar : Json → List Char
  | bool true => "true".toList
  | bool false => "false".toList
  | number d => numeral d
  | text s => quoted s
  | _ => "null".toList

/-! ### On one line -/

mutual

/-- The characters of a value on one line. -/
def compactChars : Json → List Char
  | list items => '[' :: compactItems items ++ [']']
  | object fields => '{' :: compactFields fields ++ ['}']
  | value => value.scalar
termination_by structural j => j

/-- Values with commas between them. -/
def compactItems : List Json → List Char
  | [] => []
  | j :: later =>
    match later with
    | [] => j.compactChars
    | _ :: _ => j.compactChars ++ ',' :: compactItems later
termination_by structural items => items

/-- Fields with commas between them. -/
def compactFields : List (String × Json) → List Char
  | [] => []
  | field :: later =>
    match later with
    | [] => compactField field
    | _ :: _ => compactField field ++ ',' :: compactFields later
termination_by structural fields => fields

/-- One field. -/
def compactField : String × Json → List Char
  | (name, value) => quoted name ++ ':' :: value.compactChars
termination_by structural field => field

end

/-- **The value on one line.** -/
def compact (j : Json) : String := String.ofList j.compactChars

/-! ### Over several lines -/

/-- A new line, indented to a level. -/
def newLine (level : Nat) : List Char := '\n' :: List.replicate (2 * level) ' '

mutual

/-- The characters of a value over several lines; `level` is the level that it stands at. -/
def prettyChars (level : Nat) : Json → List Char
  | list [] => ['[', ']']
  | list (item :: items) => '[' :: prettyItems (level + 1) (item :: items) ++ newLine level ++ [']']
  | object [] => ['{', '}']
  | object (field :: fields) =>
    '{' :: prettyFields (level + 1) (field :: fields) ++ newLine level ++ ['}']
  | value => value.scalar
termination_by structural j => j

/-- Values, each on lines of its own. -/
def prettyItems (level : Nat) : List Json → List Char
  | [] => []
  | j :: later =>
    newLine level ++ prettyChars level j ++
      match later with
      | [] => []
      | _ :: _ => ',' :: prettyItems level later
termination_by structural items => items

/-- Fields, each on lines of its own. -/
def prettyFields (level : Nat) : List (String × Json) → List Char
  | [] => []
  | field :: later =>
    newLine level ++ prettyField level field ++
      match later with
      | [] => []
      | _ :: _ => ',' :: prettyFields level later
termination_by structural fields => fields

/-- One field. -/
def prettyField (level : Nat) : String × Json → List Char
  | (name, value) => quoted name ++ ':' :: ' ' :: prettyChars level value
termination_by structural field => field

end

/-- **The value over several lines.** -/
def pretty (j : Json) : String := String.ofList (prettyChars 0 j)

end Json

end Junction
