import Junction.Json.Basic

/-!
# JSON from text

`Json.read?` reads a JSON value that makes up a whole text. A string may hold any character and the
escapes of JSON, where two escapes for the halves of a surrogate pair are one character; half a pair
is refused. Numbers are read exactly.
-/

namespace Junction.Json

/-- White space between the parts of a value. -/
def isSpace (c : Char) : Bool := c == ' ' || c == '\t' || c == '\n' || c == '\r'

/-- The value of a hexadecimal digit. -/
def hexValue? (c : Char) : Option Nat :=
  if '0' ≤ c ∧ c ≤ '9' then some (c.toNat - '0'.toNat)
  else if 'a' ≤ c ∧ c ≤ 'f' then some (c.toNat - 'a'.toNat + 10)
  else if 'A' ≤ c ∧ c ≤ 'F' then some (c.toNat - 'A'.toNat + 10)
  else none

/-- The code unit that four hexadecimal digits write. -/
def hexUnit? (a b c d : Char) : Option Nat := do
  return ((← hexValue? a) * 16 + (← hexValue? b)) * 256 + (← hexValue? c) * 16 + (← hexValue? d)

/-- The character that a backslash and one more character write. -/
def escaped? : Char → Option Char
  | '"' => some '"'
  | '\\' => some '\\'
  | '/' => some '/'
  | 'b' => some '\x08'
  | 'f' => some '\x0c'
  | 'n' => some '\n'
  | 'r' => some '\r'
  | 't' => some '\t'
  | _ => none

/-- The code units of a string up to its closing quote, and what follows the quote. A character
that stands for itself is one unit. -/
def units? : List Char → Option (List Nat × List Char)
  | [] => none
  | '"' :: cs => some ([], cs)
  | '\\' :: 'u' :: a :: b :: c :: d :: cs => do
    let unit ← hexUnit? a b c d
    let (units, rest) ← units? cs
    return (unit :: units, rest)
  | '\\' :: c :: cs => do
    let c ← escaped? c
    let (units, rest) ← units? cs
    return (c.toNat :: units, rest)
  | c :: cs =>
    if c = '\\' then none
    else do
      let (units, rest) ← units? cs
      return (c.toNat :: units, rest)

/-- The characters of code units: a surrogate pair is one character. -/
def ofUnits? : List Nat → Option (List Char)
  | [] => some []
  | [u] => if h : u.isValidChar then some [Char.ofNatAux u h] else none
  | u :: v :: units =>
    if h : u.isValidChar then (ofUnits? (v :: units)).map (Char.ofNatAux u h :: ·)
    else if 0xD800 ≤ u ∧ u < 0xDC00 ∧ 0xDC00 ≤ v ∧ v < 0xE000 then
      (ofUnits? units).map (Char.ofNat (0x10000 + (u - 0xD800) * 0x400 + (v - 0xDC00)) :: ·)
    else none

/-- A string whose opening quote has been read, and what follows it. -/
def readText (cs : List Char) : Option (String × List Char) := do
  let (units, rest) ← units? cs
  return (String.ofList (← ofUnits? units), rest)

/-- A character of a number. -/
def isNumeric (c : Char) : Bool := Decimal.isDigit c || ['-', '+', '.', 'e', 'E'].contains c

mutual

/-- A value at the front of a text, and what follows it. The fuel bounds the depth of values and
the number of items. -/
def readValue : Nat → List Char → Option (Json × List Char)
  | 0, _ => none
  | fuel + 1, cs =>
    match cs.dropWhile isSpace with
    | 'n' :: 'u' :: 'l' :: 'l' :: cs => some (null, cs)
    | 't' :: 'r' :: 'u' :: 'e' :: cs => some (bool true, cs)
    | 'f' :: 'a' :: 'l' :: 's' :: 'e' :: cs => some (bool false, cs)
    | '"' :: cs => (readText cs).map fun (s, rest) => (text s, rest)
    | '[' :: cs =>
      match cs.dropWhile isSpace with
      | ']' :: cs => some (list [], cs)
      | cs => (readItems fuel cs).map fun (items, rest) => (list items, rest)
    | '{' :: cs =>
      match cs.dropWhile isSpace with
      | '}' :: cs => some (object [], cs)
      | cs => (readFields fuel cs).map fun (fields, rest) => (object fields, rest)
    | cs =>
      (Decimal.read? (cs.takeWhile isNumeric)).map fun d => (number d, cs.dropWhile isNumeric)

/-- The values up to the end of a list, and what follows it. -/
def readItems : Nat → List Char → Option (List Json × List Char)
  | 0, _ => none
  | fuel + 1, cs => do
    let (item, cs) ← readValue fuel cs
    match cs.dropWhile isSpace with
    | ']' :: cs => return ([item], cs)
    | ',' :: cs =>
      let (items, cs) ← readItems fuel cs
      return (item :: items, cs)
    | _ => none

/-- The fields up to the end of an object, and what follows it. -/
def readFields : Nat → List Char → Option (List (String × Json) × List Char)
  | 0, _ => none
  | fuel + 1, cs =>
    match cs.dropWhile isSpace with
    | '"' :: cs => do
      let (name, cs) ← readText cs
      match cs.dropWhile isSpace with
      | ':' :: cs =>
        let (value, cs) ← readValue fuel cs
        match cs.dropWhile isSpace with
        | '}' :: cs => return ([(name, value)], cs)
        | ',' :: cs =>
          let (fields, cs) ← readFields fuel cs
          return ((name, value) :: fields, cs)
        | _ => none
      | _ => none
    | _ => none

end

/-- **The value that a text writes.** A value is no deeper and no longer than its text. -/
def read? (s : String) : Option Json :=
  match readValue (s.length + 1) s.toList with
  | some (value, rest) => if rest.all isSpace then some value else none
  | none => none

end Junction.Json
