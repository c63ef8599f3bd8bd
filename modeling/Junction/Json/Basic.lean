import Junction.Decimal.Basic

/-!
# JSON values

A `Json` is a value of the data format. The fields of an object keep their order; `Json.field?` is
the value of the field of a name.
-/

namespace Junction

/-- **A JSON value.** -/
inductive Json where
  | null
  | bool (value : Bool)
  | number (value : Decimal)
  | text (value : String)
  | list (items : List Json)
  | object (fields : List (String × Json))

namespace Json

/-- A whole number. -/
def ofInt (n : Int) : Json := number ⟨n < 0, n.natAbs, 0⟩

/-- A natural number. -/
def ofNat (n : Nat) : Json := ofInt n

/-- The fields of an object. -/
def fields? : Json → Option (List (String × Json))
  | object fields => some fields
  | _ => none

/-- The items of a list. -/
def items? : Json → Option (List Json)
  | list items => some items
  | _ => none

/-- A text. -/
def text? : Json → Option String
  | text value => some value
  | _ => none

/-- A truth value. -/
def bool? : Json → Option Bool
  | bool value => some value
  | _ => none

/-- A natural number. -/
def nat? : Json → Option Nat
  | number ⟨false, n, 0⟩ => some n
  | _ => none

/-- The value of a field of an object. A field that is null counts as missing. -/
def field? (j : Json) (name : String) : Option Json :=
  match (j.fields?.getD []).lookup name with
  | some null => none
  | found => found

end Json

end Junction
