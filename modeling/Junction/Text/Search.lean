/-!
# Searching in texts

* `Text.find?` is the first place at which a text occurs, in bytes of UTF-8;
* `Text.pieces` cuts a text at each occurrence of a character;
* `Text.compareText` is the order of texts by code points, which is also that of their UTF-8 bytes.
-/

namespace Junction.Text

/-- The place, in bytes, at which `sought` first occurs. -/
def find? (sought : List Char) : List Char → Option Nat
  | [] => if sought.isPrefixOf [] then some 0 else none
  | c :: cs =>
    if sought.isPrefixOf (c :: cs) then some 0 else (find? sought cs).map (c.utf8Size + ·)

/-- `sought` occurs in the text. -/
def occursIn (sought cs : List Char) : Bool := (find? sought cs).isSome

/-- The text up to the first `mark`, and the further texts between marks. -/
def pieces (mark : Char) : List Char → List Char × List (List Char)
  | [] => ([], [])
  | c :: cs =>
    let (first, later) := pieces mark cs
    if c = mark then ([], first :: later) else (c :: first, later)

/-- **The order of texts**, by code points from the front. -/
def compareText : List Char → List Char → Ordering
  | [], [] => .eq
  | [], _ :: _ => .lt
  | _ :: _, [] => .gt
  | a :: s, b :: t => (compare a.toNat b.toNat).then (compareText s t)

end Junction.Text
