import Junction.Decimal.Binary64

/-!
# Scalars of YAML

A text can be written in YAML in four styles. `Yaml.style` takes the plainest style that reads back
as the same text:

* a text of several lines is **literal**, its lines as they stand below a `|`;
* a text that YAML would take for something else is **single-quoted**: the words for null and the
  truth values, and whatever spells a number (`Yaml.isOther`);
* any other text is **plain** if nothing in it would be taken for a mark of YAML
  (`Yaml.hasIndicator`), and else single-quoted;
* characters that only an escape can write make a text **double-quoted**.
-/

namespace Junction.Yaml

/-! ### Characters -/

/-- A character that breaks lines. -/
def isBreak (c : Char) : Bool :=
  c == '\n' || c == '\r' || c.toNat == 0x85 || c.toNat == 0x2028 || c.toNat == 0x2029

/-- A character that may stand as itself. -/
def isPrintable (c : Char) : Bool :=
  let n := c.toNat
  n == 0x0A || (0x20 ≤ n && n ≤ 0x7E) || (0xA0 ≤ n && n ≤ 0xFFFD && n != 0xFEFF) || 0x10000 ≤ n

/-- A character after which, or before which, a mark of YAML stands apart. The end of the text
counts as one. -/
def isGap : Option Char → Bool
  | none => true
  | some c => c == ' ' || c == '\t' || c.toNat == 0 || isBreak c

/-! ### Texts that read as something else -/

/-- The value of a digit of a base up to sixteen. -/
def digitValue? (base : Nat) (c : Char) : Option Nat :=
  let value? :=
    if '0' ≤ c ∧ c ≤ '9' then some (c.toNat - '0'.toNat)
    else if 'a' ≤ c ∧ c ≤ 'f' then some (c.toNat - 'a'.toNat + 10)
    else if 'A' ≤ c ∧ c ≤ 'F' then some (c.toNat - 'A'.toNat + 10)
    else none
  value?.filter (· < base)

/-- The number that digits of a base write, if there are any and there is nothing else. -/
def natural? (base : Nat) (cs : List Char) : Option Nat :=
  if cs = [] then none
  else cs.foldlM (fun n c => (digitValue? base c).map (base * n + ·)) 0

/-- The number that a text without a sign writes in decimal, or in another base after its mark. -/
def magnitude? : List Char → Option Nat
  | '0' :: 'x' :: cs => natural? 16 cs
  | '0' :: 'o' :: cs => natural? 8 cs
  | '0' :: 'b' :: cs => natural? 2 cs
  | cs => natural? 10 cs

/-- The text spells a whole number, of no more than 128 bits. -/
def isWhole : List Char → Bool
  | '-' :: cs => (magnitude? cs).any (· ≤ Nat.pow 2 127)
  | '+' :: cs => (magnitude? cs).any (· < Nat.pow 2 128)
  | cs => (magnitude? cs).any (· < Nat.pow 2 128)

/-- The text without one plus sign in front. A second sign after it makes the text none. -/
def unsigned? : List Char → Option (List Char)
  | '+' :: '+' :: _ => none
  | '+' :: '-' :: _ => none
  | '+' :: cs => some cs
  | cs => some cs

/-- The text spells a number in decimal that is finite in double precision, an infinity, or that
which is no number. -/
def isReal (cs : List Char) : Bool :=
  let infinities := [".inf", ".Inf", ".INF"].map String.toList
  let others := ["-.inf", "-.Inf", "-.INF", ".nan", ".NaN", ".NAN"].map String.toList
  match unsigned? cs with
  | none => false
  | some u => infinities.contains u || others.contains cs
      || ((Decimal.read? u).bind Decimal.toUnits?).isSome

/-- The text is several digits after a sign or none, the first of them a zero. -/
def isZeroPadded (cs : List Char) : Bool :=
  match (Decimal.sign cs).2 with
  | '0' :: c :: cs => (c :: cs).all Decimal.isDigit
  | _ => false

/-- The words for null and for the truth values. -/
def words : List (List Char) :=
  ["null", "Null", "NULL", "~", "true", "True", "TRUE", "false", "False", "FALSE"].map
    String.toList

/-- **Without quotes the text would not read as a text**, or not everywhere. -/
def isOther (cs : List Char) : Bool :=
  cs.isEmpty || words.contains cs || isZeroPadded cs || isWhole cs || isReal cs

/-! ### Texts that hold a mark of YAML -/

/-- The text begins with a mark: of a document, of a node, of a comment, or of an entry that stands
apart. -/
def startsWithIndicator : List Char → Bool
  | '-' :: '-' :: '-' :: _ => true
  | '.' :: '.' :: '.' :: _ => true
  | [] => false
  | c :: cs =>
    "#,[]\x7b\x7d&*!|>'\"%@\x60".toList.contains c
      || (['?', ':', '-'].contains c && isGap cs.head?)

/-- After its first character `prev` the text holds a colon that stands before a gap, or the mark of
a comment after one. -/
def holdsIndicator (prev : Char) : List Char → Bool
  | [] => false
  | c :: cs =>
    (c == ':' && isGap cs.head?) || (c == '#' && isGap (some prev)) || holdsIndicator c cs

/-- **The text holds what YAML would take for a mark.** -/
def hasIndicator (cs : List Char) : Bool :=
  startsWithIndicator cs ||
    match cs with
    | [] => false
    | c :: cs => holdsIndicator c cs

/-! ### Styles -/

/-- A style of a scalar. -/
inductive Style where
  | plain
  | singleQuoted
  | doubleQuoted
  | literal
  deriving DecidableEq

/-- Two neighbours in the text are of the classes `p` and `q`. -/
def hasPair (p q : Char → Bool) : List Char → Bool
  | c :: d :: cs => (p c && q d) || hasPair p q (d :: cs)
  | _ => false

/-- Only escapes can write the text: it holds a character that cannot stand as itself, or a space
before the end of a line. -/
def needsEscapes (cs : List Char) : Bool :=
  cs.any (fun c => !isPrintable c) || hasPair (· == ' ') isBreak cs

/-- The text can stand in single quotes. -/
def fitsSingleQuotes (cs : List Char) : Bool := !needsEscapes cs && !hasPair isBreak (· == ' ') cs

/-- The text can stand as a literal block. -/
def fitsLiteral (cs : List Char) : Bool := !needsEscapes cs && cs.getLast? != some ' '

/-- The text can stand without quotes, as far as its spaces and breaks go. -/
def fitsPlain (cs : List Char) : Bool :=
  !needsEscapes cs && !cs.any isBreak && cs.head? != some ' ' && cs.getLast? != some ' '

/-- **The style that a text is written in.** -/
def style (cs : List Char) : Style :=
  if cs.contains '\n' then if fitsLiteral cs then .literal else .doubleQuoted
  else if !isOther cs && fitsPlain cs && !hasIndicator cs then .plain
  else if fitsSingleQuotes cs then .singleQuoted
  else .doubleQuoted

end Junction.Yaml
