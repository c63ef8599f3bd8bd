import Junction.Kind

/-!
# Errors of expressions

An expression is refused for one of three reasons. `ParseError.message` words each of them.
-/

namespace Junction

/-- Why an expression is refused. -/
inductive ParseError where
  /-- After `consumed`, the text `rest` begins with no token of the kinds `expected`. -/
  | unexpected (consumed rest : String) (expected : KindSet)
  /-- The expression ends where a token of the kinds `expected` has to come. -/
  | incomplete (expected : KindSet)
  /-- The expression ends with `count` groups still open. -/
  | unclosed (count : Nat)
  deriving DecidableEq

namespace ParseError

/-- Where the text that is refused begins, in bytes of UTF-8. -/
def position? : ParseError → Option Nat
  | unexpected consumed _ _ => some consumed.utf8ByteSize
  | _ => none

/-- The kinds of tokens that could have come. -/
def expected? : ParseError → Option KindSet
  | unexpected _ _ expected => some expected
  | incomplete expected => some expected
  | unclosed _ => none

/-- **The error in words.** The text that is refused is marked in the whole expression. -/
def message : ParseError → String
  | unexpected consumed rest expected =>
    if rest = "" then
      "unexpected end of expression, expected " ++ expected.text ++ " in '" ++ consumed ++ "'"
    else
      "expected " ++ expected.text ++ " at position " ++ toString consumed.utf8ByteSize ++ " in '"
        ++ consumed ++ ">>>" ++ rest ++ "'"
  | incomplete expected => "incomplete expression, expected " ++ expected.text
  | unclosed count => toString count ++ " unclosed parenthesis"

end ParseError

end Junction
