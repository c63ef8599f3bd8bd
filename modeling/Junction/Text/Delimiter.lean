/-!
# Delimiters

Parentheses enclose groups, and two kinds of quotes enclose text that is read as it stands.
-/

namespace Junction.Text

/-- A quote: what opens a quoted run, and what closes a run that it opened. -/
def isQuote (c : Char) : Bool := c == '\'' || c == '"'

/-- A parenthesis. -/
def isParen (c : Char) : Bool := c == '(' || c == ')'

end Junction.Text
