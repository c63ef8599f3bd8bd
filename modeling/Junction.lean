import Junction.CommandLine.Arguments
import Junction.CommandLine.Commands
import Junction.Comparison
import Junction.Condition
import Junction.Decimal.Basic
import Junction.Decimal.Binary64
import Junction.Decimal.Shortest
import Junction.Event
import Junction.Facts.Basic
import Junction.Facts.Check
import Junction.Facts.Pattern
import Junction.Form
import Junction.Handler
import Junction.Json.Basic
import Junction.Json.Printer
import Junction.Json.Reader
import Junction.Keywords
import Junction.Kind
import Junction.Lexeme
import Junction.Main
import Junction.Operand
import Junction.Operator
import Junction.ParseError
import Junction.Quoted
import Junction.Reader
import Junction.Settings
import Junction.Text.Blank
import Junction.Text.Caseless
import Junction.Text.Delimiter
import Junction.Text.Lowercase
import Junction.Text.Ranges
import Junction.Text.Search
import Junction.Text.Slice
import Junction.Text.Word
import Junction.Tree.Basic
import Junction.Tree.Eval
import Junction.Tree.Filter
import Junction.Tree.OfEvents
import Junction.Tree.Render
import Junction.Tree.ToJson
import Junction.Yaml.Printer
import Junction.Yaml.Scalar
import Junction.Proofs.Tree.Pruning
import Junction.Proofs.Tree.Formula
import Junction.Proofs.Tree.Survivors
import Junction.Proofs.Tree.Dual
import Junction.Proofs.Tree.Asking
import Junction.Proofs.Tree.Answered
import Junction.Proofs.Reading.Built
import Junction.Proofs.Reading.Handled
import Junction.Proofs.Reading.Swapped
import Junction.Proofs.Reachable
import Junction.Proofs.TreeLaws
import Junction.Proofs.RoundTrip
import Junction.Proofs.Reading.Comparisons
import Junction.Proofs.Reading.ConditionEnds
import Junction.Proofs.Reading.Following
import Junction.Proofs.Composition
import Junction.Proofs.Duality
import Junction.Proofs.Refusal
import Junction.Proofs.Reading.Layout
import Junction.Proofs.Quoting
import Junction.Proofs.Scan
import Junction.Proofs.Groups
import Junction.Proofs.Bounds
import Junction.Proofs.Completion
import Junction.Proofs.Patterns
import Junction.Proofs.Tree.Known
import Junction.Proofs.Reading.Spelled
import Junction.Proofs.Commands
import Junction.Proofs.Facts.Answers
import Junction.Proofs.Knowing
import Junction.Proofs.Decimal.Rounding
import Junction.Proofs.Decimal.Integers
import Junction.Proofs.Comparing
import Junction.Proofs.Hooks
import Junction.Proofs.Facts.Given
import Junction.Proofs.Precedence
import Junction.Proofs.Json.Scalars
import Junction.Proofs.Json.ReadBack
import Junction.Proofs.Printing
import Junction.Proofs.Stability
import Junction.Proofs.Boundaries
