import Retarget.CommandLine
import Retarget.Compile
import Retarget.Decimal.Binary64
import Retarget.Decimal.Reading
import Retarget.Decimal.Shortest
import Retarget.Dispatch
import Retarget.Emission
import Retarget.Emission.Form
import Retarget.Emission.Session
import Retarget.Error
import Retarget.Expr
import Retarget.Expr.Parser
import Retarget.Fault
import Retarget.FileSystem
import Retarget.Fixture
import Retarget.Fixture.Check
import Retarget.Glob
import Retarget.Glob.Search
import Retarget.Helper
import Retarget.Ir
import Retarget.Ir.Dump
import Retarget.Json
import Retarget.Json.Reader
import Retarget.Literal
import Retarget.Lowering
import Retarget.Main
import Retarget.Position
import Retarget.Target
import Retarget.Target.JavaScript
import Retarget.Target.Ruby
import Retarget.Target.Sql
import Retarget.Temporal
import Retarget.Text.DecimalDigit
import Retarget.Text.JsonString
import Retarget.Text.Order
import Retarget.Text.Scan
import Retarget.Text.Shown
import Retarget.Text.Uppercase
import Retarget.Token
import Retarget.Token.Lexer
import Retarget.Ty
import Retarget.Ty.Result
import Retarget.Proofs.Evaluation
import Retarget.Proofs.Alternative
import Retarget.Proofs.Dispatch
import Retarget.Proofs.Masks
import Retarget.Proofs.Grouping.Reader
import Retarget.Proofs.Grouping.Steps
import Retarget.Proofs.Grouping.RoundTrip
import Retarget.Proofs.Numeral
import Retarget.Proofs.Grouping.Spelling
import Retarget.Proofs.Grouping.Quotation
import Retarget.Proofs.Grouping.Form
import Retarget.Proofs.Grouping.Scheme
import Retarget.Proofs.Grouping.Ruby
import Retarget.Proofs.Grouping.JavaScript
import Retarget.Proofs.Grouping.Sql
import Retarget.Proofs.Typing
import Retarget.Proofs.Parsing.WellFormed
import Retarget.Proofs.Scoping
import Retarget.Proofs.Regrouping
import Retarget.Proofs.Lexical
import Retarget.Proofs.Grouping.Faithful
import Retarget.Proofs.Letters
import Retarget.Proofs.Quoting.Pieces
import Retarget.Proofs.Quoting.Form
import Retarget.Proofs.Quoting.Target
import Retarget.Proofs.Quoting.Ruby
import Retarget.Proofs.Quoting.JavaScript
import Retarget.Proofs.Quoting.Sql
import Retarget.Proofs.Quoting.Occurrence
import Retarget.Proofs.Quoting.Ways
import Retarget.Proofs.Quoting.Constants
import Retarget.Proofs.Quoting.Failures
import Retarget.Proofs.IntegerWidth
import Retarget.Proofs.Naming.Layout
import Retarget.Proofs.Naming.Outline
import Retarget.Proofs.Naming.JavaScript
import Retarget.Proofs.Naming.Ruby
import Retarget.Proofs.Naming.Resolution
import Retarget.Proofs.Naming.Capture
import Retarget.Proofs.Lowered
import Retarget.Proofs.Representation.Expression
import Retarget.Proofs.Representation.Types
import Retarget.Proofs.Representation.Calls
import Retarget.Proofs.Representation.Fits
import Retarget.Proofs.Representation.Places
import Retarget.Proofs.Representation.Coalescing
import Retarget.Proofs.Calling.Scan
import Retarget.Proofs.Calling.Ledger
import Retarget.Proofs.Calling.Ruby
import Retarget.Proofs.Calling.JavaScript
import Retarget.Proofs.Calling.Sql
import Retarget.Proofs.Calling.Reported
import Retarget.Proofs.Parsing.Constructs
import Retarget.Proofs.Parsing.Lexeme
import Retarget.Proofs.Parsing.RoundTrip
import Retarget.Proofs.Arity
import Retarget.Proofs.Unsupported
import Retarget.Proofs.InPlace.Step
import Retarget.Proofs.InPlace.Targets
import Retarget.Proofs.InPlace.Frame
import Retarget.Proofs.Hygiene
import Retarget.Proofs.Tokens.Truncation
import Retarget.Proofs.Tokens.Tiling
import Retarget.Proofs.Parsing.Nodes
import Retarget.Proofs.Spans.Window
import Retarget.Proofs.Spans.Mirror
import Retarget.Proofs.Spans.Reached
import Retarget.Proofs.Spans.Collected
import Retarget.Proofs.Spans.Faithful
import Retarget.Proofs.Guards.Events
import Retarget.Proofs.Guards.FailFast
import Retarget.Proofs.Selectors.Outcome
import Retarget.Proofs.Selectors.Types
import Retarget.Proofs.Raising
import Retarget.Proofs.Tokens.Strings
import Retarget.Proofs.Tokens.Iso
import Retarget.Proofs.Tokens.Patterns
import Retarget.Proofs.Tokens.Temporals
import Retarget.Proofs.Tokens.Payloads
import Retarget.Proofs.Pipes
import Retarget.Proofs.Negation.Bindings
import Retarget.Proofs.Negation.Outside
import Retarget.Proofs.Negation.Lead
import Retarget.Proofs.Negation.Operand
import Retarget.Proofs.Negation.Compiled
import Retarget.Proofs.Types.Equality
import Retarget.Proofs.Types.Join
import Retarget.Proofs.Types.Rules
import Retarget.Proofs.Types.Precision
import Retarget.Proofs.Types.Lowered
import Retarget.Proofs.Types.Branches
import Retarget.Proofs.Generalizations
import Retarget.Proofs.Positions
