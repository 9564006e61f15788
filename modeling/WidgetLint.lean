import WidgetLint.Check.Diagnostic
import WidgetLint.Check.Entry
import WidgetLint.Check.Validation
import WidgetLint.Json
import WidgetLint.Lint.CallSite
import WidgetLint.Lint.Linter
import WidgetLint.Lint.Settings
import WidgetLint.Lint.Spot
import WidgetLint.Lint.Usage
import WidgetLint.Markup.Document
import WidgetLint.Markup.Name
import WidgetLint.Markup.Node
import WidgetLint.Markup.Piece
import WidgetLint.Markup.Problem
import WidgetLint.Markup.ServerBlock
import WidgetLint.Markup.Written
import WidgetLint.Number.Binary64
import WidgetLint.Number.Decimal
import WidgetLint.Proofs.Check.Conformance
import WidgetLint.Proofs.Check.Defaults
import WidgetLint.Proofs.Check.Findings
import WidgetLint.Proofs.Check.Loosening
import WidgetLint.Proofs.Check.Places
import WidgetLint.Proofs.Check.Reporting
import WidgetLint.Proofs.Inset.Agree
import WidgetLint.Proofs.Inset.Begins
import WidgetLint.Proofs.Inset.Blind
import WidgetLint.Proofs.Inset.Call
import WidgetLint.Proofs.Inset.Chain
import WidgetLint.Proofs.Inset.Config
import WidgetLint.Proofs.Inset.Cut
import WidgetLint.Proofs.Inset.Expr
import WidgetLint.Proofs.Inset.Join
import WidgetLint.Proofs.Inset.Lines
import WidgetLint.Proofs.Inset.Stmt
import WidgetLint.Proofs.Inset.Value
import WidgetLint.Proofs.Lint.Agreement
import WidgetLint.Proofs.Lint.AttributeNames
import WidgetLint.Proofs.Lint.Blanking
import WidgetLint.Proofs.Lint.Calls
import WidgetLint.Proofs.Lint.Coverage
import WidgetLint.Proofs.Lint.Embedding
import WidgetLint.Proofs.Lint.Highlights
import WidgetLint.Proofs.Lint.Places
import WidgetLint.Proofs.Lint.RoleElement
import WidgetLint.Proofs.Lint.Usage
import WidgetLint.Proofs.Markup.Blanking
import WidgetLint.Proofs.Markup.Flattening
import WidgetLint.Proofs.Markup.Gathering
import WidgetLint.Proofs.Markup.Nesting
import WidgetLint.Proofs.Markup.Places
import WidgetLint.Proofs.Markup.Quoting
import WidgetLint.Proofs.Markup.RawBodies
import WidgetLint.Proofs.Markup.Readers
import WidgetLint.Proofs.Markup.Recutting
import WidgetLint.Proofs.Markup.References
import WidgetLint.Proofs.Markup.Rereading
import WidgetLint.Proofs.Markup.RoundTrip
import WidgetLint.Proofs.Markup.Shape
import WidgetLint.Proofs.Markup.Spans
import WidgetLint.Proofs.Markup.Tags
import WidgetLint.Proofs.Markup.XmlRoundTrip
import WidgetLint.Proofs.Nesting.Patterns
import WidgetLint.Proofs.Number.Rounding
import WidgetLint.Proofs.Number.Shortest
import WidgetLint.Proofs.Printing.Balanced
import WidgetLint.Proofs.Printing.Control
import WidgetLint.Proofs.Printing.Cutting
import WidgetLint.Proofs.Printing.Data
import WidgetLint.Proofs.Printing.Fit
import WidgetLint.Proofs.Printing.Formed
import WidgetLint.Proofs.Printing.Front
import WidgetLint.Proofs.Printing.Leads
import WidgetLint.Proofs.Printing.Lists
import WidgetLint.Proofs.Printing.Moved
import WidgetLint.Proofs.Printing.Numerals
import WidgetLint.Proofs.Printing.Objects
import WidgetLint.Proofs.Printing.Operands
import WidgetLint.Proofs.Printing.OperatorLanguage
import WidgetLint.Proofs.Printing.Operators
import WidgetLint.Proofs.Printing.Printed
import WidgetLint.Proofs.Printing.ReadBack
import WidgetLint.Proofs.Printing.Reads
import WidgetLint.Proofs.Printing.Reparse
import WidgetLint.Proofs.Printing.Reprint
import WidgetLint.Proofs.Printing.Seams
import WidgetLint.Proofs.Printing.Spelled
import WidgetLint.Proofs.Printing.Spelling
import WidgetLint.Proofs.Printing.Statements
import WidgetLint.Proofs.Printing.Yields
import WidgetLint.Proofs.Safety.Linter
import WidgetLint.Proofs.Schema.Nesting
import WidgetLint.Proofs.Schema.Order
import WidgetLint.Proofs.Schema.Search
import WidgetLint.Proofs.Script.Alike
import WidgetLint.Proofs.Script.AlikeExpr
import WidgetLint.Proofs.Script.AlikeStmt
import WidgetLint.Proofs.Script.Formatting
import WidgetLint.Proofs.Script.Origin
import WidgetLint.Proofs.Script.Places
import WidgetLint.Proofs.Spans.Expressions
import WidgetLint.Proofs.Spans.Keys
import WidgetLint.Proofs.Spans.Laid
import WidgetLint.Proofs.Spans.Nested
import WidgetLint.Proofs.Spans.Parts
import WidgetLint.Proofs.Spans.Statements
import WidgetLint.Proofs.Spans.Walks
import WidgetLint.Proofs.Tokens.Escapes
import WidgetLint.Proofs.Tokens.Gaps
import WidgetLint.Proofs.Tokens.QuotedStrings
import WidgetLint.Proofs.Tokens.Respacing
import WidgetLint.Proofs.Tokens.Slices
import WidgetLint.Proofs.Tokens.Tiling
import WidgetLint.Proofs.Walks.CallSites
import WidgetLint.Proofs.Walks.Parts
import WidgetLint.Proofs.Walks.SourceOrder
import WidgetLint.Schema.Component
import WidgetLint.Schema.Loading
import WidgetLint.Schema.Model
import WidgetLint.Schema.Nesting
import WidgetLint.Schema.Search
import WidgetLint.Script.Lexeme
import WidgetLint.Script.Lexer
import WidgetLint.Script.Operator
import WidgetLint.Script.Parser
import WidgetLint.Script.Parser.Basic
import WidgetLint.Script.Parser.Expr
import WidgetLint.Script.Parser.Stmt
import WidgetLint.Script.Printer
import WidgetLint.Script.Quoted
import WidgetLint.Script.ScriptError
import WidgetLint.Script.Symbol
import WidgetLint.Script.Token
import WidgetLint.Script.Tree
import WidgetLint.Script.Walk
import WidgetLint.Text.Alphabetic
import WidgetLint.Text.AsciiCase
import WidgetLint.Text.Blank
import WidgetLint.Text.Cased
import WidgetLint.Text.CodeRange
import WidgetLint.Text.Cursor
import WidgetLint.Text.Digit
import WidgetLint.Text.Lowercase
import WidgetLint.Text.Numeric
import WidgetLint.Text.Position
import WidgetLint.Text.Slice
