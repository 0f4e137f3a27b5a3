import Formula.Binary64.Basic
import Formula.Binary64.Rounding
import Formula.Binary64.Shortest
import Formula.CommandLine.Arguments
import Formula.CommandLine.Run
import Formula.Diagnostic
import Formula.Explorer.Analysis
import Formula.Explorer.Frame
import Formula.Explorer.Palette
import Formula.Explorer.Panes
import Formula.Explorer.Session
import Formula.Expr.Basic
import Formula.Expr.Outline
import Formula.Expr.Render
import Formula.Grammar
import Formula.Json.Number
import Formula.Json.Read
import Formula.Json.String
import Formula.Json.Write
import Formula.Log
import Formula.Main
import Formula.Nested
import Formula.Numeral.Layout
import Formula.Numeral.Reading
import Formula.Operator
import Formula.Parse.Arena
import Formula.Parse.Failure
import Formula.Parse.Memo
import Formula.Parse.Rules
import Formula.Parse.State
import Formula.Parse.Transcript
import Formula.Proofs.Binary64.Decimal
import Formula.Proofs.Binary64.Shortest
import Formula.Proofs.Diagnostic.Report
import Formula.Proofs.Explorer.Cursor
import Formula.Proofs.Explorer.Editing
import Formula.Proofs.Explorer.Highlight
import Formula.Proofs.Expr.Chains
import Formula.Proofs.Expr.Outline
import Formula.Proofs.Expr.Parsed
import Formula.Proofs.Expr.Pieces
import Formula.Proofs.Expr.Regrouping
import Formula.Proofs.Expr.Reprint
import Formula.Proofs.Expr.RoundTrip
import Formula.Proofs.Expr.Signs
import Formula.Proofs.Expr.Views
import Formula.Proofs.Expr.Written
import Formula.Proofs.Grammar.Derivation
import Formula.Proofs.Grammar.Neighbours
import Formula.Proofs.Grammar.Separated
import Formula.Proofs.Grammar.Viable
import Formula.Proofs.Json.Numbers
import Formula.Proofs.Json.RoundTrip
import Formula.Proofs.Json.Strings
import Formula.Proofs.Json.Values
import Formula.Proofs.Nested.Inverse
import Formula.Proofs.Nested.Names
import Formula.Proofs.Nested.Parsed
import Formula.Proofs.Numeral.RoundTrip
import Formula.Proofs.Parse.Accounting
import Formula.Proofs.Parse.Allocation
import Formula.Proofs.Parse.Balance
import Formula.Proofs.Parse.Calls
import Formula.Proofs.Parse.Completeness
import Formula.Proofs.Parse.Contract
import Formula.Proofs.Parse.Depth
import Formula.Proofs.Parse.ErrorPosition
import Formula.Proofs.Parse.Evaluation
import Formula.Proofs.Parse.Fresh
import Formula.Proofs.Parse.Furthest
import Formula.Proofs.Parse.Intact
import Formula.Proofs.Parse.Layout
import Formula.Proofs.Parse.Limit
import Formula.Proofs.Parse.Locality
import Formula.Proofs.Parse.Lookups
import Formula.Proofs.Parse.Nesting
import Formula.Proofs.Parse.Operands
import Formula.Proofs.Parse.Placement
import Formula.Proofs.Parse.Plain
import Formula.Proofs.Parse.Range
import Formula.Proofs.Parse.Reader
import Formula.Proofs.Parse.Recognition
import Formula.Proofs.Parse.Room
import Formula.Proofs.Parse.Simulation
import Formula.Proofs.Parse.Soundness
import Formula.Proofs.Parse.Transparency
import Formula.Proofs.Parse.Work
import Formula.Proofs.Text.Lines
import Formula.Proofs.Token.Forms
import Formula.Proofs.Token.Lossless
import Formula.Proofs.Token.Munch
import Formula.Proofs.Token.Parens
import Formula.Proofs.Token.Refusal
import Formula.Proofs.Token.Scanning
import Formula.Proofs.Token.Spacing
import Formula.Screen.Basic
import Formula.Text.Blank
import Formula.Text.Invisible
import Formula.Text.Line
import Formula.Text.Location
import Formula.Text.Offset
import Formula.Text.Quoted
import Formula.Text.Ranges
import Formula.Token.Basic
import Formula.Token.Name
import Formula.Token.Scan
