import LinearProgram.Binary64.Basic
import LinearProgram.Command.Arguments
import LinearProgram.Command.Basic
import LinearProgram.Command.Plan
import LinearProgram.Command.Run
import LinearProgram.Comparison
import LinearProgram.Compilation
import LinearProgram.Constraint
import LinearProgram.Decimal.Basic
import LinearProgram.Decimal.Shortest
import LinearProgram.Decimal.Style
import LinearProgram.Digest.Blake3
import LinearProgram.Document.Basic
import LinearProgram.Document.Cursor
import LinearProgram.Document.DeclarationOrder
import LinearProgram.Document.Outline
import LinearProgram.Document.ParseError
import LinearProgram.Document.Parser
import LinearProgram.Files.Access
import LinearProgram.Files.Path
import LinearProgram.Files.Workspace
import LinearProgram.Header
import LinearProgram.Layout
import LinearProgram.LinearExpr
import LinearProgram.Main
import LinearProgram.Model.Basic
import LinearProgram.Model.Printer
import LinearProgram.Model.RoundTrip
import LinearProgram.Model.Tables
import LinearProgram.Model.Validity
import LinearProgram.ModelError
import LinearProgram.Name
import LinearProgram.Outline
import LinearProgram.Proofs.Binary64.Arithmetic
import LinearProgram.Proofs.Binary64.Sign
import LinearProgram.Proofs.Command.Agreement
import LinearProgram.Proofs.Comparison.Differences
import LinearProgram.Proofs.Decimal.Numeral
import LinearProgram.Proofs.Decimal.ReadBack
import LinearProgram.Proofs.Decimal.Written
import LinearProgram.Proofs.Document.Alike
import LinearProgram.Proofs.Document.Assembly
import LinearProgram.Proofs.Document.Code
import LinearProgram.Proofs.Document.Collapse
import LinearProgram.Proofs.Document.Compilation
import LinearProgram.Proofs.Document.Countdown
import LinearProgram.Proofs.Document.DeclarationOrder
import LinearProgram.Proofs.Document.Derivation
import LinearProgram.Proofs.Document.EmbeddedSignature
import LinearProgram.Proofs.Document.Expressions
import LinearProgram.Proofs.Document.Grammar
import LinearProgram.Proofs.Document.Guarded
import LinearProgram.Proofs.Document.GuardedSections
import LinearProgram.Proofs.Document.LeastOrder
import LinearProgram.Proofs.Document.LineTokens
import LinearProgram.Proofs.Document.Meaning
import LinearProgram.Proofs.Document.Naturality
import LinearProgram.Proofs.Document.Numbers
import LinearProgram.Proofs.Document.Pieces
import LinearProgram.Proofs.Document.Places
import LinearProgram.Proofs.Document.Reading
import LinearProgram.Proofs.Document.Recognition
import LinearProgram.Proofs.Document.RowNames
import LinearProgram.Proofs.Document.Runs
import LinearProgram.Proofs.Document.Sections
import LinearProgram.Proofs.Document.Spacing
import LinearProgram.Proofs.Document.Summation
import LinearProgram.Proofs.Document.Text
import LinearProgram.Proofs.Document.Values
import LinearProgram.Proofs.Files.Deposit
import LinearProgram.Proofs.Layout.Breaks
import LinearProgram.Proofs.Layout.FirstFit
import LinearProgram.Proofs.Layout.Words
import LinearProgram.Proofs.Model.Calls
import LinearProgram.Proofs.Model.Collecting
import LinearProgram.Proofs.Model.Comparison
import LinearProgram.Proofs.Model.Correspondence
import LinearProgram.Proofs.Model.Denotation
import LinearProgram.Proofs.Model.Expressions
import LinearProgram.Proofs.Model.Extent
import LinearProgram.Proofs.Model.Folding
import LinearProgram.Proofs.Model.Labels
import LinearProgram.Proofs.Model.Mentions
import LinearProgram.Proofs.Model.Numbering
import LinearProgram.Proofs.Model.Operations
import LinearProgram.Proofs.Model.Parsing
import LinearProgram.Proofs.Model.Reachable
import LinearProgram.Proofs.Model.Rendering
import LinearProgram.Proofs.Model.Reread
import LinearProgram.Proofs.Model.RoundTrip
import LinearProgram.Proofs.Model.Store
import LinearProgram.Proofs.Model.Tables
import LinearProgram.Proofs.Model.Validity
import LinearProgram.Proofs.Model.Verification
import LinearProgram.Proofs.Model.Wrapping
import LinearProgram.Proofs.Model.Writing
import LinearProgram.Proofs.Name.Form
import LinearProgram.Proofs.Name.Spelling
import LinearProgram.Proofs.Name.Tokens
import LinearProgram.Proofs.Signature.Comment
import LinearProgram.Proofs.Signature.Decoding
import LinearProgram.Proofs.Signature.Digits
import LinearProgram.Proofs.Signature.Header
import LinearProgram.Proofs.Signature.Lines
import LinearProgram.Proofs.Token.Along
import LinearProgram.Proofs.Token.Blanks
import LinearProgram.Proofs.Token.Lexeme
import LinearProgram.Proofs.Token.Lines
import LinearProgram.Proofs.Token.LongestNumerals
import LinearProgram.Proofs.Token.Numbers
import LinearProgram.Proofs.Token.Spelling
import LinearProgram.Proofs.Token.Taking
import LinearProgram.Proofs.Token.Tiling
import LinearProgram.Proofs.Walk.Agreement
import LinearProgram.Proofs.Walk.Basic
import LinearProgram.Proofs.Walk.Ending
import LinearProgram.Proofs.Walk.Reading
import LinearProgram.Settings
import LinearProgram.Signature
import LinearProgram.Text.Alphanumeric
import LinearProgram.Text.Blank
import LinearProgram.Text.CodeRanges
import LinearProgram.Text.Pieces
import LinearProgram.Text.Printable
import LinearProgram.Text.Quoted
import LinearProgram.Token.Basic
import LinearProgram.Token.Extent
import LinearProgram.Token.Scan
import LinearProgram.Variable
