import Leveret.Double.Basic
import Leveret.Double.Nearest
import Leveret.Text.Number
import Leveret.Double.Shortest
import Leveret.Value.Basic
import Leveret.Code.Basic
import Leveret.Code.Builder
import Leveret.Scope
import Leveret.Text.Ranges
import Leveret.Text.Extending
import Leveret.Text.Ignorable
import Leveret.Text.Printable
import Leveret.Text.Quoted
import Leveret.Diagnostic.Cause
import Leveret.Source.Position
import Leveret.Diagnostic.Basic
import Leveret.Token.Basic
import Leveret.Tree.Operator
import Leveret.Tree.Basic
import Leveret.Typing.Operators
import Leveret.Typing.Checker
import Leveret.Code.Lowering
import Leveret.Code.Machine
import Leveret.Double.Exact
import Leveret.Code.Text
import Leveret.Value.Operation
import Leveret.Eval.Basic
import Leveret.Text.Bytes
import Leveret.Text.Blank
import Leveret.Token.Pattern
import Leveret.Token.Lexer
import Leveret.Double.Reader
import Leveret.Tree.Cursor
import Leveret.Tree.Grammar
import Leveret.Tree.Parser
import Leveret.Pipeline
import Leveret.Command.Options
import Leveret.Source.Line
import Leveret.Diagnostic.Report
import Leveret.Command.Response
import Leveret.Main
import Leveret.Tree.Postorder
import Leveret.Tree.Printer
import Leveret.Tree.Sameness
import Leveret.Proofs.Steps
import Leveret.Proofs.Scopes
import Leveret.Proofs.Guards
import Leveret.Proofs.Parsing.Reading
import Leveret.Proofs.Parsing.Runs
import Leveret.Proofs.Parsing.Numbering
import Leveret.Proofs.Parsing.Outcomes
import Leveret.Proofs.Parsing.Locality
import Leveret.Proofs.Parsing.Courses
import Leveret.Proofs.Parsing.Progress
import Leveret.Proofs.Typing.Rules
import Leveret.Proofs.Typing.Keeping
import Leveret.Proofs.Typing.Soundness
import Leveret.Proofs.Typing.Judgement
import Leveret.Proofs.Typing.Exactness
import Leveret.Proofs.Typing.Recovery
import Leveret.Proofs.Typing.Findings
import Leveret.Proofs.Typing.Account
import Leveret.Proofs.Typing.Justification
import Leveret.Proofs.Running.Safety
import Leveret.Proofs.Running.Reached
import Leveret.Proofs.Code.Building
import Leveret.Proofs.Code.Stepping
import Leveret.Proofs.Code.Growth
import Leveret.Proofs.Code.Correspondence
import Leveret.Proofs.Code.Simulation
import Leveret.Proofs.Code.Control
import Leveret.Proofs.Code.Trees
import Leveret.Proofs.Code.Agreement
import Leveret.Proofs.Code.Script
import Leveret.Proofs.Code.Blocks
import Leveret.Proofs.Code.Development
import Leveret.Proofs.Code.Conduct
import Leveret.Proofs.Code.Flow
import Leveret.Proofs.Outline
import Leveret.Proofs.Grammar.Derivation
import Leveret.Proofs.Grammar.Soundness
import Leveret.Proofs.Grammar.Completeness
import Leveret.Proofs.Grammar.Uniqueness
import Leveret.Proofs.Grammar.Exactness
import Leveret.Proofs.Grammar.Viability
import Leveret.Proofs.Digits
import Leveret.Proofs.Code.Integrity
import Leveret.Proofs.Code.Certificate
import Leveret.Proofs.Code.Dominance
import Leveret.Proofs.Code.Typing
import Leveret.Proofs.Doubles.Rounding
import Leveret.Proofs.Doubles.Spelling
import Leveret.Proofs.Doubles.Exact
import Leveret.Proofs.Printing.Lexing
import Leveret.Proofs.Grammar.FirstFault
import Leveret.Proofs.Tokens.Matching
import Leveret.Proofs.Tokens.Lossless
import Leveret.Proofs.Printing.Words
import Leveret.Proofs.Printing.Deriving
import Leveret.Proofs.Printing.RoundTrip
import Leveret.Proofs.Layout.Alike
import Leveret.Proofs.Layout.Checking
import Leveret.Proofs.Layout.Backends
import Leveret.Proofs.Layout.Meaning
import Leveret.Proofs.Printing.Acceptance
import Leveret.Proofs.Lines
import Leveret.Proofs.Faults.Places
import Leveret.Proofs.Faults.Placement
import Leveret.Proofs.Code.Ledger
import Leveret.Proofs.Code.Constants
import Leveret.Proofs.Code.Tally
import Leveret.Proofs.Layout.Postorder
import Leveret.Proofs.Printing.Parentheses
import Leveret.Proofs.Spans.Stretches
import Leveret.Proofs.Spans.Nesting
import Leveret.Proofs.Faults.OpenComments
import Leveret.Proofs.Tokens.Spacing
import Leveret.Proofs.Code.Division
import Leveret.Proofs.Faults.Caret
import Leveret.Proofs.Frames.Restoring
import Leveret.Proofs.Frames.Running
import Leveret.Proofs.Frames.Lowering
import Leveret.Proofs.Frames.Discipline
