import Lox.Bindings
import Lox.CommandLine
import Lox.Decimal.Double
import Lox.Decimal.Notation
import Lox.Decimal.Shortest
import Lox.Diagnostic
import Lox.Eval.Call
import Lox.Eval.Evaluator
import Lox.Eval.Expression
import Lox.Eval.Machine
import Lox.Eval.Operators
import Lox.Eval.Statement
import Lox.Fault
import Lox.Json
import Lox.Main
import Lox.Number
import Lox.Parser.Basic
import Lox.Parser.Expression
import Lox.Parser.Program
import Lox.Parser.Statement
import Lox.Scope.Basic
import Lox.Scope.Places
import Lox.Scope.Violations
import Lox.Session
import Lox.Store.Basic
import Lox.Store.Variables
import Lox.Syntax.Basic
import Lox.Syntax.Document
import Lox.Syntax.Marks
import Lox.Syntax.Text
import Lox.Text.CodeRanges
import Lox.Text.Extender
import Lox.Text.Inkless
import Lox.Text.Quoted
import Lox.Text.Utf8
import Lox.Token.Basic
import Lox.Token.Lexer
import Lox.Value.Basic
import Lox.Proofs.Parser.Gives
import Lox.Proofs.Syntax.Shape
import Lox.Proofs.Token.Words
import Lox.Proofs.Syntax.Origins
import Lox.Proofs.Parser.Origins
import Lox.Proofs.Scope.Checks
import Lox.Proofs.Scope.Resolved
import Lox.Proofs.Scope.Regular
import Lox.Proofs.Run.Follows
import Lox.Proofs.Run.Mirror
import Lox.Proofs.Scope.Standing
import Lox.Proofs.Run.Invariant
import Lox.Proofs.Run.Keeps
import Lox.Proofs.Run.Fits
import Lox.Proofs.Run.Rules
import Lox.Proofs.Run.ExpressionRules
import Lox.Proofs.Run.StatementRules
import Lox.Proofs.Run.Accesses
import Lox.Proofs.Session.Requests
import Lox.Proofs.Session.Scopes
import Lox.Proofs.Parser.Grammar
import Lox.Proofs.Parser.Reads
import Lox.Proofs.Parser.Soundness
import Lox.Proofs.Parser.Completeness
import Lox.Proofs.Parser.Acceptance
import Lox.Proofs.Syntax.Names
import Lox.Proofs.Alpha.Equivalence
import Lox.Proofs.Scope.Unmarked
import Lox.Proofs.Run.ActiveScope
import Lox.Proofs.Run.Activation
import Lox.Proofs.Session.Returns
import Lox.Proofs.Parser.Lines
import Lox.Proofs.Token.Scans
import Lox.Proofs.Session.Programs
import Lox.Proofs.Receiver.Nested
import Lox.Proofs.Session.Batches
import Lox.Proofs.Receiver.Steps
import Lox.Proofs.Receiver.Rules
import Lox.Proofs.Session.Receivers
import Lox.Proofs.Alpha.Resolution
import Lox.Proofs.Alpha.Renamed
import Lox.Proofs.Alpha.Stores
import Lox.Proofs.Alpha.Steps
import Lox.Proofs.Alpha.Rules
import Lox.Proofs.Session.LocalNames
import Lox.Proofs.Token.Pieces
import Lox.Proofs.Parser.SingleExpression
import Lox.Proofs.Session.Rejections
import Lox.Proofs.CommandLine.Failures
import Lox.Proofs.Session.Printing
import Lox.Proofs.Parser.Numbers
import Lox.Proofs.Outline.Basic
import Lox.Proofs.Outline.Positions
import Lox.Proofs.Outline.Walk
import Lox.Proofs.Outline.Contexts
import Lox.Proofs.Outline.Regular
import Lox.Proofs.Outline.Programs
import Lox.Proofs.Outline.Marks
import Lox.Proofs.Outline.Distances
import Lox.Proofs.Outline.Misplaced
import Lox.Proofs.Session.Numbering
import Lox.Proofs.Session.Siblings
import Lox.Proofs.Sibling.Rules
import Lox.Proofs.Run.FirstFault
import Lox.Proofs.Session.FailedDeclarations
import Lox.Proofs.Parser.Pairs
import Lox.Proofs.Parser.PairedExpressions
import Lox.Proofs.Parser.PairedStatements
import Lox.Proofs.Parser.Progress
import Lox.Proofs.Parser.Segments
import Lox.Proofs.Run.ForStatements
import Lox.Proofs.Session.Initializers
import Lox.Proofs.Session.Properties
import Lox.Proofs.Session.Arguments
import Lox.Proofs.Token.Lines
import Lox.Proofs.Store.Chains
import Lox.Proofs.Store.Forest
import Lox.Proofs.Session.Declarations
import Lox.Proofs.Store.Reachable
import Lox.Proofs.Run.Guard
import Lox.Proofs.Run.Guarded
import Lox.Proofs.Run.Reach
import Lox.Proofs.History.Uniform
import Lox.Proofs.History.Openings
import Lox.Proofs.Session.Holdings
import Lox.Proofs.Session.PrivateState
import Lox.Proofs.Token.Joined
import Lox.Proofs.Token.Spacing
import Lox.Proofs.Decimal.Doubles
import Lox.Proofs.Decimal.Nearest
import Lox.Proofs.Decimal.Notation
import Lox.Proofs.Decimal.Integers
import Lox.Proofs.Session.Numbers
import Lox.Proofs.Scope.Origins
import Lox.Proofs.History.Blame
import Lox.Proofs.Session.Lines
import Lox.Proofs.Parser.MissingEnd
import Lox.Proofs.Parser.Details
import Lox.Proofs.Parser.TreeTexts
