import Lox.Expr.ReversePolish
import Lox.Main
import Lox.Stmt.Polish
import Lox.Proofs.Run.Moment
import Lox.Proofs.Run.Agreement
import Lox.Proofs.Run.Evaluation
import Lox.Proofs.Run.Course
import Lox.Proofs.Scope.Grounded
import Lox.Proofs.Scope.Safety
import Lox.Proofs.Scope.Keeping
import Lox.Proofs.Scope.Watch
import Lox.Proofs.Scope.Unobservable
import Lox.Proofs.Grammar.Canonical
import Lox.Proofs.Grammar.Expression
import Lox.Proofs.Grammar.Surface
import Lox.Proofs.Grammar.Program
import Lox.Proofs.Grammar.Segments
import Lox.Proofs.Grammar.Runnable
import Lox.Proofs.Run.Unstuck
import Lox.Proofs.Grammar.Cursor
import Lox.Proofs.Scope.Leaving
import Lox.Proofs.Scope.Moves
import Lox.Proofs.Grammar.Following
import Lox.Proofs.Grammar.FollowingRules
import Lox.Proofs.Grammar.Totality
import Lox.Proofs.Run.Composed
import Lox.Proofs.Run.Phases
import Lox.Proofs.Scope.Confinement
import Lox.Proofs.Scope.Lexical
import Lox.Proofs.Grammar.Balance
import Lox.Proofs.Grammar.Turns
import Lox.Proofs.Grammar.Recovery
import Lox.Proofs.Grammar.Concatenation
import Lox.Proofs.Grammar.Placement
import Lox.Proofs.Run.Calls
import Lox.Proofs.Run.CallDepth
import Lox.Proofs.Run.CallLimit
import Lox.Proofs.Grammar.Derivation
import Lox.Proofs.Grammar.Performing
import Lox.Proofs.Grammar.PerformingExpression
import Lox.Proofs.Grammar.PerformingStatement
import Lox.Proofs.Grammar.PerformingProgram
import Lox.Proofs.Grammar.SoftErrors
import Lox.Proofs.Grammar.Derivable
import Lox.Proofs.Grammar.NestingLimit
import Lox.Proofs.Grammar.Height
import Lox.Proofs.Grammar.Bookkeeping
import Lox.Proofs.Run.OutputLimit
import Lox.Proofs.Token.Bytes
import Lox.Proofs.Token.Pieces
import Lox.Proofs.Token.Automaton
import Lox.Proofs.Token.ByteScanner
import Lox.Proofs.Token.ByteTokens
import Lox.Proofs.Token.ByteAgreement
import Lox.Proofs.Token.Lossless
import Lox.Proofs.Token.Cutting
import Lox.Proofs.Token.Lines
import Lox.Proofs.Token.Layout
import Lox.Proofs.Scope.Pairing
import Lox.Proofs.Scope.Tandem
import Lox.Proofs.Scope.Matching
import Lox.Proofs.Scope.ForLoop
import Lox.Proofs.Scope.Uses
import Lox.Proofs.Scope.Ownership
import Lox.Proofs.Number.Rounding
import Lox.Proofs.Number.ShortestDecimal
import Lox.Proofs.Number.Numerals
import Lox.Proofs.Number.NumberText
import Lox.Proofs.Expr.Words
import Lox.Proofs.Expr.Parenthesized
import Lox.Proofs.Expr.StackMachine
import Lox.Proofs.Scope.Mapped
import Lox.Proofs.Run.Ungrouped
import Lox.Proofs.Run.Groupings
import Lox.Proofs.Run.Entered
import Lox.Proofs.Run.Printing
import Lox.Proofs.CommandLine.Lines
import Lox.Proofs.CommandLine.Conversation
