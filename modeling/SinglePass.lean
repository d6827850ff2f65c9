import SinglePass.ArrayLiteral
import SinglePass.ArrayLiteral.Nested
import SinglePass.Binary64
import SinglePass.Binary64.Rounding
import SinglePass.Builtin
import SinglePass.Builtin.Standard
import SinglePass.CommandLine
import SinglePass.Config
import SinglePass.Decimal
import SinglePass.Decimal.Layout
import SinglePass.Decimal.Shortest
import SinglePass.Error
import SinglePass.Expr
import SinglePass.Expr.Eval
import SinglePass.Frame
import SinglePass.Interpreter
import SinglePass.Json
import SinglePass.Json.Number
import SinglePass.Json.Reader
import SinglePass.Json.Writer
import SinglePass.Lexer
import SinglePass.Lexer.OnePass
import SinglePass.Lexer.Pattern
import SinglePass.Lexer.Rule
import SinglePass.Machine
import SinglePass.Machine.Strict
import SinglePass.Main
import SinglePass.Registry
import SinglePass.Scope
import SinglePass.Text.Classes
import SinglePass.Text.Quoted
import SinglePass.Token
import SinglePass.Token.Json
import SinglePass.Token.Literal
import SinglePass.Traced
import SinglePass.Value
import SinglePass.Value.Json
import SinglePass.Proofs.Run
import SinglePass.Proofs.Scoping
import SinglePass.Proofs.Spelling
import SinglePass.Proofs.TreeEvaluation
import SinglePass.Proofs.Acceptance
import SinglePass.Proofs.Claiming
import SinglePass.Proofs.OnePass
import SinglePass.Proofs.DepthLimit
import SinglePass.Proofs.Extending
import SinglePass.Proofs.Registering
import SinglePass.Proofs.Tiling
import SinglePass.Proofs.Writing
import SinglePass.Proofs.Rounding
import SinglePass.Proofs.Numerals
import SinglePass.Proofs.ReadingBack
import SinglePass.Proofs.RegistrationOrder
import SinglePass.Proofs.Renaming
import SinglePass.Proofs.Printable
import SinglePass.Proofs.Inlining
import SinglePass.Proofs.Continuing
import SinglePass.Proofs.Parentheses
import SinglePass.Proofs.Tracing
import SinglePass.Proofs.Priority
import SinglePass.Proofs.Offsets
import SinglePass.Proofs.Arithmetic
import SinglePass.Proofs.ArrayReading
import SinglePass.Proofs.Duplicates
import SinglePass.Proofs.IntegerText
import SinglePass.Proofs.JsonRoundTrip
import SinglePass.Proofs.Equality
import SinglePass.Proofs.Arguments
import SinglePass.Proofs.Fallbacks
