import MonkeySyntax.Position
import MonkeySyntax.Token.Basic
import MonkeySyntax.Token.Lexer
import MonkeySyntax.Token.Stream
import MonkeySyntax.Text.Decimal
import MonkeySyntax.Text.Glyphless
import MonkeySyntax.Text.Lines
import MonkeySyntax.Text.Quoted
import MonkeySyntax.Tree.Expr
import MonkeySyntax.Tree.Program
import MonkeySyntax.Diagnostic
import MonkeySyntax.Grammar.BindingPower
import MonkeySyntax.Grammar.RuleTable
import MonkeySyntax.Parse.Basic
import MonkeySyntax.Parse.Expression
import MonkeySyntax.Parse.Statement
import MonkeySyntax.Parser
import MonkeySyntax.CommandLine
import MonkeySyntax.Main
import MonkeySyntax.Proofs.Confinement
import MonkeySyntax.Proofs.Grammar
import MonkeySyntax.Proofs.Soundness
import MonkeySyntax.Proofs.Levels
import MonkeySyntax.Proofs.Threshold
import MonkeySyntax.Proofs.ExpressionLanguage
import MonkeySyntax.Proofs.Encoding
import MonkeySyntax.Proofs.Lexing
import MonkeySyntax.Proofs.MaximalMunch
import MonkeySyntax.Proofs.Isolation
import MonkeySyntax.Proofs.Rendering
import MonkeySyntax.Proofs.Rereading
import MonkeySyntax.Proofs.RoundTrip
import MonkeySyntax.Proofs.Expectation
import MonkeySyntax.Proofs.Refusals
import MonkeySyntax.Proofs.Height
import MonkeySyntax.Proofs.Towers
import MonkeySyntax.Proofs.Blame
import MonkeySyntax.Proofs.Unambiguity
import MonkeySyntax.Proofs.Machine
import MonkeySyntax.Proofs.Refinement
import MonkeySyntax.Proofs.Window
import MonkeySyntax.Proofs.Concatenation
import MonkeySyntax.Proofs.Correspondence
import MonkeySyntax.Proofs.Layout
import MonkeySyntax.Proofs.Session
import MonkeySyntax.Proofs.Yield
import MonkeySyntax.Proofs.DepthGuard
import MonkeySyntax.Proofs.Meaning
import MonkeySyntax.Proofs.Scanner
import MonkeySyntax.Proofs.OpenExpressions
import MonkeySyntax.Proofs.Recursion
import MonkeySyntax.Proofs.Saturation
import MonkeySyntax.Proofs.Registration
