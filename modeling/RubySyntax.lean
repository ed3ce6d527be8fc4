import RubySyntax.Editor.Server
import RubySyntax.Session
import RubySyntax.Proofs.Lexer.Basic
import RubySyntax.Proofs.Store
import RubySyntax.Proofs.Lexer.Length
import RubySyntax.Proofs.Lexer.Step
import RubySyntax.Proofs.Grammar.Argument
import RubySyntax.Proofs.Grammar.Control
import RubySyntax.Proofs.Grammar.Definition
import RubySyntax.Proofs.Grammar.Heredoc
import RubySyntax.Proofs.Grammar.Primary
import RubySyntax.Proofs.Grammar.Chain
import RubySyntax.Proofs.Program
import RubySyntax.Proofs.Yields
import RubySyntax.Proofs.Precedence.Tree
import RubySyntax.Proofs.Precedence.Digits
import RubySyntax.Proofs.Precedence.Tokens
import RubySyntax.Proofs.Precedence.Step
import RubySyntax.Proofs.Precedence.Rule
import RubySyntax.Proofs.Precedence.Program
import RubySyntax.Proofs.Dump
import RubySyntax.Proofs.Nesting.Program
import RubySyntax.Proofs.Schema.Program
import RubySyntax.Proofs.Limits
import RubySyntax.Proofs.ReportMode
import RubySyntax.Proofs.StartLine
import RubySyntax.Proofs.Requests
import RubySyntax.Proofs.Recovery.Program
import RubySyntax.Proofs.Heredoc.Assignment
import RubySyntax.Proofs.Heredoc.Call
import RubySyntax.Proofs.Documents
import RubySyntax.Proofs.Integer.Program
import RubySyntax.Proofs.Minus
import RubySyntax.Proofs.Parameters.Program
import RubySyntax.Proofs.Targets.Program
import RubySyntax.Proofs.Literal.Kept
import RubySyntax.Proofs.Literal.Quoted
import RubySyntax.Proofs.Literal.Bracket
import RubySyntax.Proofs.Literal.Nested
import RubySyntax.Proofs.Literal.Unicode
import RubySyntax.Proofs.Literal.Adjacent
import RubySyntax.Proofs.Literal.Words
import RubySyntax.Proofs.Condition
import RubySyntax.Proofs.Allocation
import RubySyntax.Proofs.Source.Run
import RubySyntax.Proofs.Editor.Notice
import RubySyntax.Proofs.Scoping
import RubySyntax.Proofs.Numbering
import RubySyntax.Proofs.BitStack
import RubySyntax.Proofs.Hull
