import Lisan.Capability
import Lisan.Console
import Lisan.Failure
import Lisan.Integer
import Lisan.Interpretation
import Lisan.Operator
import Lisan.Parsing
import Lisan.Parsing.Expression
import Lisan.Parsing.Statement
import Lisan.Position
import Lisan.Program
import Lisan.Run
import Lisan.Script
import Lisan.Session
import Lisan.Store
import Lisan.Token
import Lisan.Token.Cursor
import Lisan.Tree
import Lisan.Tree.Equality
import Lisan.Tree.Printer
import Lisan.Value
import Lisan.Main
import Lisan.Proofs.Decimal
import Lisan.Proofs.Grammar.Blame
import Lisan.Proofs.Grammar.Completeness
import Lisan.Proofs.Grammar.Deciding
import Lisan.Proofs.Grammar.Decision
import Lisan.Proofs.Grammar.Expression
import Lisan.Proofs.Grammar.Loose
import Lisan.Proofs.Grammar.Phrase
import Lisan.Proofs.Grammar.Places
import Lisan.Proofs.Grammar.Printed
import Lisan.Proofs.Grammar.Productions
import Lisan.Proofs.Grammar.Programs
import Lisan.Proofs.Grammar.Range
import Lisan.Proofs.Grammar.Reader
import Lisan.Proofs.Grammar.Reading
import Lisan.Proofs.Grammar.Shapes
import Lisan.Proofs.Grammar.Soundness
import Lisan.Proofs.Grammar.Statement
import Lisan.Proofs.Grammar.View
import Lisan.Proofs.Operator.Arithmetic
import Lisan.Proofs.Operator.Comparison
import Lisan.Proofs.Operator.Negation
import Lisan.Proofs.Operator.Rules
import Lisan.Proofs.Parsing.Agreement
import Lisan.Proofs.Parsing.Ends
import Lisan.Proofs.Parsing.Progress
import Lisan.Proofs.Parsing.Reading
import Lisan.Proofs.Run.Agreement
import Lisan.Proofs.Run.Conclusion
import Lisan.Proofs.Run.Ensures
import Lisan.Proofs.Run.Forced
import Lisan.Proofs.Run.Frame
import Lisan.Proofs.Run.Inlining
import Lisan.Proofs.Run.Invariant
import Lisan.Proofs.Run.Joined
import Lisan.Proofs.Run.Lockstep
import Lisan.Proofs.Run.Meaning
import Lisan.Proofs.Run.Range
import Lisan.Proofs.Run.Readback
import Lisan.Proofs.Run.Rules
import Lisan.Proofs.Run.Safety
import Lisan.Proofs.Run.Saying
import Lisan.Proofs.Run.Straight
import Lisan.Proofs.Run.Unbound
import Lisan.Proofs.Run.View
import Lisan.Proofs.Session.Names
import Lisan.Proofs.Session.Safety
import Lisan.Proofs.Token.Cursor
import Lisan.Proofs.Token.Lexeme
import Lisan.Proofs.Token.Numerals
import Lisan.Proofs.Token.Places
import Lisan.Proofs.Token.Progress
import Lisan.Proofs.Token.Scanning
import Lisan.Proofs.Token.Seam
import Lisan.Proofs.Token.Spelling
import Lisan.Proofs.Token.Symbols
import Lisan.Proofs.Token.Writing
import Lisan.Proofs.Tree.Effect
import Lisan.Proofs.Tree.Equality
import Lisan.Proofs.Tree.Hand
import Lisan.Proofs.Tree.Printed
import Lisan.Proofs.Tree.Range
import Lisan.Proofs.Tree.Shape
import Lisan.Proofs.Tree.Straight
import Lisan.Proofs.Tree.View
import Lisan.Proofs.Value
