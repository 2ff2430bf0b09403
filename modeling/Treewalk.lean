import Treewalk.Main
import Treewalk.Session
import Treewalk.Tree.Same
import Treewalk.Number.Text
import Treewalk.Symbol
import Treewalk.Proofs.Evaluation.Appending
import Treewalk.Proofs.Evaluation.Closure
import Treewalk.Proofs.Evaluation.Congruence
import Treewalk.Proofs.Evaluation.Limiting
import Treewalk.Proofs.Evaluation.Matching
import Treewalk.Proofs.Evaluation.Prefixing
import Treewalk.Proofs.Evaluation.Renaming
import Treewalk.Proofs.Evaluation.Rounds
import Treewalk.Proofs.Evaluation.Safety
import Treewalk.Proofs.Evaluation.Simulation
import Treewalk.Proofs.Evaluation.Steps
import Treewalk.Proofs.Evaluation.Tracking
import Treewalk.Proofs.Grammar.Clause
import Treewalk.Proofs.Grammar.Grouping
import Treewalk.Proofs.Grammar.Language
import Treewalk.Proofs.Grammar.Legible
import Treewalk.Proofs.Grammar.Nearest
import Treewalk.Proofs.Grammar.Operators
import Treewalk.Proofs.Grammar.Phrase
import Treewalk.Proofs.Grammar.Placement
import Treewalk.Proofs.Lexing.Joining
import Treewalk.Proofs.Lexing.Partition
import Treewalk.Proofs.Lexing.Positions
import Treewalk.Proofs.Lexing.Seam
import Treewalk.Proofs.Lexing.Spacing
import Treewalk.Proofs.Lexing.Spelling
import Treewalk.Proofs.Lexing.Symbols
import Treewalk.Proofs.Lexing.Tokens
import Treewalk.Proofs.Lexing.Twins
import Treewalk.Proofs.Naming
import Treewalk.Proofs.Number.Decimal
import Treewalk.Proofs.Number.Nearest
import Treewalk.Proofs.Number.Reading
import Treewalk.Proofs.Number.Rounding
import Treewalk.Proofs.Number.Text
import Treewalk.Proofs.Parsing.Correspondence
import Treewalk.Proofs.Parsing.ExpressionComplete
import Treewalk.Proofs.Parsing.ExpressionSound
import Treewalk.Proofs.Parsing.Grouping
import Treewalk.Proofs.Parsing.Joining
import Treewalk.Proofs.Parsing.Mistakes
import Treewalk.Proofs.Parsing.Program
import Treewalk.Proofs.Parsing.Reading
import Treewalk.Proofs.Parsing.Recovery
import Treewalk.Proofs.Parsing.StatementComplete
import Treewalk.Proofs.Parsing.StatementSound
import Treewalk.Proofs.Parsing.Steps
import Treewalk.Proofs.Parsing.Termination
import Treewalk.Proofs.Parsing.ValidPrefix
import Treewalk.Proofs.Parsing.Viable
import Treewalk.Proofs.Parsing.ViableExpression
import Treewalk.Proofs.Parsing.ViableStatement
import Treewalk.Proofs.Scoping.Arena
import Treewalk.Proofs.Scoping.Balance
import Treewalk.Proofs.Scoping.Counting
import Treewalk.Proofs.Scoping.Detour
import Treewalk.Proofs.Scoping.Laws
import Treewalk.Proofs.Scoping.Mirror
import Treewalk.Proofs.Scoping.Moment
import Treewalk.Proofs.Scoping.Outline
import Treewalk.Proofs.Scoping.Path
import Treewalk.Proofs.Scoping.Reference
import Treewalk.Proofs.Scoping.Refinement
import Treewalk.Proofs.Scoping.Renaming
import Treewalk.Proofs.Scoping.Session
import Treewalk.Proofs.Scoping.Shadowing
import Treewalk.Proofs.Scoping.Static
import Treewalk.Proofs.Scoping.Tables
import Treewalk.Proofs.Session.Alike
import Treewalk.Proofs.Session.Conversation
import Treewalk.Proofs.Session.Deletion
import Treewalk.Proofs.Session.Joining
import Treewalk.Proofs.Session.Layout
import Treewalk.Proofs.Session.Lines
import Treewalk.Proofs.Session.Literals
import Treewalk.Proofs.Session.Pairing
import Treewalk.Proofs.Session.Reachable
import Treewalk.Proofs.Session.Rejection
import Treewalk.Proofs.Session.Safety
import Treewalk.Proofs.Session.Separation
import Treewalk.Proofs.Session.Texts
import Treewalk.Proofs.Tree.Grouping
import Treewalk.Proofs.Tree.Legible
import Treewalk.Proofs.Tree.Nest
import Treewalk.Proofs.Tree.Readable
import Treewalk.Proofs.Tree.Related
import Treewalk.Proofs.Tree.Renaming
import Treewalk.Proofs.Tree.Text
