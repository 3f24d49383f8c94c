import Outline.Definition.Compile
import Outline.Matcher
import Outline.Proofs.Engine.Steady
import Outline.Proofs.Lexeme.Abreast
import Outline.Proofs.Matching.Attempt
import Outline.Proofs.Matching.OrderedChoice
import Outline.Proofs.Matching.Guard
import Outline.Proofs.Matching.Advance
import Outline.Proofs.Matching.Reentry
import Outline.Proofs.Matching.Coverage
import Outline.Proofs.Session.Spared
import Outline.Proofs.Lexer.Extent
import Outline.Proofs.Lexer.Group
import Outline.Proofs.Lexer.Piece
import Outline.Proofs.Lexer.Separated
import Outline.Proofs.Lexer.Depth
import Outline.Proofs.Lexer.Halts
import Outline.Proofs.Lexer.Opaque
import Outline.Proofs.Lexer.Row
import Outline.Proofs.Matching.Abreast
import Outline.Proofs.Lexer.Comments
import Outline.Proofs.Session.Partition
import Outline.Proofs.Engine.Curbed
import Outline.Proofs.Session.Limits
import Outline.Proofs.Session.Comments
import Outline.Proofs.Session.History
import Outline.Proofs.Definition.Assembly
import Outline.Proofs.Definition.Forms
import Outline.Proofs.Definition.Pieces
import Outline.Proofs.Definition.Reading
import Outline.Proofs.Definition.Layout
import Outline.Proofs.Definition.Writing
import Outline.Proofs.Definition.Consistency
import Outline.Proofs.Definition.Compiling
import Outline.Proofs.Lexer.Lossless
import Outline.Proofs.Matching.Calls
import Outline.Proofs.Matching.Nesting
import Outline.Proofs.Engine.Turns
import Outline.Proofs.Session.Bounded
import Outline.Proofs.Session.Refusal
import Outline.Proofs.Lexeme.Shift
import Outline.Proofs.Matching.Shift
import Outline.Proofs.Session.Region
import Outline.Proofs.Engine.Course
import Outline.Proofs.Engine.Invariant
import Outline.Proofs.Session.Moment
import Outline.Proofs.Session.Soundness
import Outline.Proofs.Session.InProgress
import Outline.Proofs.Session.Forgetting
import Outline.Proofs.Engine.Resumed
import Outline.Proofs.Matching.Survival
import Outline.Proofs.Text.Caret
import Outline.Proofs.Text.Places
import Outline.Proofs.Grammar.Fixpoint
import Outline.Proofs.Grammar.Faults
import Outline.Proofs.Matching.Idle
import Outline.Proofs.Lexer.Balance
