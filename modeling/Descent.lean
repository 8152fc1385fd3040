import Descent.Conversion
import Descent.Cursor
import Descent.Element
import Descent.Grammar.Basic
import Descent.Grammar.Shape
import Descent.Location
import Descent.ParseError
import Descent.Parser.Basic
import Descent.Parser.Choice
import Descent.Parser.Convert
import Descent.Parser.Match
import Descent.Parser.Repeat
import Descent.Parser.Sequence
import Descent.Proofs.Absence
import Descent.Proofs.Alike
import Descent.Proofs.Beside
import Descent.Proofs.Blame
import Descent.Proofs.Bytes
import Descent.Proofs.Chains
import Descent.Proofs.Coding
import Descent.Proofs.Consumption
import Descent.Proofs.Converse
import Descent.Proofs.Cuts
import Descent.Proofs.Excerpts
import Descent.Proofs.Fusion
import Descent.Proofs.Joining
import Descent.Proofs.Labels
import Descent.Proofs.LeftRecursion
import Descent.Proofs.Levels
import Descent.Proofs.Lines
import Descent.Proofs.Locality
import Descent.Proofs.Lossless
import Descent.Proofs.Markers
import Descent.Proofs.Munch
import Descent.Proofs.Nesting
import Descent.Proofs.Numerals
import Descent.Proofs.Onward
import Descent.Proofs.OrderedChoice
import Descent.Proofs.Outcome
import Descent.Proofs.Parts
import Descent.Proofs.Passage
import Descent.Proofs.Progress
import Descent.Proofs.Quoting
import Descent.Proofs.Renaming
import Descent.Proofs.Rendering
import Descent.Proofs.Repetition
import Descent.Proofs.Replacement
import Descent.Proofs.Reports
import Descent.Proofs.Rows
import Descent.Proofs.Simulation
import Descent.Proofs.Spans
import Descent.Proofs.Spelling
import Descent.Proofs.Termination
import Descent.Proofs.Truncation
import Descent.Proofs.Unfolding
import Descent.Proofs.Utf8
import Descent.Proofs.Verbosity
import Descent.Proofs.WholeInput
import Descent.Proofs.Words
import Descent.Run
import Descent.Text.CodeRange
import Descent.Text.Combining
import Descent.Text.Decimal
import Descent.Text.Lossy
import Descent.Text.Numeral
import Descent.Text.Quoted
import Descent.Text.Unprintable
import Descent.TextClass
import Descent.Tree
