import Capuchin.Command.Run
import Capuchin.Evaluate.Basic
import Capuchin.Main
import Capuchin.Parse.Feed
import Capuchin.Session.Report
import Capuchin.Syntax.Render
import Capuchin.Token.Scan
import Capuchin.Value.Inspect
import Capuchin.Proofs.Grammar.Exact
import Capuchin.Proofs.Decimal
import Capuchin.Proofs.RoundTrip.Inverse
import Capuchin.Proofs.Evaluate.Frame
import Capuchin.Proofs.Evaluate.FirstError
import Capuchin.Proofs.Table
import Capuchin.Proofs.Value.Rename
import Capuchin.Proofs.Evaluate.Law
import Capuchin.Proofs.Evaluate.Mirror
import Capuchin.Proofs.Evaluate.ErrorFree
import Capuchin.Proofs.Evaluate.Renumbering
import Capuchin.Proofs.Grammar.Earliest
import Capuchin.Proofs.Session.Traceless
import Capuchin.Proofs.RoundTrip.Spellable
import Capuchin.Proofs.RoundTrip.Display
import Capuchin.Proofs.Evaluate.Lexical
import Capuchin.Proofs.Evaluate.Regime
import Capuchin.Proofs.Evaluate.Disciplined
import Capuchin.Proofs.Limit.Complete
import Capuchin.Proofs.Session.Complete
import Capuchin.Proofs.Grammar.Seam
import Capuchin.Proofs.Session.Piecewise
import Capuchin.Proofs.Limit.Overflow
import Capuchin.Proofs.Session.Resume
import Capuchin.Proofs.Token.Segmentation
import Capuchin.Proofs.Session.Logged
import Capuchin.Proofs.Session.Nesting
import Capuchin.Proofs.Evaluate.Unmentioned
import Capuchin.Proofs.Evaluate.HashLiteral
import Capuchin.Proofs.Grammar.Brackets
import Capuchin.Proofs.Evaluate.Arithmetic
import Capuchin.Proofs.Token.Newline
import Capuchin.Proofs.Session.Channels
import Capuchin.Proofs.Program.MapReduce
import Capuchin.Proofs.Token.Reading
import Capuchin.Proofs.Decimal.Numeral
