import Snippet.Main
import Snippet.Proofs.Text.Lines
import Snippet.Proofs.Text.Break
import Snippet.Proofs.Text.NormalForm
import Snippet.Proofs.Text.Canonical
import Snippet.Proofs.Run.Frame
import Snippet.Proofs.Run.Shift
import Snippet.Proofs.Run.NormalForm
import Snippet.Proofs.Line.Mask
import Snippet.Proofs.Eval.Escape
import Snippet.Proofs.Run.Assignment
import Snippet.Proofs.Run.Append
import Snippet.Proofs.Expr.Layout
import Snippet.Proofs.Expr.Reading
import Snippet.Proofs.Expr.Level
import Snippet.Proofs.Expr.Atom
import Snippet.Proofs.Expr.Operator
import Snippet.Proofs.Expr.Trailer
import Snippet.Proofs.Expr.RoundTrip
import Snippet.Proofs.Token.Spelling
import Snippet.Proofs.Expr.Written
import Snippet.Proofs.Line.Place
import Snippet.Proofs.Line.Shape
import Snippet.Proofs.Text.Word
import Snippet.Proofs.Line.Target
import Snippet.Proofs.Expr.Names
import Snippet.Proofs.Eval.Missing
import Snippet.Proofs.Eval.Lookup
import Snippet.Proofs.Run.Failure
import Snippet.Proofs.Run.Protocol
import Snippet.Proofs.Run.Placed
import Snippet.Proofs.Run.Terse
import Snippet.Proofs.Verdict
import Snippet.Proofs.Value.Weight
import Snippet.Proofs.Value.Leaves
import Snippet.Proofs.Value.Walk
import Snippet.Proofs.Eval.Accepted
import Snippet.Proofs.Value.Solid
import Snippet.Proofs.Number.Bits
import Snippet.Proofs.Sorting.Permutation
import Snippet.Proofs.Eval.Plain
import Snippet.Proofs.Eval.Keeping
import Snippet.Proofs.Eval.Free
import Snippet.Proofs.Eval.Slices
import Snippet.Proofs.Eval.Arithmetic
import Snippet.Proofs.Eval.Held
import Snippet.Proofs.Eval.Called
import Snippet.Proofs.Expr.Parts
import Snippet.Proofs.Eval.Evaluated
import Snippet.Proofs.Eval.Assigned
import Snippet.Proofs.Run.Sized
import Snippet.Proofs.Eval.Exact
import Snippet.Proofs.Eval.Given
import Snippet.Proofs.Eval.Columns
import Snippet.Proofs.Run.Caps
import Snippet.Proofs.Datum
import Snippet.Proofs.Datum.Weight
import Snippet.Proofs.Datum.Written
import Snippet.Proofs.Datum.Read
import Snippet.Proofs.Datum.Key
import Snippet.Proofs.Datum.Evaluated
import Snippet.Proofs.Datum.RoundTrip
import Snippet.Proofs.Eval.Table
import Snippet.Proofs.Line.Names
import Snippet.Proofs.Run.Table
import Snippet.Proofs.Eval.Atomic
import Snippet.Proofs.Eval.Order
import Snippet.Proofs.Eval.Extending
import Snippet.Proofs.Run.ReadOnly
import Snippet.Proofs.Eval.Put
import Snippet.Proofs.Run.Stored
import Snippet.Proofs.Run.Binding
import Snippet.Proofs.Extension.Registration
import Snippet.Proofs.Extension.Usable
import Snippet.Proofs.Extension.Hooks
import Snippet.Proofs.Parallel
import Snippet.Proofs.Token.Enclosed
import Snippet.Proofs.Expr.Pairing
import Snippet.Proofs.Expr.PairedLoop
import Snippet.Proofs.Expr.Twin
import Snippet.Proofs.Expr.Paired
import Snippet.Proofs.Expr.Looser
import Snippet.Proofs.Expr.Enclosed
import Snippet.Proofs.Expr.Arguments
import Snippet.Proofs.Expr.Grouped
import Snippet.Proofs.Line.Call
import Snippet.Proofs.Format.Template
import Snippet.Proofs.Eval.Width
import Snippet.Proofs.Text.Search
import Snippet.Proofs.Eval.Estimate
import Snippet.Proofs.Token.Bracket
import Snippet.Proofs.Line.Depth
import Snippet.Proofs.Line.Augmented
import Snippet.Proofs.Token.Formed
import Snippet.Proofs.Token.Relaid
import Snippet.Proofs.Token.Literal
import Snippet.Proofs.Token.Numeral
import Snippet.Proofs.Expr.Field
import Snippet.Proofs.Expr.Body
import Snippet.Proofs.Run.Logged
import Snippet.Proofs.Line.Margin
import Snippet.Proofs.Run.Record
import Snippet.Proofs.Run.Printed
import Snippet.Proofs.Value.Renamed
import Snippet.Proofs.Sorting.Natural
import Snippet.Proofs.Eval.Chain
import Snippet.Proofs.Run.Sound
import Snippet.Proofs.Token.Stream
import Snippet.Proofs.Expr.Matching
import Snippet.Proofs.Expr.Turns
import Snippet.Proofs.Expr.Advancing
import Snippet.Proofs.Expr.Ending
