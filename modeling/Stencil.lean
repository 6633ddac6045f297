import Stencil.Data
import Stencil.Proofs.Template.Nested
import Stencil.Proofs.Template.Newline
import Stencil.Sink
import Stencil.Proofs.Expression.Grammar
import Stencil.Proofs.Expression.Reading
import Stencil.Proofs.Expression.Parse
import Stencil.Proofs.Expression.Depth
import Stencil.Proofs.Template.Flaw
import Stencil.Proofs.Template.Simultaneous
import Stencil.Proofs.Template.Assignments
import Stencil.Proofs.Template.CarriageReturns
import Stencil.Proofs.Data.Acceptance
import Stencil.Proofs.Template.Concatenation
import Stencil.Proofs.Checked.Evaluator
import Stencil.Proofs.Checked.Line
import Stencil.Proofs.Checked.Safety
import Stencil.Proofs.Template.Normalization
import Stencil.Proofs.Variables.Timeline
import Stencil.Proofs.Expression.Numeral
import Stencil.Proofs.Template.Integers
import Stencil.Proofs.Template.Idempotence
import Stencil.Proofs.Template.SetLine
import Stencil.Proofs.Expression.Extent
import Stencil.Proofs.Template.Occurrence
import Stencil.Proofs.Data.Serialization
import Stencil.Proofs.Text.Within
import Stencil.Proofs.Expression.Place
import Stencil.Proofs.Checked.Report
import Stencil.Proofs.Error.Place
import Stencil.Proofs.Error.Snippet
import Stencil.Proofs.Sink.Delivery
import Stencil.Proofs.Data.Calls
import Stencil.Proofs.Checked.Tiling
