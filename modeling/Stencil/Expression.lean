/-
The condition language as a whole: from the text of an expression to its value.
-/
import Stencil.Error
import Stencil.Expression.Evaluation
import Stencil.Expression.Reading

namespace Stencil.Expression

variable [Text.Alphabet]

/-- The value of a text, or the failure of reading or evaluating it. -/
def value (text : List Char) : Except Failure Value := do
  let tree ← parse text
  tree.evaluate

/-- The value of a text, or an error that shows the text. -/
def eval (source : String) : Except Error Value :=
  (value source.toList).mapError fun failure =>
    .expression failure.fault (.of source.toList failure.span)

end Stencil.Expression
