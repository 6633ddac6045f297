/-
Neither a template nor an expression stops the program that hands it over.

The parts are shown where they are defined: a cut is made between two characters by what is known
of the text on both sides of it (`cut_eq`); the stack is that of the open blocks after each line
(`run_line`); the parser has its levels back whenever a part of it is through (`agrees_expression`).
-/
import Stencil.Proofs.Checked.Evaluator
import Stencil.Proofs.Checked.Template

namespace Stencil.Checked

open Template

/-- **No hazard is ever met.** Whatever the source, the variables, the dialect and the evaluator,
processing in place renders the template: no text is cut where it must not be, no empty stack is
asked for its top, no transition is applied that is not allowed, and the root is not taken off.
Between any two lines the stack has the root at its bottom and branches of blocks above it, as many
as there are lines that opened a block less those that closed one. In the same way every text is
evaluated. And whatever tokens the parser of a text faces, each part of it that succeeds gives back
the levels that it took. -/
theorem no_hazard [Text.Alphabet] :
    (∀ (e : Engine) (vars : Variables) (source : String),
      render e vars source = pure (e.render vars source) ∧
      ∀ r, Reachable e vars source r → ∃ blocks : List Branch,
        r.stack = blocks.map .branch ++ [.root] ∧
        depth r.stack = pure blocks.length ∧
        blocks.length + (r.processed e source).countP closes =
          (r.processed e source).countP opens) ∧
    (∀ source : String, eval source = pure (Expression.eval source)) ∧
    (∀ source : List Char,
      ({} : Parser).Faces source (Expression.scan source).significant.tokens
        (Expression.scan source).failure? ∧
      ∀ room,
        (∀ least, Restores source room (parseExpr source room least)) ∧
        Restores source room (parseUnary source room) ∧
        Restores source room (parsePrimary source room)) := by
  refine ⟨fun e vars source => ⟨render_eq e vars source, fun r h => ?_⟩, eval_eq, fun source =>
    ⟨faces_start, fun room => ⟨restores_parseExpr source room, restores_parseUnary source room,
      restores_parsePrimary source room⟩⟩⟩
  obtain ⟨blocks, hstack, hlength⟩ := h.stack_eq
  exact ⟨blocks, hstack, by rw [hstack, depth_stackOf], hlength⟩

end Stencil.Checked
