/-
Code that shows a fault, and the part of it to underline.

`Excerpt.of` cuts line terminators off the end of the code and pulls the span back into what is
left. `span_of_eq_self` says that a span in what is left stays as it is. How many columns a text
takes on a display is a parameter of whatever is laid out in columns.
-/
import Stencil.Text.Blank
import Stencil.Text.Span

namespace Stencil

/-- Code and the part of it to underline. -/
structure Excerpt where
  code : List Char
  span : Span
  deriving Repr, DecidableEq

namespace Excerpt

/-- The text without the line terminators at its end. -/
def shown (text : List Char) : List Char := Text.dropEnd (fun c => c == '\r' || c == '\n') text

/-- The excerpt of a text: what is shown of it, and as much of the span as lies in that. -/
def of (text : List Char) (span : Span) : Excerpt :=
  let code := shown text
  let start := min span.start (Text.byteSize code)
  ⟨code, start, min (max span.stop start) (Text.byteSize code)⟩

section

variable (width : List Char → Nat)

/-- The columns in front of the underlined part. -/
def indent (e : Excerpt) : Nat := width (Text.takeBytes e.span.start e.code)

/-- The columns to underline, one at least. -/
def carets (e : Excerpt) : Nat := max 1 (width (e.span.slice e.code))

/-- The code under its line number, underlined, with a message after the underline. -/
def snippet (e : Excerpt) (line : Nat) (message : String) : String :=
  let number := (toString line).toList
  let gutter := List.replicate (width number) ' '
  String.ofList
    ('\n' :: ' ' :: gutter ++ " |\n ".toList ++ number ++ " | ".toList ++ e.code ++ "\n ".toList
      ++ gutter ++ " | ".toList ++ List.replicate (e.indent width) ' '
      ++ List.replicate (e.carets width) '^' ++ ' ' :: message.toList ++ ['\n'])

end

theorem span_of_eq_self {text : List Char} {span : Span} (hle : span.start ≤ span.stop)
    (hshown : span.stop ≤ Text.byteSize (shown text)) : (of text span).span = span := by
  obtain ⟨start, stop⟩ := span
  simp only [of, Span.mk.injEq] at *
  omega

end Excerpt

end Stencil
