/-
Errors in words, with every cut of their code spelled out.

A snippet measures the code in front of the underlined part, and this part; whatever they are measured
by, both are cut out of the code at the ends of the span. Where the span is within the code they are
there to be cut out (`snippet_eq`), and all else of an error is put together without a cut
(`format_eq`).
-/
import Stencil.Error
import Stencil.Proofs.Text.Within

namespace Stencil

open Text

/-- The lines of a snippet: an empty one, the gutter, the code under its line number, and the
carets below the code, indented, with the message behind them. -/
def Excerpt.rows (width : List Char → Nat) (code : List Char) (line indent carets : Nat)
    (message : List Char) : List (List Char) :=
  let number := (toString line).toList
  let gutter := List.replicate (width number) ' '
  [[],
    ' ' :: gutter ++ " |".toList,
    ' ' :: number ++ " | ".toList ++ code,
    ' ' :: gutter ++ " | ".toList ++ List.replicate indent ' ' ++ List.replicate carets '^' ++
      ' ' :: message]

/-- The text of lines, each ended by a line feed. -/
def Text.unlines (rows : List (List Char)) : List Char := rows.flatMap (· ++ ['\n'])

variable (width : List Char → Nat)

theorem Excerpt.snippet_eq_unlines (e : Excerpt) (line : Nat) (message : String) :
    e.snippet width line message = String.ofList
      (unlines (rows width e.code line (e.indent width) (e.carets width) message.toList)) := by
  have hgutter : " |\n ".toList = " |".toList ++ ['\n', ' '] := by decide
  have hcode : "\n ".toList = ['\n', ' '] := by decide
  unfold snippet rows unlines
  simp only [hgutter, hcode, List.flatMap_cons, List.flatMap_nil, List.nil_append,
    List.append_assoc, List.cons_append, List.append_nil]

section

variable (before part after : List Char)

theorem Excerpt.indent_after :
    (⟨before ++ part ++ after, .after before part⟩ : Excerpt).indent width = width before := by
  rw [indent, Span.after, List.append_assoc, takeBytes_byteSize_append]

theorem Excerpt.carets_after :
    (⟨before ++ part ++ after, .after before part⟩ : Excerpt).carets width =
      max 1 (width part) := by
  rw [carets, Span.slice_after]

end

/-- A way to put an error into words. -/
inductive Form where
  | plain
  | alternate
  | debug
  deriving Repr, DecidableEq

/-- An error in words. -/
def Error.inForm (e : Error) : Form → String
  | .plain => e.display
  | .alternate | .debug => e.report width

namespace Checked

/-- The snippet of an excerpt. -/
def snippet (e : Excerpt) (line : Nat) (message : String) : Checked String := do
  let before ← cut e.code 0 e.span.start
  let part ← cut e.code e.span.start e.span.stop
  return String.ofList
    (unlines (Excerpt.rows width e.code line (width before) (max 1 (width part)) message.toList))

/-- An error in words of some form. -/
def format (e : Error) : Form → Checked String
  | .plain => return e.display
  | .alternate | .debug =>
    match e.excerpt? with
    | some excerpt => snippet width excerpt (e.line?.getD 1) e.message
    | none => return e.display

theorem snippet_eq {e : Excerpt} (h : e.span.Within e.code) (line : Nat) (message : String) :
    snippet width e line message = pure (e.snippet width line message) := by
  obtain ⟨code, span⟩ := e
  obtain ⟨before, part, after, rfl, rfl⟩ := h
  have hbefore : cut (before ++ part ++ after) 0 (Span.after before part).start = pure before :=
    cut_eq [] (part ++ after) (List.append_assoc ..) rfl (Nat.zero_add _).symm
  have hpart : cut (before ++ part ++ after) (Span.after before part).start
      (Span.after before part).stop = pure part := cut_eq before after rfl rfl rfl
  rw [Excerpt.snippet_eq_unlines, snippet, hbefore, pure_bind, hpart, pure_bind,
    Excerpt.indent_after, Excerpt.carets_after]

/-- What shows code by a span within it is put into words of any form. -/
theorem format_eq {e : Error}
    (h : ∀ excerpt, e.excerpt? = some excerpt → excerpt.span.Within excerpt.code) (form : Form) :
    format width e form = pure (e.inForm width form) := by
  have hreport : format width e .alternate = pure (e.report width) := by
    rw [format, Error.report]
    cases hexcerpt : e.excerpt? with
    | none => rfl
    | some excerpt => exact snippet_eq width (h excerpt hexcerpt) _ _
  cases form with
  | plain => rfl
  | alternate => exact hreport
  | debug => exact hreport

end Checked

end Stencil
