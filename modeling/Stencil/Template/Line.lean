/-
The lines of a template.

Carriage returns are dropped wherever they stand. Every line feed ends a line and is replaced by the
terminator of the template, which stays on the line; what follows the last line feed is a line
without one, even if nothing follows. An empty template has no lines.

`flatten_lines` says that the lines, joined, are the template with its line feeds replaced.
-/

namespace Stencil.Template

/-- The terminator of a template: the one asked for, else a carriage return and a line feed if the
source holds any carriage return, else a line feed. -/
def terminator (override? : Option (List Char)) (source : List Char) : List Char :=
  override?.getD (if '\r' ∈ source then ['\r', '\n'] else ['\n'])

/-- The text up to each line feed, with the terminator, and the text after the last one. -/
def pieces (terminator : List Char) : List Char → List (List Char)
  | [] => [[]]
  | c :: rest =>
    if c = '\n' then terminator :: pieces terminator rest
    else if c = '\r' then pieces terminator rest
    else
      match pieces terminator rest with
      | [] => [[c]]
      | first :: others => (c :: first) :: others

/-- The lines of a source, terminators included. -/
def lines (override? : Option (List Char)) (source : List Char) : List (List Char) :=
  if source = [] then [] else pieces (terminator override? source) source

/-- The source without carriage returns and with its line feeds replaced by the terminator. -/
def normalize (terminator source : List Char) : List Char :=
  source.flatMap fun c => if c = '\n' then terminator else if c = '\r' then [] else [c]

theorem pieces_ne_nil (terminator source : List Char) : pieces terminator source ≠ [] := by
  fun_induction pieces terminator source <;> simp_all

theorem flatten_pieces (terminator source : List Char) :
    (pieces terminator source).flatten = normalize terminator source := by
  fun_induction pieces terminator source <;> simp_all [normalize]

theorem flatten_lines (override? : Option (List Char)) (source : List Char) :
    (lines override? source).flatten = normalize (terminator override? source) source := by
  rw [lines]
  split
  · simp_all [normalize]
  · exact flatten_pieces _ _

end Stencil.Template
