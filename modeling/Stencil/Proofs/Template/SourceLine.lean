/-
The lines of a source as they stand in it, before carriage returns are dropped and terminators are
put in.

What a line asks for is read off the line alone: a terminator of blanks is trimmed off before the
line is looked at (`code_withTerminator`), so it takes no part in it. `lines_eq_map` says that the
lines of a template are those of its source, each with the terminator in place of its line feed.
-/
import Stencil.Template.Directive
import Stencil.Template.Line

namespace Stencil.Template

open Text

/-- A line of a source: the text up to a line feed, or the text after the last one. -/
structure SourceLine where
  text : List Char
  isTerminated : Bool
  deriving Repr, DecidableEq

namespace SourceLine

/-- The text up to each line feed, and the text after the last one. -/
def split : List Char → List SourceLine
  | [] => [⟨[], false⟩]
  | c :: rest =>
    if c = '\n' then ⟨[], true⟩ :: split rest
    else
      match split rest with
      | [] => [⟨[c], false⟩]
      | first :: others => { first with text := c :: first.text } :: others

/-- The lines of a source. An empty one has none. -/
def ofSource (source : List Char) : List SourceLine :=
  if source = [] then [] else split source

/-- The text, and a terminator if the line has one. -/
def endedBy (terminator : List Char) (l : SourceLine) : List Char :=
  l.text ++ if l.isTerminated then terminator else []

/-- The text without its carriage returns. -/
def visible (l : SourceLine) : List Char := l.text.filter (· != '\r')

/-- The line as the template has it. -/
def withTerminator (terminator : List Char) (l : SourceLine) : List Char :=
  l.visible ++ if l.isTerminated then terminator else []

/-- The line without blanks at its end. -/
def code (l : SourceLine) : List Char := dropEnd isBlank l.visible

/-- What the line asks for. -/
def directive (l : SourceLine) : Directive := .ofCode l.code

theorem split_ne_nil (source : List Char) : split source ≠ [] := by
  fun_induction split source <;> simp_all

theorem not_mem_of_mem_ofSource {source : List Char} {l : SourceLine} (h : l ∈ ofSource source) :
    '\n' ∉ l.text := by
  have hsplit : ∀ s, ∀ l ∈ split s, '\n' ∉ l.text := fun s => by
    fun_induction split s with
    | case1 => simp
    | case2 rest ih => simpa using ih
    | case3 c rest hfeed hnil ih => simp [Ne.symm hfeed]
    | case4 c rest hfeed first others hrest ih => simp_all [Ne.symm hfeed]
  rw [ofSource] at h
  split at h
  · cases h
  · exact hsplit source l h

theorem pieces_eq_map (terminator source : List Char) :
    pieces terminator source = (split source).map (withTerminator terminator) := by
  induction source with
  | nil => rfl
  | cons c rest ih =>
    rw [pieces, split, ih]
    by_cases hfeed : c = '\n'
    · simp [hfeed, withTerminator, visible]
    · rw [if_neg hfeed, if_neg hfeed]
      -- A carriage return leaves the pieces as they are, any other character joins the first.
      obtain ⟨first, others, h⟩ := List.exists_cons_of_ne_nil (split_ne_nil rest)
      rw [h]
      by_cases hreturn : c = '\r'
      · simp [hreturn, withTerminator, visible]
      · simp [hreturn, withTerminator, visible]

/-- The lines of a template are those of its source, terminators put in. -/
theorem lines_eq_map (override? : Option (List Char)) (source : List Char) :
    lines override? source =
      (ofSource source).map (withTerminator (terminator override? source)) := by
  rw [lines, ofSource]
  split
  · rfl
  · exact pieces_eq_map _ _

/-- Blanks at the end of a line do not count, so a terminator of blanks does not. -/
theorem code_withTerminator {terminator : List Char} (h : ∀ c ∈ terminator, isBlank c = true)
    (l : SourceLine) : dropEnd isBlank (l.withTerminator terminator) = l.code := by
  rw [withTerminator, code]
  split
  · exact dropEnd_append_of_all h
  · rw [List.append_nil]

end SourceLine

/-- A terminator that is not asked for is of blanks. -/
theorem isBlank_of_mem_terminator {override? : Option (List Char)} {source : List Char}
    (h : ∀ newline, override? = some newline → ∀ c ∈ newline, isBlank c = true) :
    ∀ c ∈ terminator override? source, isBlank c = true := by
  cases override? with
  | some newline => exact h newline rfl
  | none =>
    intro c hc
    rw [terminator, Option.getD_none] at hc
    split at hc
    · simp only [List.mem_cons, List.not_mem_nil, or_false] at hc
      rcases hc with rfl | rfl <;> decide
    · rw [List.mem_singleton.1 hc]; decide

end Stencil.Template
