/-
What a line of a template is.

A directive starts at the first character of its line. Those with an argument have it in
parentheses, which are not balanced: the argument ends at the last parenthesis, and only blanks may
follow. Lines that are no directive are content, and so are directives that are known but not
supported.
-/
import Stencil.Text.Blank
import Stencil.Text.Span

namespace Stencil.Template

open Text

/-- A directive that opens, switches or closes a block. -/
inductive Marker where
  | ifHolds (condition : List Char)
  | elseIf (condition : List Char)
  | otherwise
  | close
  deriving Repr, DecidableEq

/-- A line, by what it asks for. -/
inductive Directive where
  | set (argument : List Char)
  | marker (marker : Marker)
  | unsupported (name : String)
  | content
  deriving Repr, DecidableEq

/-- The word that a marker starts with. -/
def Marker.keyword : Marker → String
  | .ifHolds _ => "#if"
  | .elseIf _ => "#elseif"
  | .otherwise => "#else"
  | .close => "#end"

def Directive.name : Directive → String
  | .set _ => "#set"
  | .marker m => m.keyword
  | .unsupported name => name
  | .content => "content"

def setOpening : String := "#set ("
def ifOpening : String := "#if ("
def elseIfOpening : String := "#elseif ("

/-- Directives that are passed through as content. -/
def unsupportedNames : List String :=
  ["#foreach", "#include", "#parse", "#evaluate", "#break", "#stop", "#macro", "#define"]

/-- Whether a text starts with a word. -/
def startsWith (word : String) (text : List Char) : Bool := word.toList.isPrefixOf text

/-- The text between an opening word and a parenthesis at the end. -/
def argument? (opening : String) (code : List Char) : Option (List Char) :=
  if startsWith opening code && code.getLast? == some ')' then
    some (code.drop opening.length).dropLast
  else none

/-- What a line is, blanks at its end removed. -/
def Directive.ofCode (code : List Char) : Directive :=
  match argument? setOpening code with
  | some argument => .set argument
  | none =>
    match argument? ifOpening code with
    | some condition => .marker (.ifHolds condition)
    | none =>
      match argument? elseIfOpening code with
      | some condition => .marker (.elseIf condition)
      | none =>
        if startsWith Marker.otherwise.keyword code then .marker .otherwise
        else if startsWith Marker.close.keyword code then .marker .close
        else
          match unsupportedNames.find? (startsWith · code) with
          | some name => .unsupported name
          | none => .content

/-- The span of an argument that stands after `opening`. -/
def argumentSpan (opening : String) (argument : List Char) : Span :=
  .after opening.toList argument

/-- The span of a marker's keyword. -/
def Marker.keywordSpan (m : Marker) : Span := .after [] m.keyword.toList

/-- A condition without blanks at its ends, and its span in the line. -/
def conditionAt (opening : String) (argument : List Char) : List Char × Span :=
  let condition := strip isBlank argument
  (condition, .after (opening.toList ++ argument.takeWhile isBlank) condition)

/-! ## Assignments -/

/-- A name and the text that it is given. -/
structure Assignment where
  name : List Char
  text : List Char
  deriving Repr, DecidableEq

/-- The text without one `c` in front, if there is one. -/
def dropFront (c : Char) : List Char → List Char
  | [] => []
  | d :: rest => if d = c then rest else d :: rest

/-- The text without one `c` at its end, if there is one. -/
def dropBack (c : Char) (text : List Char) : List Char :=
  if text.getLast? = some c then text.dropLast else text

/-- The assignment that an argument with exactly one `=` spells. Spaces around both sides do not
count; the name may have the sigil in front, the text a quote at either end. -/
def Assignment.ofArgument? (sigil : Char) (argument : List Char) : Option Assignment :=
  match argument.span (· != '=') with
  | (_, []) => none
  | (name, _ :: text) =>
    if '=' ∈ text then none
    else
      some
        { name := dropFront sigil (strip (· == ' ') name)
          text := dropBack '"' (dropFront '"' (strip (· == ' ') text)) }

end Stencil.Template
