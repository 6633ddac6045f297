/-
Processing a template, line by line.

A `Progress` is what there is after some of the lines: the variables, the open blocks, the output,
and a record of the conditions that were evaluated and of what happened. A line that fails leaves
it as it was before the line, but for this record.
-/
import Stencil.Engine
import Stencil.Template.Block
import Stencil.Template.Line
import Stencil.Template.Substitution

namespace Stencil.Template

/-- What happens while a template is processed. -/
inductive Event where
  | reading (path : String)
  | processing (bytes count : Nat)
  | line (number : Nat) (directive : String)
  | unsupported (number : Nat) (directive : String)
  | setting (number : Nat) (name : String)
  | stillOpen (blocks : Nat)
  | processed (lines bytes : Nat)
  | failed (error : Error)
  deriving Repr, DecidableEq

namespace Event

/-- Whether an event is one of many in a template. -/
def isDetail : Event → Bool
  | .line .. | .setting .. => true
  | _ => false

def text : Event → String
  | .reading path => "reading template from " ++ path
  | .processing bytes count =>
    "processing template, " ++ toString bytes ++ " bytes, " ++ toString count ++ " variables"
  | .line number directive => "line " ++ toString number ++ ": " ++ directive
  | .unsupported number directive =>
    "line " ++ toString number ++ ": `" ++ directive
      ++ "` is not supported, passing it through as content"
  | .setting number name => "line " ++ toString number ++ ": setting `" ++ name ++ "`"
  | .stillOpen blocks => toString blocks ++ " blocks still open at the end of the template"
  | .processed lines bytes =>
    "processed " ++ toString lines ++ " lines, " ++ toString bytes ++ " bytes of output"
  | .failed error => "failed to process template: " ++ error.display

end Event

/-- What there is after some lines of a template. -/
structure Progress where
  vars : Variables := {}
  /-- The open blocks, the innermost first. -/
  blocks : List Branch := []
  output : String := ""
  /-- The number of lines behind. -/
  count : Nat := 0
  /-- The conditions that the evaluator was given. -/
  calls : List String := []
  events : List Event := []

namespace Progress

/-- The number of the next line. -/
def number (p : Progress) : Nat := p.count + 1

def record (p : Progress) (event : Event) : Progress := { p with events := p.events ++ [event] }

/-- The line is behind. -/
def next (p : Progress) : Progress := { p with count := p.count + 1 }

/-- A line of content: shown, with its variables put in, if it is live. -/
def emit (e : Engine) (p : Progress) (line : List Char) : Progress :=
  if isLive p.blocks then
    let shown := substitute e.dialect.sigil p.vars line
    { p with output := p.output ++ String.ofList shown }
  else p

/-- An assignment, which applies whether or not it is live. -/
def assign (e : Engine) (p : Progress) (code argument : List Char) : Progress × Option Error :=
  match Assignment.ofArgument? e.dialect.sigil argument with
  | none =>
    (p, some (.directive .malformedSet p.number (.of code (argumentSpan setOpening argument))))
  | some a =>
    let name := String.ofList a.name
    let p := p.record (.setting p.number name)
    ({ p with vars := p.vars.insert name (.string (String.ofList a.text)) }, none)

/-- A marker, with the condition decided where the move depends on it. -/
def mark (e : Engine) (p : Progress) (code : List Char) (marker : Marker) :
    Progress × Option Error :=
  match marker.move p.blocks with
  | .go blocks => ({ p with blocks }, none)
  | .misplaced =>
    (p, some (.directive (.misplaced marker) p.number (.of code marker.keywordSpan)))
  | .ask opening argument ifSo ifNot =>
    let (condition, span) := conditionAt opening argument
    let call := String.ofList (substitute e.dialect.sigil p.vars condition)
    let p := { p with calls := p.calls ++ [call] }
    match e.judge call with
    | .ok b => ({ p with blocks := if b then ifSo else ifNot }, none)
    | .error fault => (p, some (.condition fault p.number (.of code span)))

/-- One line. -/
def step (e : Engine) (p : Progress) (line : List Char) : Progress × Option Error :=
  let code := Text.dropEnd Text.isBlank line
  let directive := Directive.ofCode code
  let p := p.record (.line p.number directive.name)
  let (p, error?) :=
    match directive with
    | .content => (p.emit e line, none)
    | .unsupported name => ((p.record (.unsupported p.number name)).emit e line, none)
    | .set argument => p.assign e code argument
    | .marker marker => p.mark e code marker
  match error? with
  | none => (p.next, none)
  | some error => (p, some error)

/-- The lines one after the other, up to the first that fails. -/
def run (e : Engine) (p : Progress) : List (List Char) → Progress × Option Error
  | [] => (p, none)
  | line :: rest =>
    match p.step e line with
    | (p, none) => p.run e rest
    | (p, some error) => (p, some error)

end Progress

end Stencil.Template
