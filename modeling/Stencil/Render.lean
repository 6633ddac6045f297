/-
Rendering a template: the output, or the error of the first line that fails, together with the
variables as they are then. What a failing template has put out is lost, what it has assigned is
kept.
-/
import Stencil.Template.Run

namespace Stencil

open Template

/-- The result of rendering, with the variables after it, the conditions that the evaluator was
given, and what happened. -/
structure Outcome (α : Type) where
  result : Except Error α
  vars : Variables
  calls : List String := []
  events : List Event := []

/-- A template in a file: the bytes, unless there is no such file. -/
inductive File where
  | missing
  | bytes (content : ByteArray)

/-- The text of a file, or the cause why it cannot be read. -/
def File.text : File → Except String String
  | .missing => .error "No such file or directory (os error 2)"
  | .bytes content =>
    match String.fromUTF8? content with
    | some text => .ok text
    | none => .error "stream did not contain valid UTF-8"

namespace Engine

/-- The progress from the start of a source to its end or to the first line that fails. -/
def process (e : Engine) (vars : Variables) (source : String) : Progress × Option Error :=
  let start : Progress := { vars }
  (start.record (.processing source.utf8ByteSize vars.size)).run e
    (lines (e.dialect.newline?.map (·.toList)) source.toList)

/-- Renders a template. Blocks that are still open at its end count as closed. -/
def render (e : Engine) (vars : Variables) (source : String) : Outcome String :=
  match e.process vars source with
  | (p, some error) => ⟨.error error, p.vars, p.calls, p.events⟩
  | (p, none) =>
    let p := if p.blocks.isEmpty then p else p.record (.stillOpen p.blocks.length)
    let p := p.record (.processed p.count p.output.utf8ByteSize)
    ⟨.ok p.output, p.vars, p.calls, p.events⟩

/-- Renders a template and reports a failure by a flag, with no output. -/
def tryRender (e : Engine) (vars : Variables) (source : String) : Outcome (Bool × String) :=
  let outcome := e.render vars source
  match outcome.result with
  | .ok output => { outcome with result := .ok (true, output) }
  | .error error =>
    { outcome with result := .ok (false, ""), events := outcome.events ++ [.failed error] }

/-- Renders the template in a file. If the file cannot be read nothing is processed. -/
def renderFile (e : Engine) (vars : Variables) (path : String) (file : File) : Outcome String :=
  match file.text with
  | .ok source =>
    let outcome := e.render vars source
    { outcome with events := .reading path :: outcome.events }
  | .error cause => ⟨.error (.io cause), vars, [], [.reading path]⟩

end Engine

end Stencil
