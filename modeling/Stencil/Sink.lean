/-
Writing rendered text to a sink that may accept it piece by piece, be interrupted, or fail.

`Sink.write` offers what is left until all of it is accepted. It offers again after an interruption,
and gives up on any other failure and on a sink that accepts nothing. Only a template that was
rendered to its end is offered, and only what was accepted to its end is flushed.
-/
import Stencil.Render

namespace Stencil

/-- The answer of a sink to one write. -/
inductive Reply where
  /-- Accepts so many bytes at most. -/
  | accept (limit : Nat)
  | interrupted
  | failed (cause : String)
  deriving Repr, DecidableEq

/-- How a sink behaves: its answers to the first writes, how many bytes each later write accepts at
most, if there is a limit, and whether it fails to flush. -/
structure Sink where
  replies : List Reply := []
  limit? : Option Nat := none
  flushFailure? : Option String := none
  deriving Repr, DecidableEq

/-- What a sink has taken in, and how often it was written to and flushed. -/
structure Delivery where
  accepted : List UInt8 := []
  writes : Nat := 0
  flushes : Nat := 0
  deriving Repr, DecidableEq

namespace Sink

/-- The cause of a write that accepts nothing. -/
def nothingAccepted : String := "failed to write whole buffer"

/-- Writes to a sink that accepts `limit` bytes at most each time. -/
def writeSteadily (limit : Nat) (d : Delivery) (bytes : List UInt8) : Delivery × Option String :=
  if bytes = [] then (d, none)
  else if limit = 0 then ({ d with writes := d.writes + 1 }, some nothingAccepted)
  else
    let d := { d with accepted := d.accepted ++ bytes.take limit, writes := d.writes + 1 }
    writeSteadily limit d (bytes.drop limit)
termination_by bytes.length
decreasing_by
  have := List.length_pos_iff.2 ‹¬bytes = []›
  simp only [List.length_drop]
  omega

/-- Writes the bytes to a sink that gives these replies first and `limit?` rules after them. Returns
the cause if not all of them are accepted. -/
def writeBytes (limit? : Option Nat) :
    List Reply → Delivery → List UInt8 → Delivery × Option String
  | _, d, [] => (d, none)
  | [], d, bytes => writeSteadily (limit?.getD bytes.length) d bytes
  | reply :: replies, d, bytes =>
    let d := { d with writes := d.writes + 1 }
    match reply with
    | .interrupted => writeBytes limit? replies d bytes
    | .failed cause => (d, some cause)
    | .accept 0 => (d, some nothingAccepted)
    | .accept limit =>
      writeBytes limit? replies { d with accepted := d.accepted ++ bytes.take limit }
        (bytes.drop limit)

/-- Writes the bytes and flushes. -/
def deliver (sink : Sink) (bytes : List UInt8) : Delivery × Option String :=
  match writeBytes sink.limit? sink.replies {} bytes with
  | (d, some cause) => (d, some cause)
  | (d, none) => ({ d with flushes := d.flushes + 1 }, sink.flushFailure?)

end Sink

/-- Renders a template and writes the output to a sink. -/
def Engine.renderTo (e : Engine) (vars : Variables) (source : String) (sink : Sink) :
    Outcome Unit × Delivery :=
  let outcome := e.render vars source
  match outcome.result with
  | .error error => ({ outcome with result := .error error }, {})
  | .ok output =>
    match sink.deliver output.toUTF8.toList with
    | (d, none) => ({ outcome with result := .ok () }, d)
    | (d, some cause) => ({ outcome with result := .error (.io cause) }, d)

end Stencil
