/-
What can go wrong, with the place in the code where it did.

An error has a message, a plain text with the place in one line (`display`) and, if it has a place,
a snippet with the code underlined (`report`).
-/
import Stencil.Excerpt
import Stencil.Expression.Fault
import Stencil.Template.Directive

namespace Stencil

/-- What is wrong with a directive. -/
inductive DirectiveFault where
  | malformedSet
  | misplaced (marker : Template.Marker)
  deriving Repr, DecidableEq

def DirectiveFault.message : DirectiveFault → String
  | .malformedSet => "expected `#set` to contain exactly one `=`"
  | .misplaced marker => "unexpected `" ++ marker.keyword ++ "`"

/-- Why a condition does not decide. -/
inductive ConditionFault where
  | notBoolean (found : Value.Kind)
  | failed (message : String)
  deriving Repr, DecidableEq

def ConditionFault.message : ConditionFault → String
  | .notBoolean found => "condition does not evaluate as a boolean, found " ++ found.name
  | .failed message => "condition does not evaluate as a boolean: " ++ message

inductive Error where
  | directive (fault : DirectiveFault) (line : Nat) (excerpt : Excerpt)
  | condition (fault : ConditionFault) (line : Nat) (excerpt : Excerpt)
  | expression (fault : Expression.Fault) (excerpt : Excerpt)
  /-- Reading or writing failed, with the text of the cause. -/
  | io (cause : String)
  /-- An error of the caller's own. -/
  | other (text : String)
  deriving Repr, DecidableEq

namespace Error

/-- The category of an error. -/
inductive Kind where
  | directive
  | condition
  | expression
  | io
  | other
  deriving Repr, DecidableEq

def kind : Error → Kind
  | .directive .. => .directive
  | .condition .. => .condition
  | .expression .. => .expression
  | .io _ => .io
  | .other _ => .other

/-- What went wrong, without the place. -/
def message : Error → String
  | .directive fault .. => fault.message
  | .condition fault .. => fault.message
  | .expression fault _ => fault.message
  | .io _ => "io error"
  | .other text => text

/-- The line of the template, counted from one. -/
def line? : Error → Option Nat
  | .directive _ line _ | .condition _ line _ => some line
  | _ => none

def excerpt? : Error → Option Excerpt
  | .directive _ _ excerpt | .condition _ _ excerpt | .expression _ excerpt => some excerpt
  | _ => none

/-- The text of what caused the error, if something outside did. -/
def cause? : Error → Option String
  | .io cause => some cause
  | _ => none

/-- The message and the place in one line. -/
def display (e : Error) : String :=
  match e with
  | .directive _ line _ | .condition _ line _ => e.message ++ " on line " ++ toString line
  | .expression _ excerpt =>
    e.message ++ " between bytes " ++ toString excerpt.span.start ++ " and "
      ++ toString excerpt.span.stop
  | .io cause => e.message ++ ": " ++ cause
  | .other _ => e.message

/-- The snippet of an error that has a place, else its plain text. An expression is on line one. -/
def report (width : List Char → Nat) (e : Error) : String :=
  match e.excerpt? with
  | some excerpt => excerpt.snippet width (e.line?.getD 1) e.message
  | none => e.display

end Error

end Stencil
