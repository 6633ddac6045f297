/-
The engine: how templates are written and how their conditions are decided.
-/
import Stencil.Expression

namespace Stencil

/-- How templates are written: the sigil in front of a variable's name, and the line terminator of
the output if it is not to be taken from the template. -/
structure Dialect where
  sigil : Char := '$'
  newline? : Option String := none
  deriving Repr, DecidableEq

/-- The dialect with its settings spelled out. -/
def Dialect.inspect (d : Dialect) : String :=
  "Syntax \x7b prefix: " ++ Text.quoted '\'' d.sigil.toString ++ ", newline: "
    ++ (match d.newline? with
      | some newline => "Some(" ++ Text.quoted '"' newline ++ ")"
      | none => "None")
    ++ " \x7d"

/-- A dialect with an evaluator of conditions, which is given the text of a condition with its
variables put in. -/
structure Engine where
  dialect : Dialect := {}
  evaluator : String → Except Error Value

namespace Engine

/-- The engine whose conditions are expressions. -/
def standard [Text.Alphabet] : Engine where
  evaluator := Expression.eval

/-- The engine with its dialect spelled out. -/
def inspect (e : Engine) : String :=
  "Engine \x7b syntax: " ++ e.dialect.inspect ++ ", .. \x7d"

/-- What the evaluator makes of a condition; it decides only by a boolean. -/
def judge (e : Engine) (condition : String) : Except ConditionFault Bool :=
  match e.evaluator condition with
  | .ok (.bool b) => .ok b
  | .ok v => .error (.notBoolean v.kind)
  | .error err => .error (.failed err.message)

end Engine

end Stencil
