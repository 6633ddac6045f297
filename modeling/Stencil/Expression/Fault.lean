/-
What can be wrong with an expression, and where.
-/
import Stencil.Expression.Tree

namespace Stencil.Expression

/-- The deepest nesting that is read. -/
def deepest : Nat := 256

/-- What the reader of an expression waits for. -/
inductive Expected where
  | operator
  | expression
  | closeParen
  deriving Repr, DecidableEq

def Expected.name : Expected → String
  | .operator => "operator"
  | .expression => "expression"
  | .closeParen => Token.Kind.closeParen.name

/-- An operator that takes operands of one kind only. -/
inductive Operator where
  | unary (op : UnaryOp)
  | connective (op : Connective)
  | arithmetic (op : Arithmetic)
  deriving Repr, DecidableEq

def Operator.sign : Operator → String
  | .unary op => op.sign
  | .connective op => op.sign
  | .arithmetic op => op.sign

/-- What an operator takes. -/
inductive Domain where
  | bool
  | number
  deriving Repr, DecidableEq

def Domain.name : Domain → String
  | .bool => "bool"
  | .number => "number"

inductive Fault where
  | unexpectedCharacter
  | undelimitedString
  | unknownEscape
  | integerOutOfRange
  /-- Something else stands where `expected` should; `none` is the end of the text. -/
  | unexpected (expected : Expected) (found : Option Token.Kind)
  | unexpectedKeyword (keyword : Keyword)
  | unknownIdentifier
  | nestedTooDeep
  | wrongOperand (operator : Operator) (expected : Domain) (found : Value.Kind)
  | incomparable (left right : Value.Kind)
  | divisionByZero
  | overflow
  deriving Repr, DecidableEq

def Fault.message : Fault → String
  | .unexpectedCharacter => "unexpected character"
  | .undelimitedString => "undelimited string"
  | .unknownEscape => "unknown escape character"
  | .integerOutOfRange => "integer literal out of range for 64-bit integer"
  | .unexpected expected found =>
    "expected " ++ expected.name ++ ", found " ++ (found.map (·.name)).getD "EOF"
  | .unexpectedKeyword keyword => "unexpected keyword `" ++ keyword.spelling ++ "`"
  | .unknownIdentifier => "unknown identifier"
  | .nestedTooDeep => "expression nested more than " ++ toString deepest ++ " levels deep"
  | .wrongOperand operator expected found =>
    "`" ++ operator.sign ++ "` expected " ++ expected.name ++ ", found " ++ found.name
  | .incomparable left right => "cannot compare " ++ left.name ++ " with " ++ right.name
  | .divisionByZero => "division by zero"
  | .overflow => "integer overflow"

/-- A fault and the part of the text that shows it. -/
structure Failure where
  fault : Fault
  span : Span
  deriving Repr, DecidableEq

end Stencil.Expression
