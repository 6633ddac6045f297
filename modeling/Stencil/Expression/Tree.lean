/-
The trees of the condition language: literals under prefix and binary operators. Parentheses leave
no node. Each node carries the span of the text from its first token to its last.
-/
import Stencil.Expression.Token
import Stencil.Value

namespace Stencil.Expression

inductive UnaryOp where
  | not
  | negate
  deriving Repr, DecidableEq

/-- Operators between booleans. -/
inductive Connective where
  | or
  | and
  deriving Repr, DecidableEq

/-- Operators that compare two values. -/
inductive Comparison where
  | equal
  | unequal
  | less
  | atMost
  | greater
  | atLeast
  deriving Repr, DecidableEq

/-- Operators that compute a number, or join texts. -/
inductive Arithmetic where
  | add
  | subtract
  | multiply
  | divide
  | remainder
  deriving Repr, DecidableEq

inductive BinaryOp where
  | connective (op : Connective)
  | comparison (op : Comparison)
  | arithmetic (op : Arithmetic)
  deriving Repr, DecidableEq

def UnaryOp.sign : UnaryOp → String
  | .not => "!"
  | .negate => "-"

def Connective.sign : Connective → String
  | .or => "||"
  | .and => "&&"

def Arithmetic.sign : Arithmetic → String
  | .add => "+"
  | .subtract => "-"
  | .multiply => "*"
  | .divide => "/"
  | .remainder => "%"

/-- How tightly an operator binds: a higher level binds tighter. -/
def BinaryOp.level : BinaryOp → Nat
  | .connective .or => 1
  | .connective .and => 2
  | .comparison .equal | .comparison .unequal => 3
  | .comparison .less | .comparison .atMost | .comparison .greater | .comparison .atLeast => 4
  | .arithmetic .add | .arithmetic .subtract => 5
  | .arithmetic .multiply | .arithmetic .divide | .arithmetic .remainder => 6

/-- The prefix operator that a token is, if any. -/
def Token.unary? (t : Token) : Option UnaryOp :=
  match t.kind with
  | .bang => some .not
  | .minus => some .negate
  | .word => if t.keyword? = some .not then some .not else none
  | _ => none

/-- The binary operator that a token is, if any. -/
def Token.binary? (t : Token) : Option BinaryOp :=
  match t.kind with
  | .orSign => some (.connective .or)
  | .andSign => some (.connective .and)
  | .equal => some (.comparison .equal)
  | .unequal => some (.comparison .unequal)
  | .less => some (.comparison .less)
  | .atMost => some (.comparison .atMost)
  | .greater => some (.comparison .greater)
  | .atLeast => some (.comparison .atLeast)
  | .plus => some (.arithmetic .add)
  | .minus => some (.arithmetic .subtract)
  | .star => some (.arithmetic .multiply)
  | .slash => some (.arithmetic .divide)
  | .percent => some (.arithmetic .remainder)
  | .word =>
    match t.keyword? with
    | some .or => some (.connective .or)
    | some .and => some (.connective .and)
    | _ => none
  | _ => none

/-- An expression. -/
inductive Tree where
  | literal (value : Value) (span : Span)
  | unary (op : UnaryOp) (operand : Tree) (span : Span)
  | binary (op : BinaryOp) (left right : Tree) (span : Span)

def Tree.span : Tree → Span
  | .literal _ span | .unary _ _ span | .binary _ _ _ span => span

end Stencil.Expression
