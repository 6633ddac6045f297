/-
The value of an expression.

`||` and `&&` look at their right side only if the left one leaves it open. Numbers are compared by
value, texts by code points and booleans for equality alone; a float that is not a number is in no
order with anything. Integers are computed exactly and refused where they leave 64 bits; a division
is always one of floats.
-/
import Stencil.Decimal.Binary
import Stencil.Expression.Fault

namespace Stencil.Expression

/-! ## Operands -/

/-- A numeric operand. -/
inductive Number where
  | integer (n : Int64)
  | float (x : Float)

namespace Number

def ofValue? : Value → Option Number
  | .integer n => some (.integer n)
  | .float x => some (.float x)
  | _ => none

/-- The nearest float. -/
def toFloat : Number → Float
  | .integer n => Float.ofInt n.toInt
  | .float x => x

def isZero : Number → Bool
  | .integer n => n == 0
  | .float x => x == 0.0

end Number

/-- The boolean that an operator needs. -/
def asBool (op : Operator) (v : Value) : Except Fault Bool :=
  match v with
  | .bool b => .ok b
  | v => .error (.wrongOperand op .bool v.kind)

/-- The number that an operator needs. -/
def asNumber (op : Operator) (v : Value) : Except Fault Number :=
  match Number.ofValue? v with
  | some n => .ok n
  | none => .error (.wrongOperand op .number v.kind)

/-! ## Comparison -/

/-- The order of two floats, if both are numbers. -/
def compareFloats (x y : Float) : Option Ordering :=
  if x < y then some .lt
  else if x == y then some .eq
  else if y < x then some .gt
  else none

/-- The order of two numbers: exact between integers, else as floats. -/
def Number.order : Number → Number → Option Ordering
  | .integer m, .integer n => some (compare m.toInt n.toInt)
  | a, b => compareFloats a.toFloat b.toFloat

/-- The order of two texts or two numbers, `none` if a float among them is not a number. -/
def order (l r : Value) : Except Fault (Option Ordering) :=
  match l.text?, r.text? with
  | some a, some b => .ok (some (compare a b))
  | _, _ =>
    match Number.ofValue? l, Number.ofValue? r with
    | some a, some b => .ok (a.order b)
    | _, _ => .error (.incomparable l.kind r.kind)

/-- Whether two values are equal. Booleans are equal or not without being in an order. -/
def equals (l r : Value) : Except Fault Bool :=
  match l, r with
  | .bool a, .bool b => .ok (a == b)
  | l, r => (order l r).map (· == some .eq)

/-- Whether a comparison holds. What is in no order is not equal either. -/
def Comparison.holds (op : Comparison) (l r : Value) : Except Fault Bool :=
  match op with
  | .equal => equals l r
  | .unequal => (equals l r).map (!·)
  | .less => (order l r).map (·.any Ordering.isLT)
  | .atMost => (order l r).map (·.any Ordering.isLE)
  | .greater => (order l r).map (·.any Ordering.isGT)
  | .atLeast => (order l r).map (·.any Ordering.isGE)

/-! ## Arithmetic -/

/-- Computes two integers as integers, and anything else as floats. -/
def compute (exact : Int → Int → Option Int64) (rounded : Float → Float → Float) :
    Number → Number → Except Fault Value
  | .integer m, .integer n =>
    match exact m.toInt n.toInt with
    | some k => .ok (.integer k)
    | none => .error .overflow
  | a, b => .ok (.float (rounded a.toFloat b.toFloat))

/-- The result of an arithmetic operator on numbers. A remainder is refused with its quotient: the
least integer has none by minus one. -/
def Arithmetic.apply (op : Arithmetic) (a b : Number) : Except Fault Value :=
  match op with
  | .add => compute (fun m n => narrow? (m + n)) (· + ·) a b
  | .subtract => compute (fun m n => narrow? (m - n)) (· - ·) a b
  | .multiply => compute (fun m n => narrow? (m * n)) (· * ·) a b
  | .divide => if b.isZero then .error .divisionByZero else .ok (.float (a.toFloat / b.toFloat))
  | .remainder =>
    if b.isZero then .error .divisionByZero
    else
      compute (fun m n => (narrow? (m.tdiv n)).bind fun _ => narrow? (m.tmod n))
        Decimal.remainder a b

/-- The text of two values in a row, if the operator adds and one of them is a text. -/
def Arithmetic.joined? (op : Arithmetic) (l r : Value) : Option Value :=
  if op = .add ∧ (l.text?.isSome ∨ r.text?.isSome) then some (.string (l.text ++ r.text))
  else none

/-! ## Trees -/

/-- Marks a fault with the span that shows it. -/
def Fault.at (span : Span) {α : Type} (result : Except Fault α) : Except Failure α :=
  result.mapError fun fault => ⟨fault, span⟩

/-- The result of a prefix operator; `inner` is the span of its operand. -/
def UnaryOp.apply (op : UnaryOp) (v : Value) (inner span : Span) : Except Failure Value :=
  match op with
  | .not => do
    let b ← Fault.at inner (asBool (.unary .not) v)
    return .bool (!b)
  | .negate => do
    match ← Fault.at inner (asNumber (.unary .negate) v) with
    | .integer n =>
      match narrow? (-n.toInt) with
      | some m => return .integer m
      | none => throw ⟨.overflow, span⟩
    | .float x => return .float (-x)

/-- The left side that alone decides a connective. -/
def Connective.decisive : Connective → Bool
  | .or => true
  | .and => false

/-- The value of a tree. -/
def Tree.evaluate : Tree → Except Failure Value
  | .literal v _ => .ok v
  | .unary op operand span => do
    let v ← operand.evaluate
    op.apply v operand.span span
  | .binary (.connective op) left right _ => do
    let l ← left.evaluate
    let a ← Fault.at left.span (asBool (.connective op) l)
    if a = op.decisive then
      return .bool a
    else
      let r ← right.evaluate
      let b ← Fault.at right.span (asBool (.connective op) r)
      return .bool b
  | .binary (.comparison op) left right span => do
    let l ← left.evaluate
    let r ← right.evaluate
    let b ← Fault.at span (op.holds l r)
    return .bool b
  | .binary (.arithmetic op) left right span => do
    let l ← left.evaluate
    let r ← right.evaluate
    match op.joined? l r with
    | some v => return v
    | none =>
      let a ← Fault.at left.span (asNumber (.arithmetic op) l)
      let b ← Fault.at right.span (asNumber (.arithmetic op) r)
      Fault.at span (op.apply a b)

end Stencil.Expression
