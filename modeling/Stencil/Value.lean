/-
The values that variables hold and expressions compute.

A value has one plain text, `Value.text`, which is what a template shows; `Value.inspect` is the
text that tells values of different kinds apart. A string and a preformatted text hold the same
text and are the same kind of operand, but are not equal.
-/
import Stencil.Decimal.Layout
import Stencil.Text.Quoted

namespace Stencil

inductive Value where
  | bool (b : Bool)
  | integer (n : Int64)
  | float (x : Float)
  | string (s : String)
  /-- Text that stands for a value of the caller's own. -/
  | formatted (s : String)
  deriving BEq

namespace Value

/-- What an operator makes of a value. -/
inductive Kind where
  | bool
  | integer
  | float
  | string
  deriving Repr, DecidableEq

def Kind.name : Kind → String
  | .bool => "bool"
  | .integer => "integer"
  | .float => "float"
  | .string => "string"

def kind : Value → Kind
  | .bool _ => .bool
  | .integer _ => .integer
  | .float _ => .float
  | .string _ | .formatted _ => .string

/-- The text of a string or a preformatted text. -/
def text? : Value → Option String
  | .string s | .formatted s => some s
  | _ => none

/-- The text that a template shows for the value. -/
def text : Value → String
  | .bool b => if b then "true" else "false"
  | .integer n => toString n.toInt
  | .float x => Decimal.Layout.plain.render x
  | .string s | .formatted s => s

/-- The value with its constructor, strings quoted and floats with a point or an exponent. -/
def inspect : Value → String
  | .bool b => "Bool(" ++ (if b then "true" else "false") ++ ")"
  | .integer n => "Integer(" ++ toString n.toInt ++ ")"
  | .float x => "Float(" ++ Decimal.Layout.exact.render x ++ ")"
  | .string s => "String(" ++ Text.quoted '"' s ++ ")"
  | .formatted s => "Formatted(" ++ Text.quoted '"' s ++ ")"

end Value

/-- The 64-bit integer equal to `n`, if there is one. -/
def narrow? (n : Int) : Option Int64 :=
  if Int64.minValue.toInt ≤ n ∧ n ≤ Int64.maxValue.toInt then some (Int64.ofInt n) else none

theorem narrow?_toInt (n : Int64) : narrow? n.toInt = some n := by
  have h := And.intro n.minValue_le_toInt n.toInt_le
  simp only [narrow?]
  rw [if_pos h, Int64.ofInt_toInt]

theorem toInt_of_narrow? {n : Int} {m : Int64} (h : narrow? n = some m) : m.toInt = n := by
  simp only [narrow?] at h
  split at h
  · rename_i hn
    cases h
    exact Int64.toInt_ofInt_of_le hn.1 (Int.lt_add_one_of_le hn.2)
  · cases h

end Stencil
