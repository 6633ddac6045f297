/-
The values that literal tokens stand for.

A number with a point or an exponent is a float, any other an integer, which must fit in 64 bits. In
a string a backslash with one of six characters stands for a character.
-/
import Stencil.Decimal.Numeral
import Stencil.Expression.Fault

namespace Stencil.Expression

/-- The character that a backslash and `c` stand for. -/
def unescape? (c : Char) : Option Char :=
  if c = 'n' then some '\n'
  else if c = 'r' then some '\r'
  else if c = 't' then some '\t'
  else if c = '\\' ∨ c = '"' ∨ c = '\'' then some c
  else none

/-- The text between the quotes of a string; `start` is its byte position. A backslash takes the
next character with it, and both are shown if they stand for nothing. -/
def decode (start : Nat) : List Char → Except Failure (List Char)
  | [] => .ok []
  | ['\\'] => .error ⟨.unknownEscape, start, start + 1⟩
  | '\\' :: c :: rest =>
    match unescape? c with
    | some d => (decode (start + 1 + c.utf8Size) rest).map (d :: ·)
    | none => .error ⟨.unknownEscape, start, start + 1 + c.utf8Size⟩
  | c :: rest => (decode (start + c.utf8Size) rest).map (c :: ·)

/-- The value of a number token. -/
def numberValue (text : List Char) : Except Fault Value :=
  if '.' ∈ text ∨ 'e' ∈ text ∨ 'E' ∈ text then
    .ok (.float (Decimal.ofNumeral text).toFloat)
  else
    match narrow? (Decimal.digitsValue text) with
    | some n => .ok (.integer n)
    | none => .error .integerOutOfRange

/-- The value of a token that should be a literal. -/
def Token.value (t : Token) : Except Failure Value :=
  match t.kind with
  | .number => (numberValue t.text).mapError fun fault => ⟨fault, t.span⟩
  | .string =>
    (decode (t.start + 1) (t.text.drop 1).dropLast).map fun s => .string (String.ofList s)
  | .word =>
    match t.keyword? with
    | some .yes => .ok (.bool true)
    | some .no => .ok (.bool false)
    | some keyword => .error ⟨.unexpectedKeyword keyword, t.span⟩
    | none => .error ⟨.unknownIdentifier, t.span⟩
  | kind => .error ⟨.unexpected .expression (some kind), t.span⟩

end Stencil.Expression
