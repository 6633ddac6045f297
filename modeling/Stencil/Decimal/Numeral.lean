/-
Reading decimal numerals: digits, perhaps a point and digits, perhaps an exponent.

`ofNumeral` is total and reads the longest numeral at the front of a text; `read?` also checks that
nothing else is there, and knows signs and the two names of values without digits.
-/
import Stencil.Decimal.Shortest

namespace Stencil.Decimal

/-- The number that a run of digits spells. -/
def digitsValue (digits : List Char) : Nat :=
  digits.foldl (fun n d => 10 * n + (d.toNat - '0'.toNat)) 0

/-- The digits at the front of a text, and the rest. -/
def spanDigits (text : List Char) : List Char × List Char :=
  text.span Char.isDigit

/-- A point at the front of a text and the digits after it, and the rest. -/
def spanFraction : List Char → List Char × List Char
  | '.' :: rest => spanDigits rest
  | rest => ([], rest)

/-- The exponent at the front of a text, and the rest: `e` or `E`, perhaps a sign, and a digit at
least. Without it the exponent is zero and the rest is all. -/
def spanExponent (text : List Char) : Int × List Char :=
  match text with
  | [] => (0, [])
  | e :: rest =>
    if e = 'e' ∨ e = 'E' then
      let (negative, unsigned) : Bool × List Char :=
        match rest with
        | '-' :: r => (true, r)
        | '+' :: r => (false, r)
        | r => (false, r)
      match spanDigits unsigned with
      | ([], _) => (0, text)
      | (digits, after) =>
        (if negative then -(digitsValue digits : Int) else digitsValue digits, after)
    else (0, text)

/-- The number that digits before and after a point and an exponent stand for. -/
def ofDigits (whole fraction : List Char) (exponent : Int) : Decimal :=
  ⟨digitsValue (whole ++ fraction), exponent - fraction.length⟩

/-- The number at the front of a text that starts with a digit. -/
def ofNumeral (text : List Char) : Decimal :=
  let (whole, afterWhole) := spanDigits text
  let (fraction, afterFraction) := spanFraction afterWhole
  ofDigits whole fraction (spanExponent afterFraction).1

/-- The number of a text that is a numeral and nothing else. A point may stand without digits on one
side of it. -/
def ofNumeral? (text : List Char) : Option Decimal :=
  let (whole, afterWhole) := spanDigits text
  let (fraction, afterFraction) := spanFraction afterWhole
  let (exponent, rest) := spanExponent afterFraction
  if rest.isEmpty && !(whole.isEmpty && fraction.isEmpty) then
    some (ofDigits whole fraction exponent)
  else none

/-- The nearest binary64 number. A number of `10 ^ 310` or more is infinite and one below
`10 ^ -330` is zero, whatever their digits. -/
def toFloat (d : Decimal) : Float :=
  if d.coefficient = 0 then 0.0
  else if 310 < leading then 1.0 / 0.0
  else if leading < -330 then 0.0
  else Float.ofScientific d.coefficient (d.exponent < 0) d.exponent.natAbs
where
  leading : Int := (Nat.toDigits 10 d.coefficient).length + d.exponent

/-- The nearest binary32 number, as a binary64 number. -/
def toSingle (d : Decimal) : Float :=
  if d.coefficient = 0 then 0.0
  else if 50 < leading then 1.0 / 0.0
  else if leading < -60 then 0.0
  else (Float32.ofScientific d.coefficient (d.exponent < 0) d.exponent.natAbs).toFloat
where
  leading : Int := (Nat.toDigits 10 d.coefficient).length + d.exponent

/-- The number that a text spells, with `rounding` from decimal to binary: a sign may stand in
front, and `inf`, `infinity` and `nan` are known in capital or small letters. -/
def read? (rounding : Decimal → Float) (text : String) : Option Float :=
  match text.toList with
  | '-' :: rest => (magnitude? rest).map (-·)
  | '+' :: rest => magnitude? rest
  | rest => magnitude? rest
where
  magnitude? (text : List Char) : Option Float :=
    let word := String.ofList (text.map Char.toLower)
    if word = "inf" ∨ word = "infinity" then some (1.0 / 0.0)
    else if word = "nan" then some (0.0 / 0.0)
    else (ofNumeral? text).map rounding

end Stencil.Decimal
