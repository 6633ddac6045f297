/-
How a number is laid out as text, given its shortest digits.

A `Layout` says which exponents are written positionally and whether a whole number keeps a point
and a zero. The two layouts of the library are `plain`, which never uses an exponent, and `exact`,
which shows that the number is not an integer.
-/
import Stencil.Decimal.Shortest

namespace Stencil.Decimal

/-- The decisions that a layout of numbers takes. -/
structure Layout where
  /-- Whether a number whose first digit stands for `10 ^ e` is written without an exponent. -/
  isPositional : Int → Bool
  /-- Whether a whole number written without an exponent ends in a point and a zero. -/
  keepsPoint : Bool

/-- All digits in their places, a whole number without a point. -/
def Layout.plain : Layout := ⟨fun _ => true, false⟩

/-- Digits in their places from `10 ^ -4` to below `10 ^ 16`, else an exponent; a whole number in
its places keeps a point and a zero. -/
def Layout.exact : Layout := ⟨fun e => -4 ≤ e && e < 16, true⟩

/-- The exponent of the first digit of a number. -/
def leadingExponent (d : Decimal) : Int :=
  (Nat.toDigits 10 d.coefficient).length + d.exponent - 1

/-- The digits in their places. -/
def Layout.positional (layout : Layout) (d : Decimal) : List Char :=
  let digits := Nat.toDigits 10 d.coefficient
  if 0 ≤ d.exponent then
    digits ++ List.replicate d.exponent.toNat '0' ++ if layout.keepsPoint then ['.', '0'] else []
  else
    let places := (-d.exponent).toNat
    let padded := List.replicate (places + 1 - digits.length) '0' ++ digits
    padded.take (padded.length - places) ++ '.' :: padded.drop (padded.length - places)

/-- One digit, the others after a point, and the exponent. -/
def scientific (d : Decimal) : List Char :=
  let digits := Nat.toDigits 10 d.coefficient
  let fraction := digits.drop 1
  digits.take 1 ++ (if fraction.isEmpty then [] else '.' :: fraction)
    ++ 'e' :: (toString (leadingExponent d)).toList

/-- The text of a decimal number. -/
def Layout.decimal (layout : Layout) (d : Decimal) : List Char :=
  if layout.isPositional (leadingExponent d) then layout.positional d else scientific d

/-- The text of a binary64 number. A minus sign stands in front of every negative number, zero
included; a value that is not a number has no sign. -/
def Layout.render (layout : Layout) (x : Float) : String :=
  let signed (negative : Bool) (text : List Char) :=
    String.ofList (if negative then '-' :: text else text)
  match parts x with
  | .notANumber => "NaN"
  | .infinite negative => signed negative ['i', 'n', 'f']
  | .finite negative m => signed negative (layout.decimal m.shortest)

end Stencil.Decimal
