/-
Binary64 numbers as exact numbers: a finite one is a sign and a natural number times a power of
two.

`parts` reads the bits, `Magnitude.toFloat` writes them, and `remainder` is the exact
remainder of a division truncated toward zero, computed on natural numbers over a common power of
two.
-/

namespace Stencil.Decimal

/-- The number `significand · 2 ^ exponent`. -/
structure Magnitude where
  significand : Nat
  exponent : Int
  deriving Repr, DecidableEq

/-- A binary64 number taken apart. -/
inductive Parts where
  | notANumber
  | infinite (negative : Bool)
  | finite (negative : Bool) (magnitude : Magnitude)
  deriving Repr, DecidableEq

/-- The least exponent of a binary64 number. -/
def leastExponent : Int := -1074

/-- The parts of the number with these 64 bits: a sign, eleven exponent bits and 52 fraction bits.
An exponent field of zero means a fraction without the leading bit. -/
def partsOfBits (bits : Nat) : Parts :=
  let negative := bits / Nat.pow 2 63 % 2 == 1
  let field := bits / Nat.pow 2 52 % Nat.pow 2 11
  let fraction := bits % Nat.pow 2 52
  if field = Nat.pow 2 11 - 1 then
    if fraction = 0 then .infinite negative else .notANumber
  else if field = 0 then .finite negative ⟨fraction, leastExponent⟩
  else .finite negative ⟨Nat.pow 2 52 + fraction, leastExponent + (field - 1 : Nat)⟩

def parts (x : Float) : Parts := partsOfBits x.toBits.toNat

/-- The bits of a magnitude whose significand has at most 53 binary digits and whose exponent is
not below the least one: the significand moves up until it has 53 digits or the exponent is the
least. -/
def Magnitude.toBits (x : Magnitude) : Nat :=
  if x.significand = 0 then 0
  else
    let shift := min (52 - x.significand.log2) (x.exponent - leastExponent).toNat
    let significand := x.significand * Nat.pow 2 shift
    if significand < Nat.pow 2 52 then significand
    else (x.exponent - leastExponent - shift).toNat * Nat.pow 2 52 + significand

/-- The number with this sign and magnitude. -/
def Magnitude.toFloat (negative : Bool) (x : Magnitude) : Float :=
  Float.ofBits (UInt64.ofNat (x.toBits + if negative then Nat.pow 2 63 else 0))

/-- The remainder of two magnitudes: over the smaller of the two exponents both are natural
numbers. -/
def Magnitude.remainder (x y : Magnitude) : Magnitude :=
  let exponent := min x.exponent y.exponent
  let scaled (z : Magnitude) := z.significand * Nat.pow 2 (z.exponent - exponent).toNat
  ⟨scaled x % scaled y, exponent⟩

/-- The remainder of `x / y` truncated toward zero. It has the sign of `x`; there is none for an
infinite `x` or a zero `y`. -/
def remainder (x y : Float) : Float :=
  match parts x, parts y with
  | .finite negative m, .finite _ n =>
    if n.significand = 0 then 0.0 / 0.0 else (m.remainder n).toFloat negative
  | .finite _ _, .infinite _ => x
  | _, _ => 0.0 / 0.0

end Stencil.Decimal
