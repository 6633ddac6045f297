/-
The decimal number with the fewest digits that still identifies a binary64 number.

A decimal reads back to a magnitude when it lies in the interval of the numbers that are rounded to
it: from half way to the neighbour below to half way to the neighbour above, the ends included when
the significand is even. For one digit, two digits and so on, the two decimals next to the magnitude
are tried; the first digit count with a hit wins. All comparisons are between natural numbers.
-/
import Stencil.Decimal.Binary

namespace Stencil

/-- The number `coefficient · 10 ^ exponent`. -/
structure Decimal where
  coefficient : Nat
  exponent : Int
  deriving Repr, DecidableEq

namespace Decimal

/-- A magnitude and a power of ten on one scale: `unit` is the power of ten, `quarter` a quarter of
the magnitude's power of two. -/
structure Scale where
  unit : Nat
  quarter : Nat

/-- The common scale of `10 ^ power` and the exponent of `x`. -/
def Magnitude.scale (x : Magnitude) (power : Int) : Scale where
  unit := Nat.pow 10 power.toNat * Nat.pow 2 (2 - x.exponent).toNat
  quarter := Nat.pow 10 (-power).toNat * Nat.pow 2 (x.exponent - 2).toNat

/-- Whether the gap to the neighbour below is half of the gap to the neighbour above. -/
def Magnitude.isNarrowBelow (x : Magnitude) : Bool :=
  x.significand == Nat.pow 2 52 && x.exponent != leastExponent

/-- Whether `n · 10 ^ power` is rounded to `x`. -/
def Magnitude.readsBack (x : Magnitude) (power : Int) (n : Nat) : Bool :=
  let scale := x.scale power
  let low := (4 * x.significand - if x.isNarrowBelow then 1 else 2) * scale.quarter
  let high := (4 * x.significand + 2) * scale.quarter
  let here := n * scale.unit
  if x.significand % 2 = 0 then low ≤ here && here ≤ high else low < here && here < high

/-- Of the two multiples of `10 ^ power` next to `x`, the one that reads back; of two such the
nearer, and the larger one where `x` lies half way between them. -/
def Magnitude.candidate? (x : Magnitude) (power : Int) : Option Nat :=
  let scale := x.scale power
  let here := 4 * x.significand * scale.quarter
  let below := here / scale.unit
  let nearer := if 2 * here < (2 * below + 1) * scale.unit then below else below + 1
  if x.readsBack power nearer then some nearer
  else if x.readsBack power below then some below
  else if x.readsBack power (below + 1) then some (below + 1)
  else none

/-- The least power of ten above `x`, for an `x` that is not zero. No magnitude is below
`10 ^ -324`, so the digits of `x · 10 ^ 324` before the point count it. -/
def Magnitude.power (x : Magnitude) : Int :=
  let scale := x.scale (-324)
  (Nat.toDigits 10 (4 * x.significand * scale.quarter / scale.unit)).length - 324

/-- The same number without zeros at the end of its coefficient, at most `count` of them. -/
def trim : Nat → Decimal → Decimal
  | 0, d => d
  | count + 1, d =>
    if d.coefficient ≠ 0 ∧ d.coefficient % 10 = 0 then
      trim count ⟨d.coefficient / 10, d.exponent + 1⟩
    else d

/-- The shortest decimal of at least `17 - left` digits. Seventeen digits always read back, so the
last trial takes the digits below `x` if no other fits. -/
def Magnitude.search (x : Magnitude) (power : Int) : Nat → Decimal
  | 0 =>
    let last := power - 17
    let scale := x.scale last
    ⟨(x.candidate? last).getD (4 * x.significand * scale.quarter / scale.unit), last⟩
  | left + 1 =>
    let grid := power - (17 - (left + 1 : Nat) : Nat)
    match x.candidate? grid with
    | some n => ⟨n, grid⟩
    | none => x.search power left

/-- The shortest decimal that reads back to `x`. -/
def Magnitude.shortest (x : Magnitude) : Decimal :=
  if x.significand = 0 then ⟨0, 0⟩ else trim 17 (x.search x.power 16)

end Decimal

end Stencil
