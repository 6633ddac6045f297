/-
Which characters a word of the expression language is made of: those with the Unicode properties
`XID_Start` and `XID_Continue`, with `_` and `$` allowed in front as well. `$` does not continue a
word, so `a$b` is two words.

Each version of Unicode gives the properties to more characters, so which have them is a parameter,
an `Alphabet`. What all versions agree on is `LawfulAlphabet`. An alphabet without any data is that of
`Ascii`.
-/
import Stencil.Text.Blank

namespace Stencil.Text

/-- Which characters have the properties `XID_Start` and `XID_Continue`. -/
class Alphabet where
  isXidStart : Char → Bool
  isXidContinue : Char → Bool

/-- Of the ASCII characters the letters start a word, and no blank character does. -/
class LawfulAlphabet [Alphabet] : Prop where
  isXidStart_ascii (c : Char) (h : c.toNat < 128) : Alphabet.isXidStart c = c.isAlpha
  isBlank_eq_false {c : Char} (h : Alphabet.isXidStart c = true) : isBlank c = false

/-- The ASCII letters by their code points. -/
theorem isAlpha_iff {c : Char} :
    c.isAlpha = true ↔ 65 ≤ c.toNat ∧ c.toNat ≤ 90 ∨ 97 ≤ c.toNat ∧ c.toNat ≤ 122 := by
  have halpha : c.isAlpha = (decide (65 ≤ c.toNat ∧ c.toNat ≤ 90) ||
      decide (97 ≤ c.toNat) && decide (c.toNat ≤ 122)) := rfl
  simp [halpha]

namespace Ascii

/-- No characters but those of ASCII. -/
scoped instance : Alphabet where
  isXidStart c := c.isAlpha
  isXidContinue c := c.isAlphanum || c == '_'

scoped instance : LawfulAlphabet where
  isXidStart_ascii _ _ := rfl
  isBlank_eq_false {c} h := by
    have hcode := isAlpha_iff.1 h
    simp [isBlank, Ranges.contains, whiteSpace]
    omega

end Ascii

variable [Alphabet]

/-- A word starts with an underscore, a dollar sign or an `XID_Start` character. -/
def isIdentifierStart (c : Char) : Bool :=
  c == '_' || c == '$' || Alphabet.isXidStart c

/-- A word goes on with any `XID_Continue` character. -/
def isIdentifierPart (c : Char) : Bool := Alphabet.isXidContinue c

end Stencil.Text
