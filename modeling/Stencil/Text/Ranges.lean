/-
Sets of characters given by a table: a list of inclusive ranges of code points. The tables of
character properties are values of this one type, so that every property is looked up the same way.
-/

namespace Stencil.Text

/-- A set of characters as inclusive ranges of code points. -/
abbrev Ranges := List (Nat × Nat)

/-- Whether some range of the table holds the character. -/
def Ranges.contains (table : Ranges) (c : Char) : Bool :=
  table.any fun range => range.1 ≤ c.toNat && c.toNat ≤ range.2

end Stencil.Text
