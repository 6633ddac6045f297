/-
Blank characters, and trimming a text at either end.

Blank means the Unicode property `White_Space`: twenty-five characters, among them the line
terminators and the no-break spaces, but not the zero-width space.
`dropEnd_append` and `dropEnd_append_of_all` say what trimming the end keeps of two joined texts.
-/
import Stencil.Text.Ranges

namespace Stencil.Text

/-- The characters with the property `White_Space`. -/
def whiteSpace : Ranges :=
  [(0x09, 0x0D), (0x20, 0x20), (0x85, 0x85), (0xA0, 0xA0), (0x1680, 0x1680), (0x2000, 0x200A),
   (0x2028, 0x2029), (0x202F, 0x202F), (0x205F, 0x205F), (0x3000, 0x3000)]

def isBlank (c : Char) : Bool := whiteSpace.contains c

/-- The text without the characters at its end that satisfy `p`. -/
def dropEnd (p : Char → Bool) : List Char → List Char
  | [] => []
  | c :: rest =>
    match dropEnd p rest with
    | [] => if p c then [] else [c]
    | kept => c :: kept

/-- The text without the characters at either end that satisfy `p`. -/
def strip (p : Char → Bool) (text : List Char) : List Char :=
  dropEnd p (text.dropWhile p)

theorem dropEnd_cons (p : Char → Bool) (c : Char) (rest : List Char) :
    dropEnd p (c :: rest) =
      if dropEnd p rest = [] ∧ p c = true then [] else c :: dropEnd p rest := by
  rw [dropEnd]
  cases dropEnd p rest with
  | nil => by_cases h : p c = true <;> simp [h]
  | cons d t => simp

theorem dropEnd_eq_nil_iff {p : Char → Bool} {text : List Char} :
    dropEnd p text = [] ↔ ∀ c ∈ text, p c = true := by
  induction text with
  | nil => simp [dropEnd]
  | cons c rest ih => rw [dropEnd_cons, List.forall_mem_cons, ← ih]; grind

theorem dropEnd_subset (p : Char → Bool) (text : List Char) : dropEnd p text ⊆ text := by
  induction text with
  | nil => exact List.Subset.refl _
  | cons c rest ih =>
    rw [dropEnd_cons]
    split
    · exact List.nil_subset _
    · exact List.cons_subset_cons c ih

theorem strip_subset (p : Char → Bool) (text : List Char) : strip p text ⊆ text :=
  List.Subset.trans (dropEnd_subset p _) (List.dropWhile_sublist p).subset

theorem dropEnd_append_of_all {p : Char → Bool} {text tail : List Char}
    (h : ∀ c ∈ tail, p c = true) : dropEnd p (text ++ tail) = dropEnd p text := by
  induction text with
  | nil => simpa [dropEnd] using dropEnd_eq_nil_iff.2 h
  | cons c rest ih => rw [List.cons_append, dropEnd_cons, dropEnd_cons, ih]

theorem dropEnd_append {p : Char → Bool} {text tail : List Char} (h : dropEnd p tail ≠ []) :
    dropEnd p (text ++ tail) = text ++ dropEnd p tail := by
  induction text with
  | nil => rfl
  | cons c rest ih => rw [List.cons_append, dropEnd_cons, ih]; simp [h]

end Stencil.Text
