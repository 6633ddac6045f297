/-
Putting the values of variables into a text.

The variables take turns in their order. Each replaces first its bare token, the sigil and the name,
and then its braced token, with the name in braces, in the text that the ones before it left. So a
value may bring in tokens of later variables, and a name that begins another one takes its place in
the longer token.
-/
import Stencil.Variables

namespace Stencil.Template

/-- Whether the text `first :: others` occurs in a text. -/
def occurs (first : Char) (others : List Char) : List Char → Bool
  | [] => false
  | c :: rest => (c = first && others.isPrefixOf rest) || occurs first others rest

/-- The text with every occurrence of `first :: others` replaced, from left to right; what is put in
is not searched again. -/
def replace (first : Char) (others new : List Char) : List Char → List Char
  | [] => []
  | c :: rest =>
    if c = first ∧ others.isPrefixOf rest then
      new ++ replace first others new (rest.drop others.length)
    else c :: replace first others new rest
termination_by text => text.length
decreasing_by all_goals simp only [List.length_drop, List.length_cons]; omega

/-- A name as it stands after the sigil in a braced token. -/
def braced (name : List Char) : List Char := '{' :: name ++ ['}']

/-- The text with both tokens of one variable replaced. -/
def replaceVariable (sigil : Char) (text : List Char) (entry : Entry) : List Char :=
  let name := entry.1.toList
  if occurs sigil name text || occurs sigil (braced name) text then
    let value := entry.2.text.toList
    replace sigil (braced name) value (replace sigil name value text)
  else text

/-- The text with the tokens of all variables replaced. -/
def substitute (sigil : Char) (vars : Variables) (text : List Char) : List Char :=
  if sigil ∈ text then vars.entries.foldl (replaceVariable sigil) text else text

theorem replace_eq_self_of_not_occurs {first : Char} {others text : List Char} (new : List Char)
    (h : occurs first others text = false) : replace first others new text = text := by
  induction text with
  | nil => simp [replace]
  | cons c rest ih =>
    simp only [occurs, Bool.or_eq_false_iff, Bool.and_eq_false_iff, decide_eq_false_iff_not] at h
    rw [replace, if_neg (by grind), ih h.2]

end Stencil.Template
