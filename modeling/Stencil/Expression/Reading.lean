/-
From tokens to trees.

The reader takes one operand and then climbs: as long as the next operator binds at least as
tightly as asked, it takes the right side, made of tighter operators only, and goes on from the
joined tree, so that operators of one level associate to the left.

`room` is the number of levels that are left. Every prefix operator, parenthesis and binary
operator takes one for what follows it; a chain gives its levels back where it ends. Since every
call works in less room than its caller, both functions recurse on it.
-/
import Stencil.Expression.Scan
import Stencil.Expression.Literal

namespace Stencil.Expression

/-- What there is after the last token: the failure of the scan or the end of the text. -/
structure Ending where
  failure? : Option Failure
  /-- The byte position of the end of the text. -/
  size : Nat

/-- The failure to report if something is expected after the last token. -/
def Ending.missing (ending : Ending) (expected : Expected) : Failure :=
  ending.failure?.getD ⟨.unexpected expected none, ending.size, ending.size⟩

/-- A tree and the tokens after it. -/
abbrev Read := Except Failure (Tree × List Token)

mutual

/-- Reads prefix operators and then a literal or an expression in parentheses. -/
def operand (ending : Ending) (room : Nat) (tokens : List Token) : Read :=
  match tokens with
  | [] => .error (ending.missing .expression)
  | t :: rest =>
    match t.unary? with
    | some op =>
      match room with
      | 0 => .error ⟨.nestedTooDeep, t.span⟩
      | room + 1 => do
        let (tree, rest) ← operand ending room rest
        return (.unary op tree (t.span.join tree.span), rest)
    | none =>
      if t.kind = .openParen then
        match room with
        | 0 => .error ⟨.nestedTooDeep, t.span⟩
        | room + 1 => do
          let (first, rest) ← operand ending room rest
          let (tree, rest) ← climb ending room 0 first rest
          match rest with
          | [] => .error (ending.missing .closeParen)
          | u :: rest =>
            if u.kind = .closeParen then .ok (tree, rest)
            else .error ⟨.unexpected .closeParen (some u.kind), u.span⟩
      else do
        let value ← t.value
        return (.literal value t.span, rest)

/-- Reads operators of the level `least` or above, each with its right side, and joins them to the
tree `left`. -/
def climb (ending : Ending) (room least : Nat) (left : Tree) (tokens : List Token) : Read :=
  match tokens with
  | [] =>
    match ending.failure? with
    | some failure => .error failure
    | none => .ok (left, [])
  | t :: rest =>
    match t.binary? with
    | none => .ok (left, t :: rest)
    | some op =>
      if op.level < least then .ok (left, t :: rest)
      else
        match room with
        | 0 => .error ⟨.nestedTooDeep, t.span⟩
        | room + 1 => do
          let (first, rest) ← operand ending room rest
          let (right, rest) ← climb ending room (op.level + 1) first rest
          climb ending room least (.binary op left right (left.span.join right.span)) rest

end

/-- Reads an expression of operators of the level `least` or above. -/
def expression (ending : Ending) (room least : Nat) (tokens : List Token) : Read := do
  let (first, rest) ← operand ending room tokens
  climb ending room least first rest

/-- The tree of a text that is one expression. -/
def parse [Text.Alphabet] (text : List Char) : Except Failure Tree := do
  let scan := (scan text).significant
  let (tree, rest) ← expression ⟨scan.failure?, Text.byteSize text⟩ deepest 0 scan.tokens
  match rest with
  | [] => return tree
  | t :: _ => throw ⟨.unexpected .operator (some t.kind), t.span⟩

end Stencil.Expression
