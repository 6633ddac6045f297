/-
Cutting an expression into tokens.

`head` looks at the front of a text and says which token stands there, and how many characters after
the first belong to it. `scan` repeats it to the end or to the first place where no token fits. The
reader of tokens meets that failure only when it has used up all tokens in front of it.

`flatten_scanFrom` says that the texts of the tokens, joined, are the text up to that place.
-/
import Stencil.Expression.Fault
import Stencil.Text.Blank
import Stencil.Text.Identifier

namespace Stencil.Expression

open Text

variable [Alphabet]

/-- The number of digits at the front of a text. -/
def digitRun (text : List Char) : Nat := (text.takeWhile Char.isDigit).length

/-- The length of the fraction at the front of a text, a point and a digit at least; else zero. -/
def fractionRun : List Char → Nat
  | '.' :: rest => if digitRun rest = 0 then 0 else 1 + digitRun rest
  | _ => 0

/-- The length of the exponent at the front of a text, a digit at least; else zero. -/
def exponentRun : List Char → Nat
  | 'e' :: rest | 'E' :: rest =>
    let sign := match rest with
      | '+' :: _ | '-' :: _ => 1
      | _ => 0
    if digitRun (rest.drop sign) = 0 then 0 else 1 + sign + digitRun (rest.drop sign)
  | _ => 0

/-- The length of the digits, the fraction and the exponent at the front of a text. -/
def numberRun (text : List Char) : Nat :=
  let whole := digitRun text
  let fraction := fractionRun (text.drop whole)
  whole + fraction + exponentRun (text.drop (whole + fraction))

/-- The number of characters up to and with the quote that ends a string. A backslash takes the next
character with it. -/
def closing? (quote : Char) : List Char → Option Nat
  | [] => none
  | ['\\'] => none
  | '\\' :: _ :: rest => (closing? quote rest).map (· + 2)
  | c :: rest => if c = quote then some 1 else (closing? quote rest).map (· + 1)

/-- A token, or the lack of one, at the front of a text; `more` counts the characters after the
first that belong to it. -/
inductive Head where
  | token (kind : Token.Kind) (more : Nat)
  | none (fault : Fault) (more : Nat)
  deriving Repr, DecidableEq

/-- A sign of two characters `c second`, which is `double`. If something else follows `c`, it is
`single`, or no token at all. -/
def pair (second : Char) (double : Token.Kind) (single : Option Token.Kind) (rest : List Char) :
    Head :=
  match rest, single with
  | d :: _, some kind => if d = second then .token double 1 else .token kind 0
  | d :: _, none => if d = second then .token double 1 else .none .unexpectedCharacter 1
  | [], some kind => .token kind 0
  | [], none => .none .unexpectedCharacter 0

/-- What stands at the front of the text `c :: rest`. -/
def head (c : Char) (rest : List Char) : Head :=
  if c = '(' then .token .openParen 0
  else if c = ')' then .token .closeParen 0
  else if c = '+' then .token .plus 0
  else if c = '-' then .token .minus 0
  else if c = '*' then .token .star 0
  else if c = '/' then .token .slash 0
  else if c = '%' then .token .percent 0
  else if c = '|' then pair '|' .orSign none rest
  else if c = '&' then pair '&' .andSign none rest
  else if c = '=' then pair '=' .equal (some .equal) rest
  else if c = '!' then pair '=' .unequal (some .bang) rest
  else if c = '>' then pair '=' .atLeast (some .greater) rest
  else if c = '<' then
    match rest with
    | '>' :: _ => .token .unequal 1
    | _ => pair '=' .atMost (some .less) rest
  else if c = '"' ∨ c = '\'' then
    match closing? c rest with
    | some n => .token .string n
    | none => .none .undelimitedString rest.length
  else if c.isDigit then .token .number (numberRun rest)
  else if isBlank c then .token .blank (rest.takeWhile isBlank).length
  else if isIdentifierStart c then .token .word (rest.takeWhile isIdentifierPart).length
  else .none .unexpectedCharacter 0

/-- The tokens of a text, and the failure at the place where no further token fits. -/
structure Scan where
  tokens : List Token
  failure? : Option Failure
  deriving Repr, DecidableEq

/-- Scans the text that starts at the byte position `start`. -/
def scanFrom (start : Nat) : List Char → Scan
  | [] => ⟨[], none⟩
  | c :: rest =>
    match head c rest with
    | .none fault more =>
      ⟨[], some ⟨fault, start, start + byteSize (c :: rest.take more)⟩⟩
    | .token kind more =>
      let token : Token := ⟨kind, c :: rest.take more, start⟩
      let after := scanFrom token.span.stop (rest.drop more)
      ⟨token :: after.tokens, after.failure?⟩
termination_by text => text.length
decreasing_by simp only [List.length_drop, List.length_cons]; omega

def scan (text : List Char) : Scan := scanFrom 0 text

/-- The same without blank tokens. -/
def Scan.significant (s : Scan) : Scan :=
  ⟨s.tokens.filter fun t => t.kind != .blank, s.failure?⟩

theorem flatten_scanFrom (start : Nat) (text : List Char) :
    ∃ left, ((scanFrom start text).tokens.map (·.text)).flatten ++ left = text ∧
      (left = [] ↔ (scanFrom start text).failure? = none) := by
  fun_induction scanFrom start text with
  | case1 => exact ⟨[], by simp⟩
  | case2 start c rest fault more h => exact ⟨c :: rest, by simp⟩
  | case3 start c rest kind more h token after ih =>
    obtain ⟨left, hleft, hiff⟩ := ih
    exact ⟨left, by simp [token, after, hleft], hiff⟩

end Stencil.Expression
