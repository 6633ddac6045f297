/-
The tokens of the condition language.

A token keeps its text and the byte position at which it starts, so that its span is read off it.
Blank runs are tokens too: the tokens of a text, joined, are the text. A word is a keyword if it
spells one, capital and small letters alike.
-/
import Stencil.Text.Span

namespace Stencil.Expression

/-- The kinds of tokens. -/
inductive Token.Kind where
  | openParen
  | closeParen
  | orSign
  | andSign
  | equal
  | unequal
  | less
  | atMost
  | greater
  | atLeast
  | plus
  | minus
  | star
  | slash
  | percent
  | bang
  | blank
  | word
  | number
  | string
  deriving Repr, DecidableEq

/-- How an error message calls a token. -/
def Token.Kind.name : Token.Kind → String
  | .openParen => "open parenthesis"
  | .closeParen => "close parenthesis"
  | .orSign => "`||`"
  | .andSign => "`&&`"
  | .equal => "`==`"
  | .unequal => "`!=`"
  | .less => "`<`"
  | .atMost => "`<=`"
  | .greater => "`>`"
  | .atLeast => "`>=`"
  | .plus => "plus"
  | .minus => "minus"
  | .star => "`*`"
  | .slash => "`/`"
  | .percent => "`%`"
  | .bang => "`!`"
  | .blank => "whitespace"
  | .word => "identifier"
  | .number => "number"
  | .string => "string"

/-- A piece of an expression. -/
structure Token where
  kind : Token.Kind
  text : List Char
  /-- The byte position of the first character. -/
  start : Nat
  deriving Repr, DecidableEq

def Token.span (t : Token) : Span := ⟨t.start, t.start + Text.byteSize t.text⟩

/-- The words with a meaning. -/
inductive Keyword where
  | and
  | or
  | not
  | yes
  | no
  deriving Repr, DecidableEq

namespace Keyword

def spelling : Keyword → String
  | .and => "and"
  | .or => "or"
  | .not => "not"
  | .yes => "true"
  | .no => "false"

def all : List Keyword := [.and, .or, .not, .yes, .no]

/-- The keyword that a word spells. -/
def ofWord? (word : List Char) : Option Keyword :=
  all.find? fun k => k.spelling.toList == word.map Char.toLower

theorem ofWord?_eq_some_iff {word : List Char} {k : Keyword} :
    ofWord? word = some k ↔ word.map Char.toLower = k.spelling.toList := by
  constructor
  · intro h
    have hk := List.find?_some
      (p := fun k : Keyword => k.spelling.toList == word.map Char.toLower) h
    exact (eq_of_beq hk).symm
  · intro h
    cases k <;> simp [ofWord?, all, h, spelling]

end Keyword

/-- The keyword that a token is, if it is a word that spells one. -/
def Token.keyword? (t : Token) : Option Keyword :=
  if t.kind = .word then Keyword.ofWord? t.text else none

end Stencil.Expression
