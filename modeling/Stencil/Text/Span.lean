/-
Places in a text, counted in bytes of its UTF-8 form.

A `Span` is a pair of byte positions. `takeBytes` and `dropBytes` cut a text at a byte position;
`takeBytes_byteSize_append` and `dropBytes_byteSize_append` say that a cut between two characters
gives back the two parts.
-/

namespace Stencil

namespace Text

/-- The number of bytes of the text in UTF-8. -/
def byteSize : List Char → Nat
  | [] => 0
  | c :: rest => c.utf8Size + byteSize rest

@[simp] theorem byteSize_nil : byteSize [] = 0 := rfl

@[simp] theorem byteSize_cons (c : Char) (rest : List Char) :
    byteSize (c :: rest) = c.utf8Size + byteSize rest := rfl

@[simp] theorem byteSize_append (a b : List Char) :
    byteSize (a ++ b) = byteSize a + byteSize b := by
  induction a with
  | nil => simp
  | cons c rest ih => simp [ih, Nat.add_assoc]

/-- The characters that lie wholly within the first `n` bytes. -/
def takeBytes : Nat → List Char → List Char
  | _, [] => []
  | n, c :: rest => if c.utf8Size ≤ n then c :: takeBytes (n - c.utf8Size) rest else []

/-- The characters that do not lie wholly within the first `n` bytes. -/
def dropBytes : Nat → List Char → List Char
  | _, [] => []
  | n, c :: rest => if c.utf8Size ≤ n then dropBytes (n - c.utf8Size) rest else c :: rest

theorem takeBytes_zero (text : List Char) : takeBytes 0 text = [] := by
  cases text with
  | nil => rfl
  | cons c rest => simp [takeBytes, Nat.ne_of_gt c.utf8Size_pos]

theorem dropBytes_zero (text : List Char) : dropBytes 0 text = text := by
  cases text with
  | nil => rfl
  | cons c rest => simp [dropBytes, Nat.ne_of_gt c.utf8Size_pos]

theorem takeBytes_byteSize_append (a b : List Char) : takeBytes (byteSize a) (a ++ b) = a := by
  induction a with
  | nil => exact takeBytes_zero b
  | cons c rest ih => simp [takeBytes, ih]

theorem dropBytes_byteSize_append (a b : List Char) : dropBytes (byteSize a) (a ++ b) = b := by
  induction a with
  | nil => exact dropBytes_zero b
  | cons c rest ih => simp [dropBytes, ih]

end Text

/-- The part of a text from the byte position `start` up to `stop`. -/
structure Span where
  start : Nat
  stop : Nat
  deriving Repr, DecidableEq

namespace Span

/-- The smallest span that covers both. -/
def join (a b : Span) : Span := ⟨min a.start b.start, max a.stop b.stop⟩

/-- The span of `inner` where `before` stands in front of it. -/
def after (before inner : List Char) : Span :=
  ⟨Text.byteSize before, Text.byteSize before + Text.byteSize inner⟩

/-- The text that the span covers. -/
def slice (span : Span) (text : List Char) : List Char :=
  Text.takeBytes (span.stop - span.start) (Text.dropBytes span.start text)

theorem slice_after (before inner rest : List Char) :
    (after before inner).slice (before ++ inner ++ rest) = inner := by
  rw [List.append_assoc, slice, after, Text.dropBytes_byteSize_append, Nat.add_sub_cancel_left,
    Text.takeBytes_byteSize_append]

end Span

end Stencil
