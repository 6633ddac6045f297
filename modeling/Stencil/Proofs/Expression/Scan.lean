/-
Texts and their tokens.

`Lexes` says that a text is cut into tokens to its end. `Scans` is for parts of a text: a part that
is cut in the same way whatever stands behind it, so that parts can be put together.
-/
import Stencil.Expression.Scan

namespace Stencil.Expression

variable [Text.Alphabet]

/-- Whether a text is cut into tokens to its end, these being the ones that are not blank. -/
structure Lexes (text : List Char) (tokens : List Token) : Prop where
  failure?_eq : (scan text).failure? = none
  tokens_eq : (scan text).significant.tokens = tokens

/-- Whether a text that starts at a byte position and has `rest` behind it is cut into these tokens,
and `rest` by itself. -/
def ScansBefore (rest : List Char) (start : Nat) (text : List Char) (tokens : List Token) : Prop :=
  scanFrom start (text ++ rest) =
    ⟨tokens ++ (scanFrom (start + Text.byteSize text) rest).tokens,
      (scanFrom (start + Text.byteSize text) rest).failure?⟩

namespace ScansBefore

variable {start : Nat} {rest text other : List Char} {tokens others : List Token}

theorem append (h : ScansBefore (other ++ rest) start text tokens)
    (h' : ScansBefore rest (start + Text.byteSize text) other others) :
    ScansBefore rest start (text ++ other) (tokens ++ others) := by
  rw [ScansBefore] at *
  rw [List.append_assoc, h, h', Text.byteSize_append, ← Nat.add_assoc, List.append_assoc]

theorem token (start : Nat) {kind : Token.Kind} {c : Char} {more : List Char}
    (h : head c (more ++ rest) = .token kind more.length) :
    ScansBefore rest start (c :: more) [⟨kind, c :: more, start⟩] := by
  have htake : (more ++ rest).take more.length = more := List.take_left
  have hdrop : (more ++ rest).drop more.length = rest := List.drop_left
  rw [ScansBefore, List.cons_append, scanFrom]
  simp only [h, htake, hdrop, Token.span, List.singleton_append]

theorem scan_eq (h : ScansBefore [] 0 text tokens) : scan text = ⟨tokens, none⟩ := by
  rw [ScansBefore, List.append_nil, scanFrom, List.append_nil] at h
  exact h

/-- Blank tokens are left out. -/
theorem lexes (h : ScansBefore [] 0 text tokens) :
    Lexes text (tokens.filter fun t => t.kind != .blank) := by
  refine ⟨?_, ?_⟩ <;> rw [h.scan_eq]
  rfl

end ScansBefore

/-- Whether a text that starts at a byte position is cut into these tokens, whatever stands behind
it. -/
def Scans (start : Nat) (text : List Char) (tokens : List Token) : Prop :=
  ∀ rest, ScansBefore rest start text tokens

namespace Scans

variable {start : Nat} {text other : List Char} {tokens others : List Token}

theorem append (h : Scans start text tokens)
    (h' : Scans (start + Text.byteSize text) other others) :
    Scans start (text ++ other) (tokens ++ others) :=
  fun rest => (h (other ++ rest)).append (h' rest)

/-- A token that does not depend on what follows. -/
theorem token (start : Nat) {kind : Token.Kind} {c : Char} {more : List Char}
    (h : ∀ rest, head c (more ++ rest) = .token kind more.length) :
    Scans start (c :: more) [⟨kind, c :: more, start⟩] :=
  fun rest => .token start (h rest)

theorem lexes (h : Scans 0 text tokens) (hblank : ∀ t ∈ tokens, t.kind ≠ .blank) :
    Lexes text tokens := by
  have hlexes := (h []).lexes
  rwa [List.filter_eq_self.2 fun t ht => bne_iff_ne.2 (hblank t ht)] at hlexes

end Scans

end Stencil.Expression
