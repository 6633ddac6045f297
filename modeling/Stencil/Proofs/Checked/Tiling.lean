/-
The tokens of a source, one request after the other.

A request for a token finds the one that starts at the cursor and moves the cursor behind it. At the
end of the source, and where no token fits, the cursor stays, so that from there on every request has
the same answer (`answers_eq`). `Tiles` says that tokens stand side by side in a source and that each
is the longest lexeme at its place. One step of the scan puts one tile in front of the others
(`tile_of_leaves`), and so its tokens tile the source as far as they go (`exists_tiles_scanFrom`).
-/
import Stencil.Proofs.Expression.Lexeme

namespace Stencil.Checked

open Expression Text

/-! ## Requests -/

/-- The answer to a request for a token: the token with its span, nothing, or a failure. -/
abbrev Answer : Type := Except Failure (Option (Token.Kind × Span))

section

variable [Alphabet]

/-- The answer to a request at a cursor, and the cursor afterwards. -/
def request (source : List Char) (cursor : Nat) : Checked (Answer × Nat) := do
  match ← (lex source cursor).run with
  | .ok (some (kind, span)) => return (.ok (some (kind, span)), span.stop)
  | answer => return (answer, cursor)

/-- The answers to so many requests, the first one at a cursor. -/
def answers (source : List Char) : Nat → Nat → Checked (List Answer)
  | 0, _ => return []
  | n + 1, cursor => do
    let (answer, next) ← request source cursor
    return answer :: (← answers source n next)

/-- The answer to the request of this number: a token as long as there are any, and from there on
the failure, or nothing. -/
def answerOf (s : Scan) (i : Nat) : Answer :=
  match s.tokens[i]?, s.failure? with
  | some t, _ => .ok (some (t.kind, t.span))
  | none, none => .ok none
  | none, some failure => .error failure

variable {source rest : List Char} {i : Nat} {c : Char} {t : Token}

theorem request_nil (h : Leaves source i []) : request source i = pure (.ok none, i) := by
  rw [request, lex_nil h]
  rfl

theorem request_cons (h : Leaves source i (c :: rest)) :
    request source i =
      match head c rest with
      | .token kind more =>
        let stop := i + byteSize (c :: rest.take more)
        pure (.ok (some (kind, ⟨i, stop⟩)), stop)
      | .none fault more => pure (.error ⟨fault, i, i + byteSize (c :: rest.take more)⟩, i) := by
  rw [request, lex_cons h]
  cases head c rest <;> rfl

/-- From a position on the answers are the tokens of the scan, and then its end again and again. -/
theorem answers_eq (h : Leaves source i rest) (n : Nat) :
    answers source n i = pure ((List.range n).map (answerOf (scanFrom i rest))) := by
  induction n generalizing i rest with
  | zero => rfl
  | succ n ih =>
    rw [answers, List.range_succ_eq_map, List.map_cons, List.map_map]
    cases rest with
    | nil =>
      have hsame := ih h
      rw [scanFrom] at hsame
      rw [request_nil h, scanFrom]
      simp only [pure_bind, hsame]
      rfl
    | cons c rest =>
      rw [request_cons h, scanFrom]
      cases hhead : head c rest with
      | none fault more =>
        have hsame := ih h
        rw [scanFrom, hhead] at hsame
        simp only [pure_bind, hsame]
        rfl
      | token kind more =>
        have hrest : Leaves source i (c :: rest.take more ++ rest.drop more) := by
          rwa [List.cons_append, List.take_append_drop]
        have hnext := ih (hrest.append _)
        simp only [pure_bind, hnext]
        rfl

/-! ## Tiles -/

/-- Whether a token stands in a source between two places of it that have a character between them
at least, and what stands at the first one starts with no lexeme that is longer. -/
structure Tile (source : List Char) (t : Token) : Prop where
  lt : t.span.start < t.span.stop
  starts : isBoundary t.span.start source = true
  stops : isBoundary t.span.stop source = true
  text : cut source t.span.start t.span.stop = pure t.text
  takes : ∃ rest, cutFrom source t.span.start = pure (t.text ++ rest) ∧
    IsLongest t.kind t.text (t.text ++ rest) ∧
    ∀ c ∈ rest.head?, (t.kind = .blank → isBlank c = false) ∧
      (t.kind = .word → isIdentifierPart c = false)

/-- Whether tokens are tiles side by side, from one position of a source to another. -/
inductive Tiles (source : List Char) : Nat → List Token → Nat → Prop
  | nil (i : Nat) : Tiles source i [] i
  | cons {t : Token} {tokens : List Token} {stop : Nat} (ht : Tile source t)
      (h : Tiles source t.span.stop tokens stop) : Tiles source t.span.start (t :: tokens) stop

theorem tile_of_leaves (h : Leaves source t.start (t.text ++ rest))
    (hlongest : IsLongest t.kind t.text (t.text ++ rest)) : Tile source t where
  lt := by
    obtain ⟨c, more, htext⟩ := List.exists_cons_of_ne_nil hlongest.lexeme.ne_nil
    have hpos := c.utf8Size_pos
    simp only [Token.span, htext, byteSize_cons]
    omega
  starts := h.isBoundary_eq
  stops := (h.append t.text).isBoundary_eq
  text := h.cut_eq rfl
  takes := by
    refine ⟨rest, h.cutFrom_eq, hlongest, fun c hc => ?_⟩
    obtain ⟨more, rfl⟩ := List.head?_eq_some_iff.1 hc
    refine ⟨fun hkind => ?_, fun hkind => ?_⟩
    · rw [hkind] at hlongest
      exact hlongest.not_isBlank
    · rw [hkind] at hlongest
      exact hlongest.not_isIdentifierPart

/-! ## The tokens of a source -/

/-- What is left behind the tokens: nothing, or else a text that starts with no lexeme, which is
where the failure is. -/
def Ends (stop : Nat) (left : List Char) : Option Failure → Prop
  | none => left = []
  | some failure => failure.span.start = stop ∧ left ≠ [] ∧ StartsNone left

variable [LawfulAlphabet]

theorem exists_tiles_scanFrom (h : Leaves source i rest) :
    ∃ stop left, Tiles source i (scanFrom i rest).tokens stop ∧ Leaves source stop left ∧
      Ends stop left (scanFrom i rest).failure? ∧
      (scanFrom i rest).tokens.length + left.length ≤ rest.length := by
  fun_induction scanFrom i rest with
  | case1 start => exact ⟨start, [], .nil start, h, rfl, Nat.le_refl 0⟩
  | case2 start c rest fault more hhead =>
    have hnone := munches_head c rest
    rw [hhead] at hnone
    exact ⟨start, c :: rest, .nil start, h, ⟨rfl, List.cons_ne_nil c rest, hnone⟩, by simp⟩
  | case3 start c rest kind more hhead token after ih =>
    have hlongest := munches_head c rest
    rw [hhead] at hlongest
    have hsplit : c :: rest = token.text ++ rest.drop more := by
      rw [List.cons_append, List.take_append_drop]
    rw [hsplit] at h
    obtain ⟨stop, left, htiles, hleft, hends, hlength⟩ := ih (h.append token.text)
    refine ⟨stop, left, .cons (tile_of_leaves h (hsplit ▸ hlongest)) htiles, hleft, hends, ?_⟩
    have hafter : after.tokens.length + left.length ≤ (rest.drop more).length := hlength
    simp only [List.length_cons, List.length_drop] at hafter ⊢
    omega

/-- From a position on no other tokens can be tiles. -/
theorem Tiles.isPrefix {tokens : List Token} {stop : Nat} (h : Tiles source i tokens stop)
    (hi : Leaves source i rest) : tokens <+: (scanFrom i rest).tokens := by
  induction h generalizing rest with
  | nil => exact List.nil_prefix
  | @cons t tokens stop ht _ ih =>
    obtain ⟨after, hcut, hlongest, -⟩ := ht.takes
    rw [hi.cutFrom_eq, pure_inj] at hcut
    subst hcut
    rw [scanFrom_append hlongest]
    exact List.cons_prefix_cons.2 ⟨rfl, ih (hi.append t.text)⟩

/-- **The tiling of a source.** Over a lawful alphabet, whatever the source is and however often a
token is requested, no text is cut where it must not be. The answers are one token after the other,
and from there on always the same: nothing if the source is at its end, else a failure. The tokens
start at the front of the source, each where the one before it stops. Each starts and stops between
two characters, has one at least, and its text is the longest lexeme, of whatever kind, that the
source has at its place; so no blank character follows blank ones and no character of a word a word.
If there is a failure, it is where the tokens stop, and no lexeme starts there. Tokens are no more
than characters, and fewer if there is a failure. No other tokens tile the source. -/
theorem lexer_tiles_source (source : List Char) :
    (∀ n, answers source n 0 = pure ((List.range n).map (answerOf (scan source)))) ∧
    (∃ stop left, Tiles source 0 (scan source).tokens stop ∧ cutFrom source stop = pure left ∧
      Ends stop left (scan source).failure? ∧
      (scan source).tokens.length + left.length ≤ source.length) ∧
    ∀ tokens stop, Tiles source 0 tokens stop → tokens <+: (scan source).tokens := by
  have hzero := Leaves.zero source
  obtain ⟨stop, left, htiles, hleft, hends, hlength⟩ := exists_tiles_scanFrom hzero
  exact ⟨answers_eq hzero, ⟨stop, left, htiles, hleft.cutFrom_eq, hends, hlength⟩,
    fun _ _ h => h.isPrefix hzero⟩

end

section

open Ascii

/-- The exponent has no digits and is given back, and a bar by itself is no sign. -/
theorem lexer_tiles_number_without_exponent :
    let source := "1.5e+a|".toList
    answers source 5 0 = pure
      [.ok (some (.number, ⟨0, 3⟩)), .ok (some (.word, ⟨3, 4⟩)), .ok (some (.plus, ⟨4, 5⟩)),
        .ok (some (.word, ⟨5, 6⟩)), .error ⟨.unexpectedCharacter, 6, 7⟩] ∧
      Tiles source 0 (scan source).tokens 6 ∧ StartsNone ['|'] := by
  intro source
  obtain ⟨hanswers, ⟨stop, left, htiles, hcut, hends, -⟩, -⟩ := lexer_tiles_source source
  have hfailure : (scan source).failure? = some ⟨.unexpectedCharacter, 6, 7⟩ := by
    decide +kernel
  rw [hfailure] at hends
  obtain ⟨rfl, -, hnone⟩ := hends
  have hbar : cutFrom source 6 = pure ['|'] := by decide +kernel
  rw [hbar, pure_inj] at hcut
  subst hcut
  refine ⟨(hanswers 5).trans ?_, htiles, hnone⟩
  decide +kernel

end

end Stencil.Checked
