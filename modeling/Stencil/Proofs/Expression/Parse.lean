/-
Texts and the grammar.

A text is read just if it is cut into tokens to its end and these are the tokens of a phrase that
needs no more room than there is (`parse_eq_ok_iff`). Tokens have one tree at most
(`tree_eq_of_tokens_eq`). Every level that a phrase needs is taken by a token of its own, so phrases
with few operators and parentheses are read whatever their form.
-/
import Stencil.Proofs.Expression.Reading
import Stencil.Proofs.Expression.Scan

namespace Stencil.Expression

namespace Phrase

variable {p q : Phrase}

/-- Phrases with equal tokens have equal trees: the reader would read either. -/
theorem tree_eq_of_tokens_eq (hp : p.Fits .disjunction) (hq : q.Fits .disjunction)
    (h : p.tokens = q.tokens) : p.tree = q.tree := by
  have hread {p : Phrase} (hp : p.Fits .disjunction) {room : Nat} (hroom : p.nesting ≤ room) :
      expression ⟨none, 0⟩ room 0 p.tokens = .ok (p.tree, []) := by
    have hstops : (⟨none, 0⟩ : Ending).Stops 0 [] := rfl
    have hread := (p.reads.2 0 (fits_disjunction_iff.1 hp) ⟨none, 0⟩ room []
      fun _ _ _ _ _ => rfl).1 hroom
    rw [List.append_nil, climb_of_stops hstops] at hread
    exact hread
  have hpread := hread hp (Nat.le_max_left p.nesting q.nesting)
  have hqread := hread hq (Nat.le_max_right p.nesting q.nesting)
  rw [h, hqread] at hpread
  exact (congrArg Prod.fst (Except.ok.inj hpread)).symm

end Phrase

/-- Whether a token is an operator. -/
def Token.isOperator (t : Token) : Bool := t.unary?.isSome || t.binary?.isSome

/-- Whether a token is an operator or an open parenthesis. -/
def Token.nests (t : Token) : Bool := t.isOperator || t.kind == .openParen

theorem Phrase.nesting_le_countP {p : Phrase} {least : Nat} (h : p.Stands least) :
    p.nesting ≤ p.tokens.countP Token.nests := by
  induction p generalizing least with
  | literal t v => exact Nat.zero_le _
  | group o p c ih =>
    have ho : o.nests = true := by simp [Token.nests, h.1]
    have hp := ih h.2.2
    rw [tokens, nesting, List.countP_cons_of_pos ho, List.countP_append]
    omega
  | prefixed t op p ih =>
    have ht : t.nests = true := by simp [Token.nests, Token.isOperator, h.2.1]
    have hp := ih h.2.2
    rw [tokens, nesting, List.countP_cons_of_pos ht]
    omega
  | joined l t op r ihl ihr =>
    have ht : t.nests = true := by simp [Token.nests, Token.isOperator, h.2.1]
    have hl := ihl h.2.2.1
    have hr := ihr h.2.2.2
    have hops := l.ops_le_nesting
    rw [tokens, nesting, List.countP_append, List.countP_cons_of_pos ht]
    omega

/-! ## Texts -/

section

variable [Text.Alphabet]

/-- Whether a text is a phrase of the grammar. -/
structure Phrase.IsOf (p : Phrase) (text : List Char) : Prop where
  fits : p.Fits .disjunction
  lexes : Lexes text p.tokens

variable {text : List Char} {tree : Tree} {p : Phrase}

theorem parse_eq_bind (text : List Char) :
    parse text =
      expression ⟨(scan text).failure?, Text.byteSize text⟩ deepest 0
        (scan text).significant.tokens >>= fun r =>
          match r.2 with
          | [] => .ok r.1
          | t :: _ => .error ⟨.unexpected .operator (some t.kind), t.span⟩ := rfl

/-- What the reader makes of a text that is a phrase. -/
theorem Phrase.IsOf.expression (h : p.IsOf text) :
    (p.nesting ≤ deepest →
      expression ⟨(scan text).failure?, Text.byteSize text⟩ deepest 0
        (scan text).significant.tokens = .ok (p.tree, [])) ∧
    (deepest < p.nesting →
      TooDeep (expression ⟨(scan text).failure?, Text.byteSize text⟩ deepest 0
        (scan text).significant.tokens)) := by
  have hstops (level : Nat) :
      (⟨(scan text).failure?, Text.byteSize text⟩ : Ending).Stops level [] := h.lexes.failure?_eq
  have hreads := p.reads.2 0 (Phrase.fits_disjunction_iff.1 h.fits) _ deepest []
    fun _ _ _ _ _ => hstops _
  rw [List.append_nil, ← h.lexes.tokens_eq, climb_of_stops (hstops 0)] at hreads
  exact hreads

/-- A text is read just if it is a phrase that there is room for. -/
theorem parse_eq_ok_iff :
    parse text = .ok tree ↔ ∃ p : Phrase, p.IsOf text ∧ p.tree = tree ∧ p.nesting ≤ deepest := by
  rw [parse_eq_bind]
  constructor
  · intro h
    obtain ⟨⟨tree', rest⟩, hread, hresult⟩ := bind_eq_ok_iff.1 h
    cases rest with
    | cons t rest => cases hresult
    | nil =>
      cases hresult
      obtain ⟨p, hp, htokens, htree, hstops⟩ := expression_sound (Nat.zero_le 7) hread
      rw [List.append_nil] at htokens
      have hphrase : p.IsOf text := ⟨Phrase.fits_disjunction_iff.2 hp, hstops, htokens.symm⟩
      refine ⟨p, hphrase, htree, Nat.not_lt.1 fun hdeep => ?_⟩
      exact (hphrase.expression.2 hdeep).ne_ok hread
  · rintro ⟨p, hp, rfl, hroom⟩
    rw [hp.expression.1 hroom]
    rfl

/-- A phrase that there is no room for is refused for that reason. -/
theorem tooDeep_parse (hp : p.IsOf text) (hdeep : deepest < p.nesting) : TooDeep (parse text) := by
  rw [parse_eq_bind]
  exact (hp.expression.2 hdeep).bind _

/-- **The reader knows the grammar.** A text that is read is cut into tokens to its end, and the
grammar derives the tree from them; where the grammar derives a tree from the tokens of a text, few
of them operators and open parentheses, the text is read as that tree; and from any tokens the
grammar derives one tree at most. -/
theorem parse_matches_grammar (text : List Char) :
    (∀ tree, parse text = .ok tree →
      ∃ tokens, Lexes text tokens ∧ Derives .disjunction tokens tree) ∧
    (∀ tokens tree, Lexes text tokens → Derives .disjunction tokens tree →
      tokens.countP Token.nests ≤ 256 → parse text = .ok tree) ∧
    (∀ tokens tree tree', Derives .disjunction tokens tree → Derives .disjunction tokens tree' →
      tree = tree') := by
  refine ⟨fun tree h => ?_, fun tokens tree hlexes hderives hcount => ?_,
    fun tokens tree tree' h h' => ?_⟩
  · obtain ⟨p, hp, htree, -⟩ := parse_eq_ok_iff.1 h
    exact ⟨p.tokens, hp.lexes, p, hp.fits, rfl, htree⟩
  · obtain ⟨p, hp, rfl, htree⟩ := hderives
    have hnesting := Phrase.nesting_le_countP hp.stands
    exact parse_eq_ok_iff.2 ⟨p, ⟨hp, hlexes⟩, htree, Nat.le_trans hnesting hcount⟩
  · obtain ⟨p, hp, htokens, rfl⟩ := h
    obtain ⟨q, hq, htokens', rfl⟩ := h'
    exact Phrase.tree_eq_of_tokens_eq hp hq (htokens.trans htokens'.symm)

end

section

open Text.Ascii

/-- A prefix operator, a word in capital letters, parentheses and two levels. -/
theorem parse_not_or :
    let tree : Tree :=
      .binary (.connective .or)
        (.unary .not (.binary (.comparison .equal) (.literal (.integer 1) ⟨5, 6⟩)
          (.literal (.integer 2) ⟨9, 10⟩) ⟨5, 10⟩) ⟨0, 10⟩)
        (.literal (.bool true) ⟨15, 19⟩) ⟨0, 19⟩
    parse "NOT (1 = 2) || True".toList = .ok tree := by
  intro tree
  have hone : (⟨.number, ['1'], 5⟩ : Token).Denotes (.integer 1) :=
    .integer rfl (by decide) (by decide)
  have htwo : (⟨.number, ['2'], 9⟩ : Token).Denotes (.integer 2) :=
    .integer rfl (by decide) (by decide)
  have hyes : (⟨.word, "True".toList, 15⟩ : Token).Denotes (.bool true) :=
    .yes ⟨rfl, by decide +kernel⟩
  have hequal : (⟨.equal, ['='], 7⟩ : Token).Joins .equality (.comparison .equal) :=
    .inl (by decide)
  have hor : (⟨.orSign, ['|', '|'], 12⟩ : Token).Joins .disjunction (.connective .or) :=
    .inl (by decide)
  have hnot : (⟨.word, "NOT".toList, 0⟩ : Token).Prefixes .not := .word ⟨rfl, by decide +kernel⟩
  have hinner := Phrase.Fits.joined hequal ((Phrase.Fits.literal hone).loosen (by decide))
    ((Phrase.Fits.literal htwo).loosen (by decide))
  have hgroup := Phrase.Fits.group (o := ⟨.openParen, ['('], 4⟩) (c := ⟨.closeParen, [')'], 10⟩)
    rfl rfl (hinner.loosen (by decide))
  have hleft := Phrase.Fits.prefixed hnot (hgroup.loosen (by decide))
  have hwhole := Phrase.Fits.joined hor (hleft.loosen (by decide))
    ((Phrase.Fits.literal hyes).loosen (by decide))
  exact (parse_matches_grammar _).2.1 _ tree ⟨by decide +kernel, by decide +kernel⟩
    ⟨_, hwhole, rfl, rfl⟩ (by decide +kernel)

end

end Stencil.Expression
