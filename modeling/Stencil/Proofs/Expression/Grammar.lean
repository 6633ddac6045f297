/-
The grammar of the condition language.

The grammar has a stratum for each level of binary operators, one for prefix operators and one for
literals and parentheses. A `Phrase` is an expression as it is written; `Fits` has one rule for each
rule of the grammar. On the left of a binary operator stands a phrase of its own stratum, on the
right one of the next, so that operators of a stratum associate to the left.

The reader knows levels, not strata. `fits_iff_stands` says that it is the same.
-/
import Stencil.Expression.Tree
import Stencil.Proofs.Expression.Literal

namespace Stencil.Expression

/-! ## Operators -/

/-- The strata of the grammar, from the loosest operators to the operands. -/
inductive Stratum where
  | disjunction
  | conjunction
  | equality
  | comparison
  | sum
  | product
  | unary
  | primary
  deriving Repr, DecidableEq

namespace Stratum

/-- What the operands of a stratum are made of. -/
def next : Stratum → Stratum
  | .disjunction => .conjunction
  | .conjunction => .equality
  | .equality => .comparison
  | .comparison => .sum
  | .sum => .product
  | .product => .unary
  | .unary => .primary
  | .primary => .primary

/-- The signs of a stratum and the operators that they are. -/
def signs : Stratum → List (Token.Kind × BinaryOp)
  | .disjunction => [(.orSign, .connective .or)]
  | .conjunction => [(.andSign, .connective .and)]
  | .equality => [(.equal, .comparison .equal), (.unequal, .comparison .unequal)]
  | .comparison =>
    [(.less, .comparison .less), (.atMost, .comparison .atMost),
      (.greater, .comparison .greater), (.atLeast, .comparison .atLeast)]
  | .sum => [(.plus, .arithmetic .add), (.minus, .arithmetic .subtract)]
  | .product =>
    [(.star, .arithmetic .multiply), (.slash, .arithmetic .divide),
      (.percent, .arithmetic .remainder)]
  | .unary | .primary => []

/-- The words of a stratum and the operators that they are. -/
def words : Stratum → List (String × BinaryOp)
  | .disjunction => [("or", .connective .or)]
  | .conjunction => [("and", .connective .and)]
  | _ => []

/-- How tightly the operators of a stratum bind. -/
def level : Stratum → Nat
  | .disjunction => 1
  | .conjunction => 2
  | .equality => 3
  | .comparison => 4
  | .sum => 5
  | .product => 6
  | .unary => 7
  | .primary => 8

theorem level_le_eight (s : Stratum) : s.level ≤ 8 := by
  cases s <;> decide

theorem level_le_level_next (s : Stratum) : s.level ≤ s.next.level := by
  cases s <;> decide

theorem level_next {s : Stratum} (h : s.level < 8) : s.next.level = s.level + 1 := by
  cases s <;> first | rfl | exact absurd h (by decide)

theorem eq_of_level_eq {s t : Stratum} (h : s.level = t.level) : s = t := by
  cases s <;> cases t <;> first | rfl | exact absurd h (by decide)

end Stratum

/-- The stratum of an operator. -/
def BinaryOp.stratum : BinaryOp → Stratum
  | .connective .or => .disjunction
  | .connective .and => .conjunction
  | .comparison .equal | .comparison .unequal => .equality
  | .comparison .less | .comparison .atMost | .comparison .greater | .comparison .atLeast =>
    .comparison
  | .arithmetic .add | .arithmetic .subtract => .sum
  | .arithmetic .multiply | .arithmetic .divide | .arithmetic .remainder => .product

theorem BinaryOp.level_stratum (op : BinaryOp) : op.stratum.level = op.level := by
  rcases op with op | op | op <;> cases op <;> rfl

theorem BinaryOp.level_next_stratum (op : BinaryOp) : op.stratum.next.level = op.level + 1 := by
  rcases op with op | op | op <;> cases op <;> rfl

theorem BinaryOp.one_le_level (op : BinaryOp) : 1 ≤ op.level := by
  rcases op with op | op | op <;> cases op <;> decide

theorem BinaryOp.level_le_six (op : BinaryOp) : op.level ≤ 6 := by
  rcases op with op | op | op <;> cases op <;> decide

/-- Whether a token is a binary operator of a stratum. -/
def Token.Joins (t : Token) (s : Stratum) (op : BinaryOp) : Prop :=
  (t.kind, op) ∈ s.signs ∨ ∃ word, (word, op) ∈ s.words ∧ t.IsWord word

/-- The prefix operators. -/
inductive Token.Prefixes (t : Token) : UnaryOp → Prop where
  | bang (hkind : t.kind = .bang) : Prefixes t .not
  | word (hword : t.IsWord "not") : Prefixes t .not
  | minus (hkind : t.kind = .minus) : Prefixes t .negate

theorem Token.unary?_eq_some_iff {t : Token} {op : UnaryOp} :
    t.unary? = some op ↔ t.Prefixes op := by
  constructor
  · intro h
    unfold unary? at h
    split at h
    · rename_i hkind
      cases h
      exact .bang hkind
    · rename_i hkind
      cases h
      exact .minus hkind
    · split at h
      · rename_i hword
        cases h
        exact .word (keyword?_eq_some_iff.1 hword)
      · cases h
    · cases h
  · intro h
    unfold unary?
    cases h with
    | bang hkind => rw [hkind]
    | word hword => rw [hword.1, if_pos (keyword?_eq_some_iff (k := .not).2 hword)]
    | minus hkind => rw [hkind]

theorem Stratum.binary?_of_mem_signs (s : Stratum) :
    ∀ entry ∈ s.signs, entry.2.stratum = s ∧
      ∀ text start, (⟨entry.1, text, start⟩ : Token).binary? = some entry.2 := by
  cases s <;> simp [signs, BinaryOp.stratum, Token.binary?]

theorem Stratum.binary?_of_mem_words (s : Stratum) {word : String} {op : BinaryOp}
    (h : (word, op) ∈ s.words) {t : Token} (ht : t.IsWord word) :
    op.stratum = s ∧ t.binary? = some op := by
  unfold Token.binary?
  rw [ht.1]
  cases s with
  | disjunction =>
    obtain ⟨rfl, rfl⟩ := Prod.mk.inj (List.mem_singleton.1 h)
    rw [Token.keyword?_eq_some_iff (k := .or).2 ht]
    exact ⟨rfl, rfl⟩
  | conjunction =>
    obtain ⟨rfl, rfl⟩ := Prod.mk.inj (List.mem_singleton.1 h)
    rw [Token.keyword?_eq_some_iff (k := .and).2 ht]
    exact ⟨rfl, rfl⟩
  | _ => cases h

/-- The tables of the strata say which operator a token is. -/
theorem Token.joins_iff {t : Token} {s : Stratum} {op : BinaryOp} :
    t.Joins s op ↔ t.binary? = some op ∧ op.stratum = s := by
  constructor
  · rintro (hsign | ⟨word, hword, ht⟩)
    · obtain ⟨hs, hbinary⟩ := s.binary?_of_mem_signs _ hsign
      exact ⟨hbinary t.text t.start, hs⟩
    · obtain ⟨hs, hbinary⟩ := s.binary?_of_mem_words hword ht
      exact ⟨hbinary, hs⟩
  · rintro ⟨h, rfl⟩
    unfold binary? at h
    split at h
    case h_14 hkind =>
      split at h
      · rename_i hword
        cases h
        exact .inr ⟨"or", by decide, keyword?_eq_some_iff.1 hword⟩
      · rename_i hword
        cases h
        exact .inr ⟨"and", by decide, keyword?_eq_some_iff.1 hword⟩
      · cases h
    case h_15 => cases h
    all_goals
      rename_i hkind
      cases h
      refine .inl ?_
      rw [hkind]
      decide

/-! ## Phrases -/

/-- An expression as it is written, parentheses kept. -/
inductive Phrase where
  | literal (token : Token) (value : Value)
  | group (opening : Token) (inner : Phrase) (closing : Token)
  | prefixed (token : Token) (op : UnaryOp) (inner : Phrase)
  | joined (left : Phrase) (token : Token) (op : BinaryOp) (right : Phrase)

namespace Phrase

/-- The tokens of a phrase, in their order. -/
def tokens : Phrase → List Token
  | .literal t _ => [t]
  | .group o p c => o :: (p.tokens ++ [c])
  | .prefixed t _ p => t :: p.tokens
  | .joined l t _ r => l.tokens ++ t :: r.tokens

/-- The tree of a phrase: parentheses leave nothing but the spans. -/
def tree : Phrase → Tree
  | .literal t v => .literal v t.span
  | .group _ p _ => p.tree
  | .prefixed t op p => .unary op p.tree (t.span.join p.tree.span)
  | .joined l _ op r => .binary op l.tree r.tree (l.tree.span.join r.tree.span)

/-- The rules of the grammar: whether a phrase is one of a stratum. -/
inductive Fits : Stratum → Phrase → Prop where
  | literal {t : Token} {v : Value} (ht : t.Denotes v) : Fits .primary (.literal t v)
  | group {o c : Token} {p : Phrase} (ho : o.kind = .openParen) (hc : c.kind = .closeParen)
      (hp : Fits .disjunction p) : Fits .primary (.group o p c)
  | prefixed {t : Token} {op : UnaryOp} {p : Phrase} (ht : t.Prefixes op) (hp : Fits .unary p) :
      Fits .unary (.prefixed t op p)
  | joined {s : Stratum} {t : Token} {op : BinaryOp} {l r : Phrase} (ht : t.Joins s op)
      (hl : Fits s l) (hr : Fits s.next r) : Fits s (.joined l t op r)
  | next {s : Stratum} {p : Phrase} (hp : Fits s.next p) : Fits s p

/-! ## Levels -/

/-- Whether a phrase is one of the grammar, its operators outside parentheses being of the level
`least` or above. -/
def Stands : Nat → Phrase → Prop
  | _, .literal t v => t.Denotes v
  | _, .group o p c => o.kind = .openParen ∧ c.kind = .closeParen ∧ p.Stands 0
  | least, .prefixed t op p => least ≤ 7 ∧ t.unary? = some op ∧ p.Stands 7
  | least, .joined l t op r =>
    least ≤ op.level ∧ t.binary? = some op ∧ l.Stands op.level ∧ r.Stands (op.level + 1)

variable {p : Phrase} {s : Stratum} {least lower : Nat}

theorem Stands.mono (h : p.Stands least) (hle : lower ≤ least) : p.Stands lower := by
  cases p with
  | literal t v => exact h
  | group o p c => exact h
  | prefixed t op p => exact ⟨Nat.le_trans hle h.1, h.2⟩
  | joined l t op r => exact ⟨Nat.le_trans hle h.1, h.2⟩

theorem Stands.one_of_zero (h : p.Stands 0) : p.Stands 1 := by
  cases p with
  | literal t v => exact h
  | group o p c => exact h
  | prefixed t op p => exact ⟨by decide, h.2⟩
  | joined l t op r => exact ⟨op.one_le_level, h.2⟩

theorem Fits.stands (h : p.Fits s) : p.Stands s.level := by
  induction h with
  | literal ht => exact ht
  | group ho hc hp ih => exact ⟨ho, hc, ih.mono (Nat.zero_le _)⟩
  | prefixed ht hp ih => exact ⟨Nat.le_refl 7, Token.unary?_eq_some_iff.2 ht, ih⟩
  | @joined s t op l r ht hl hr ihl ihr =>
    obtain ⟨hbinary, rfl⟩ := Token.joins_iff.1 ht
    rw [op.level_stratum] at ihl
    rw [op.level_next_stratum] at ihr
    exact ⟨Nat.le_of_eq op.level_stratum, hbinary, ihl, ihr⟩
  | @next s p hp ih => exact ih.mono s.level_le_level_next

/-- A phrase of a stratum is one of each looser stratum. -/
theorem Fits.loosen {t : Stratum} (h : p.Fits s) (hle : t.level ≤ s.level) : p.Fits t := by
  obtain ⟨n, hn⟩ := Nat.exists_eq_add_of_le hle
  induction n generalizing t with
  | zero =>
    rw [← Stratum.eq_of_level_eq hn]
    exact h
  | succ n ih =>
    have hmax := s.level_le_eight
    have hnext := Stratum.level_next (s := t) (by omega)
    exact .next (ih (by omega) (by omega))

theorem fits_of_stands (h : p.Stands s.level) : p.Fits s := by
  induction p generalizing s with
  | literal t v => exact Fits.loosen (.literal h) (by cases s <;> decide)
  | group o p c ih =>
    exact Fits.loosen (.group h.1 h.2.1 (ih h.2.2.one_of_zero)) (by cases s <;> decide)
  | prefixed t op p ih =>
    exact Fits.loosen (.prefixed (Token.unary?_eq_some_iff.1 h.2.1) (ih h.2.2)) h.1
  | joined l t op r ihl ihr =>
    obtain ⟨hle, ht, hl, hr⟩ := h
    rw [← op.level_stratum] at hle hl
    rw [← op.level_next_stratum] at hr
    exact Fits.loosen (.joined (Token.joins_iff.2 ⟨ht, rfl⟩) (ihl hl) (ihr hr)) hle

/-- The strata are the levels. -/
theorem fits_iff_stands : p.Fits s ↔ p.Stands s.level :=
  ⟨Fits.stands, fits_of_stands⟩

/-- No operator is at the level zero, so a phrase that stands there is any phrase. -/
theorem fits_disjunction_iff : p.Fits .disjunction ↔ p.Stands 0 := by
  rw [fits_iff_stands]
  exact ⟨fun h => h.mono (Nat.zero_le _), Stands.one_of_zero⟩

/-- The tokens of a phrase are those that are not blank. -/
theorem Stands.kind_ne_blank (h : p.Stands least) : ∀ t ∈ p.tokens, t.kind ≠ .blank := by
  induction p generalizing least with
  | literal u v =>
    intro t ht hblank
    obtain rfl := List.mem_singleton.1 ht
    rcases Token.Denotes.kind_eq h with hkind | hkind | hkind <;> cases hblank.symm.trans hkind
  | group o p c ih =>
    intro t ht hblank
    simp only [tokens, List.mem_cons, List.mem_append, List.not_mem_nil, or_false] at ht
    rcases ht with rfl | ht | rfl
    · cases hblank.symm.trans h.1
    · exact ih h.2.2 t ht hblank
    · cases hblank.symm.trans h.2.1
  | prefixed u op p ih =>
    intro t ht hblank
    rcases List.mem_cons.1 ht with rfl | ht
    · have hunary := h.2.1
      unfold Token.unary? at hunary
      rw [hblank] at hunary
      cases hunary
    · exact ih h.2.2 t ht hblank
  | joined l u op r ihl ihr =>
    intro t ht hblank
    simp only [tokens, List.mem_cons, List.mem_append] at ht
    rcases ht with ht | rfl | ht
    · exact ihl h.2.2.1 t ht hblank
    · have hbinary := h.2.1
      unfold Token.binary? at hbinary
      rw [hblank] at hbinary
      cases hbinary
    · exact ihr h.2.2.2 t ht hblank

end Phrase

/-- Whether the grammar derives a tree from tokens. -/
def Derives (s : Stratum) (tokens : List Token) (tree : Tree) : Prop :=
  ∃ p : Phrase, p.Fits s ∧ p.tokens = tokens ∧ p.tree = tree

end Stencil.Expression
