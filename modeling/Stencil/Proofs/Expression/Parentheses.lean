/-
Parentheses of phrases.

A phrase closes each parenthesis that it opens, and none that it does not (`depth?_tokens`). The
parentheses at its ends can be taken off it: those in front of its first other token, `opens`, and
those behind its last, `closes`, which leaves its `core`. Where the phrase as a whole is not in
parentheses, what is left is a phrase no more: an operator keeps the parentheses of its operands
apart, so the ones that are missing on one side are not made up for on the other
(`IsNodeOf.ends_eq_nil`).
-/
import Stencil.Proofs.Expression.Reading

namespace Stencil.Expression

/-! ## Parentheses -/

/-- Whether a token is a parenthesis. -/
def Token.IsParen (t : Token) : Prop := t.kind = .openParen ∨ t.kind = .closeParen

theorem Token.not_isParen_of_unary? {t : Token} {op : UnaryOp} (h : t.unary? = some op) :
    ¬t.IsParen := by
  intro hparen
  unfold unary? at h
  rcases hparen with hkind | hkind <;> simp [hkind] at h

theorem Token.not_isParen_of_binary? {t : Token} {op : BinaryOp} (h : t.binary? = some op) :
    ¬t.IsParen := by
  intro hparen
  unfold binary? at h
  rcases hparen with hkind | hkind <;> simp [hkind] at h

theorem Token.Denotes.not_isParen {t : Token} {v : Value} (h : t.Denotes v) : ¬t.IsParen := by
  intro hparen
  unfold Token.IsParen at hparen
  rcases h.kind_eq with hkind | hkind | hkind <;> simp [hkind] at hparen

/-- The number of parentheses that are open behind a token, where `n` are open in front of it. There
is none if the token closes one that is not open. -/
def Token.depth? (n : Nat) (t : Token) : Option Nat :=
  if t.kind = .openParen then some (n + 1)
  else if t.kind = .closeParen then if n = 0 then none else some (n - 1)
  else some n

/-- The number of parentheses that are open behind tokens. -/
def depth? (n : Nat) (tokens : List Token) : Option Nat := tokens.foldlM Token.depth? n

variable {n m : Nat} {t : Token} {tokens : List Token}

theorem Token.depth?_of_open (h : t.kind = .openParen) (n : Nat) : t.depth? n = some (n + 1) := by
  rw [depth?, if_pos h]

theorem Token.depth?_of_close (h : t.kind = .closeParen) (n : Nat) :
    t.depth? n = if n = 0 then none else some (n - 1) := by
  simp [depth?, h]

theorem Token.depth?_of_not_isParen (h : ¬t.IsParen) (n : Nat) : t.depth? n = some n := by
  simp only [IsParen, not_or] at h
  rw [depth?, if_neg h.1, if_neg h.2]

theorem depth?_cons (n : Nat) (t : Token) (tokens : List Token) :
    depth? n (t :: tokens) = (t.depth? n).bind (depth? · tokens) := List.foldlM_cons

theorem depth?_append (n : Nat) (front back : List Token) :
    depth? n (front ++ back) = (depth? n front).bind (depth? · back) := List.foldlM_append

theorem depth?_cons_of_not_isParen (h : ¬t.IsParen) (n : Nat) (tokens : List Token) :
    depth? n (t :: tokens) = depth? n tokens := by
  rw [depth?_cons, Token.depth?_of_not_isParen h, Option.bind_some]

theorem Token.depth?_add (h : t.depth? n = some m) (k : Nat) : t.depth? (n + k) = some (m + k) := by
  unfold Token.depth? at h ⊢
  by_cases hopen : t.kind = .openParen
  · rw [if_pos hopen, Option.some.injEq] at h ⊢
    omega
  · rw [if_neg hopen] at h ⊢
    by_cases hclose : t.kind = .closeParen
    · rw [if_pos hclose] at h ⊢
      obtain ⟨hn, hm⟩ := Option.ite_none_left_eq_some.1 h
      rw [Option.some.injEq] at hm
      rw [if_neg (by omega), Option.some.injEq]
      omega
    · rw [if_neg hclose, Option.some.injEq] at h ⊢
      omega

/-- More parentheses in front stay open. -/
theorem depth?_add (h : depth? n tokens = some m) (k : Nat) :
    depth? (n + k) tokens = some (m + k) := by
  induction tokens generalizing n with
  | nil =>
    cases h
    rfl
  | cons t tokens ih =>
    rw [depth?_cons] at h ⊢
    obtain ⟨next, ht, hrest⟩ := Option.bind_eq_some_iff.1 h
    rw [Token.depth?_add ht, Option.bind_some, ih hrest]

theorem depth?_of_all_open (h : ∀ t ∈ tokens, t.kind = .openParen) (n : Nat) :
    depth? n tokens = some (n + tokens.length) := by
  induction tokens generalizing n with
  | nil => rfl
  | cons t tokens ih =>
    rw [List.forall_mem_cons] at h
    rw [depth?_cons, Token.depth?_of_open h.1, Option.bind_some, ih h.2, List.length_cons,
      Nat.add_right_comm, Nat.add_assoc]

/-- Where none is open, none can be closed. -/
theorem eq_nil_of_all_close (h : ∀ t ∈ tokens, t.kind = .closeParen)
    (hdepth : depth? 0 tokens = some m) : tokens = [] := by
  cases tokens with
  | nil => rfl
  | cons t tokens =>
    rw [depth?_cons, Token.depth?_of_close (h t (by simp))] at hdepth
    cases hdepth

namespace Phrase

variable {p q : Phrase} {least : Nat}

/-- A phrase closes the parentheses that it opens, and no others. -/
theorem depth?_tokens (h : p.Stands least) (n : Nat) : depth? n p.tokens = some n := by
  induction p generalizing least n with
  | literal t v => exact depth?_cons_of_not_isParen (Token.Denotes.not_isParen h) n []
  | group o p c ih =>
    rw [tokens, depth?_cons, Token.depth?_of_open h.1, Option.bind_some, depth?_append, ih h.2.2,
      Option.bind_some, depth?_cons, Token.depth?_of_close h.2.1]
    rfl
  | prefixed t op p ih =>
    rw [tokens, depth?_cons_of_not_isParen (Token.not_isParen_of_unary? h.2.1), ih h.2.2]
  | joined l t op r ihl ihr =>
    rw [tokens, depth?_append, ihl h.2.2.1, Option.bind_some,
      depth?_cons_of_not_isParen (Token.not_isParen_of_binary? h.2.1), ihr h.2.2.2]

/-- The parentheses in front of the first token of a phrase that is no parenthesis. -/
def opens : Phrase → List Token
  | .literal _ _ => []
  | .group o p _ => o :: p.opens
  | .prefixed _ _ _ => []
  | .joined l _ _ _ => l.opens

/-- The parentheses behind the last token of a phrase that is no parenthesis. -/
def closes : Phrase → List Token
  | .literal _ _ => []
  | .group _ p c => p.closes ++ [c]
  | .prefixed _ _ p => p.closes
  | .joined _ _ _ r => r.closes

/-- The tokens of a phrase without the parentheses at its ends. -/
def core : Phrase → List Token
  | .literal t _ => [t]
  | .group _ p _ => p.core
  | .prefixed t _ p => t :: (p.opens ++ p.core)
  | .joined l t _ r => l.core ++ l.closes ++ t :: (r.opens ++ r.core)

theorem tokens_eq (p : Phrase) : p.tokens = p.opens ++ p.core ++ p.closes := by
  induction p <;> simp_all [tokens, opens, core, closes]

theorem kind_of_mem_opens (h : p.Stands least) : ∀ t ∈ p.opens, t.kind = .openParen := by
  induction p generalizing least with
  | literal t v => simp [opens]
  | group o p c ih => exact List.forall_mem_cons.2 ⟨h.1, ih h.2.2⟩
  | prefixed t op p ih => simp [opens]
  | joined l t op r ihl ihr => exact ihl h.2.2.1

theorem kind_of_mem_closes (h : p.Stands least) : ∀ t ∈ p.closes, t.kind = .closeParen := by
  induction p generalizing least with
  | literal t v => simp [closes]
  | group o p c ih =>
    intro t ht
    rcases List.mem_append.1 ht with ht | ht
    · exact ih h.2.2 t ht
    · rw [List.mem_singleton.1 ht]
      exact h.2.1
  | prefixed t op p ih => exact ih h.2.2
  | joined l t op r ihl ihr => exact ihr h.2.2.2

/-! ## Nodes -/

/-- The phrases in a phrase that leave a node: all but those in parentheses. -/
def nodes : Phrase → List Phrase
  | .literal t v => [.literal t v]
  | .group _ p _ => p.nodes
  | .prefixed t op p => .prefixed t op p :: p.nodes
  | .joined l t op r => .joined l t op r :: (l.nodes ++ r.nodes)

/-- A node of a phrase: a phrase of the grammar on its own, and part of it. -/
structure IsNodeOf (q p : Phrase) : Prop where
  stands : q.Stands 0
  ne_group : ∀ o inner c, q ≠ .group o inner c
  tokens : q.tokens <:+: p.tokens
  nesting : q.nesting ≤ p.nesting

theorem IsNodeOf.within {inner : Phrase} (h : q.IsNodeOf inner)
    (htokens : inner.tokens <:+: p.tokens) (hnesting : inner.nesting ≤ p.nesting) :
    q.IsNodeOf p :=
  ⟨h.stands, h.ne_group, h.tokens.trans htokens, Nat.le_trans h.nesting hnesting⟩

theorem isNodeOf_self (h : p.Stands least) (hgroup : ∀ o inner c, p ≠ .group o inner c) :
    p.IsNodeOf p :=
  ⟨h.mono (Nat.zero_le _), hgroup, List.infix_rfl, Nat.le_refl _⟩

theorem isNodeOf_of_mem_nodes (h : p.Stands least) (hq : q ∈ p.nodes) : q.IsNodeOf p := by
  induction p generalizing least with
  | literal t v =>
    rw [List.mem_singleton.1 hq]
    exact isNodeOf_self h (by simp)
  | group o p c ih =>
    exact (ih h.2.2 hq).within ⟨[o], [c], by simp [Phrase.tokens]⟩ (Nat.le_succ _)
  | prefixed t op p ih =>
    rcases List.mem_cons.1 hq with rfl | hq
    · exact isNodeOf_self h (by simp)
    · exact (ih h.2.2 hq).within ⟨[t], [], by simp [Phrase.tokens]⟩ (Nat.le_succ _)
  | joined l t op r ihl ihr =>
    simp only [nodes, List.mem_cons, List.mem_append] at hq
    rcases hq with rfl | hq | hq
    · exact isNodeOf_self h (by simp)
    · exact (ihl h.2.2.1 hq).within ⟨[], t :: r.tokens, by simp [Phrase.tokens]⟩
        (Nat.le_max_left _ _)
    · refine (ihr h.2.2.2 hq).within ⟨l.tokens ++ [t], [], by simp [Phrase.tokens]⟩ ?_
      show r.nesting ≤ max l.nesting (l.ops + 1 + r.nesting)
      omega

/-- Without the parentheses at its ends a node is no phrase, if there are any. -/
theorem IsNodeOf.ends_eq_nil (h : q.IsNodeOf p) (hcore : depth? 0 q.core = some 0) :
    q.opens = [] ∧ q.closes = [] := by
  have hcloses (hopens : q.opens = []) : q.closes = [] := by
    have htokens := depth?_tokens h.stands 0
    rw [tokens_eq, hopens, List.nil_append, depth?_append, hcore, Option.bind_some] at htokens
    exact eq_nil_of_all_close (kind_of_mem_closes h.stands) htokens
  cases q with
  | literal t v => exact ⟨rfl, rfl⟩
  | group o inner c => exact absurd rfl (h.ne_group o inner c)
  | prefixed t op inner => exact ⟨rfl, hcloses rfl⟩
  | joined l t op r =>
    -- The left operand closes what it opens. So the part of it in the core closes the parentheses
    -- that are left out, which it can only do if there are none.
    have hl : l.Stands op.level := h.stands.2.2.1
    have hleft := depth?_tokens hl 0
    rw [tokens_eq, List.append_assoc, depth?_append,
      depth?_of_all_open (kind_of_mem_opens hl), Option.bind_some] at hleft
    rw [core, depth?_append] at hcore
    obtain ⟨m, hm, -⟩ := Option.bind_eq_some_iff.1 hcore
    rw [depth?_add hm, Option.some.injEq] at hleft
    have hopens : l.opens = [] := List.length_eq_zero_iff.1 (by omega)
    exact ⟨hopens, hcloses hopens⟩

end Phrase

end Stencil.Expression
