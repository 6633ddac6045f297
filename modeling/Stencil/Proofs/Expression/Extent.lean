/-
What the span of a node covers.

The reader makes the span of a node from those of its operands, and parentheses leave neither a
node nor a span. So the span runs from the first token of the node to its last, but for the
parentheses that open in front of the first and close behind the last (`Phrase.exists_ends`), and
the text that it covers is cut into the tokens between them (`Phrase.IsNodeOf.exists_lexes`). If no
parenthesis is left out, these are all tokens of the node, and it is read again from them. Otherwise
they are no phrase, and they are refused. Every failure of an evaluation shows the span of a node
(`Tree.exists_node_of_evaluate`).
-/
import Stencil.Expression.Evaluation
import Stencil.Proofs.Expression.Cut
import Stencil.Proofs.Expression.Parentheses
import Stencil.Proofs.Expression.Parse

namespace Stencil.Expression

theorem depth?_map_shift (n start : Nat) (tokens : List Token) :
    depth? n (tokens.map (Token.shift start)) = depth? n tokens := by
  rw [depth?, List.foldlM_map]
  rfl

/-! ## Trees at another place -/

namespace Tree

/-- The same tree where so many bytes are in front of it. -/
def shift (n : Nat) : Tree → Tree
  | .literal v span => .literal v (span.shift n)
  | .unary op operand span => .unary op (operand.shift n) (span.shift n)
  | .binary op left right span => .binary op (left.shift n) (right.shift n) (span.shift n)

theorem span_shift (n : Nat) (tree : Tree) : (tree.shift n).span = tree.span.shift n := by
  cases tree <;> rfl

/-- The nodes of a tree. -/
def nodes : Tree → List Tree
  | .literal v span => [.literal v span]
  | .unary op operand span => .unary op operand span :: operand.nodes
  | .binary op left right span => .binary op left right span :: (left.nodes ++ right.nodes)

end Tree

namespace Phrase

variable {p q : Phrase} {least n : Nat}

/-- The same phrase where so many bytes are in front of it. -/
def shift (n : Nat) : Phrase → Phrase
  | .literal t v => .literal (t.shift n) v
  | .group o p c => .group (o.shift n) (p.shift n) (c.shift n)
  | .prefixed t op p => .prefixed (t.shift n) op (p.shift n)
  | .joined l t op r => .joined (l.shift n) (t.shift n) op (r.shift n)

theorem tree_shift (n : Nat) (p : Phrase) : (p.shift n).tree = p.tree.shift n := by
  induction p with
  | literal t v => rw [shift, tree, tree, Token.span_shift, Tree.shift]
  | group o p c ih => exact ih
  | prefixed t op p ih =>
    rw [shift, tree, tree, ih, Token.span_shift, Tree.span_shift, Span.join_shift, Tree.shift]
  | joined l t op r ihl ihr =>
    rw [shift, tree, tree, ihl, ihr, Tree.span_shift, Tree.span_shift, Span.join_shift, Tree.shift]

theorem ops_shift (n : Nat) (p : Phrase) : (p.shift n).ops = p.ops := by
  induction p <;> simp_all [shift, ops]

theorem nesting_shift (n : Nat) (p : Phrase) : (p.shift n).nesting = p.nesting := by
  induction p <;> simp_all [shift, nesting, ops_shift]

theorem stands_of_shift (h : (p.shift n).Stands least) : p.Stands least := by
  induction p generalizing least with
  | literal t v =>
    cases h with
    | integer hkind hplain hvalue => exact .integer hkind hplain hvalue
    | float hkind hvalue => exact .float hkind hvalue
    | string hkind hspells => exact .string hkind hspells
    | yes hword => exact .yes hword
    | no hword => exact .no hword
  | group o p c ih => exact ⟨h.1, h.2.1, ih h.2.2⟩
  | prefixed t op p ih => exact ⟨h.1, h.2.1, ih h.2.2⟩
  | joined l t op r ihl ihr => exact ⟨h.1, h.2.1, ihl h.2.2.1, ihr h.2.2.2⟩

/-- Tokens that are those of a phrase at another place are those of a phrase. -/
theorem exists_of_tokens_eq_map {own : List Token} (h : p.tokens = own.map (Token.shift n)) :
    ∃ q : Phrase, q.tokens = own ∧ q.shift n = p := by
  induction p generalizing own with
  | literal t v =>
    obtain ⟨u, rfl, rfl⟩ := List.map_eq_singleton_iff.1 h.symm
    exact ⟨.literal u v, rfl, rfl⟩
  | group o p c ih =>
    obtain ⟨o', rest, rfl, rfl, hrest⟩ := List.map_eq_cons_iff.1 h.symm
    obtain ⟨inner, last, rfl, hinner, hlast⟩ := List.map_eq_append_iff.1 hrest
    obtain ⟨c', rfl, rfl⟩ := List.map_eq_singleton_iff.1 hlast
    obtain ⟨q, rfl, rfl⟩ := ih hinner.symm
    exact ⟨.group o' q c', rfl, rfl⟩
  | prefixed t op p ih =>
    obtain ⟨t', rest, rfl, rfl, hrest⟩ := List.map_eq_cons_iff.1 h.symm
    obtain ⟨q, rfl, rfl⟩ := ih hrest.symm
    exact ⟨.prefixed t' op q, rfl, rfl⟩
  | joined l t op r ihl ihr =>
    obtain ⟨left, rest, rfl, hleft, hrest⟩ := List.map_eq_append_iff.1 h.symm
    obtain ⟨t', right, rfl, rfl, hright⟩ := List.map_eq_cons_iff.1 hrest
    obtain ⟨l', rfl, rfl⟩ := ihl hleft.symm
    obtain ⟨r', rfl, rfl⟩ := ihr hright.symm
    exact ⟨.joined l' t' op r', rfl, rfl⟩

theorem nodes_tree (p : Phrase) : p.tree.nodes = p.nodes.map tree := by
  induction p <;> simp_all [tree, nodes, Tree.nodes]

/-! ## What a span covers -/

theorem mem_tokens_of_mem_core {t : Token} (h : t ∈ p.core) : t ∈ p.tokens := by
  rw [tokens_eq]
  simp [h]

/-- The span of a node runs from the first token of its core to the last. -/
theorem exists_ends (horder : InOrder p.tokens) :
    ∃ first last, p.core.head? = some first ∧ p.core.getLast? = some last ∧
      p.tree.span = ⟨first.start, last.span.stop⟩ := by
  have hstop (t : Token) : t.start ≤ t.span.stop := Nat.le_add_right _ _
  induction p with
  | literal t v => exact ⟨t, t, rfl, rfl, rfl⟩
  | group o p c ih =>
    refine ih (List.Pairwise.sublist ?_ horder)
    exact (List.infix_cons (List.prefix_append _ _).isInfix).sublist
  | prefixed t op p ih =>
    obtain ⟨hfront, horder⟩ := List.pairwise_cons.1 horder
    obtain ⟨first, last, hfirst, hlast, hspan⟩ := ih horder
    have hfirst' := hfront first (mem_tokens_of_mem_core (List.mem_of_head? hfirst))
    have hlast' := hfront last (mem_tokens_of_mem_core (List.mem_of_getLast? hlast))
    refine ⟨t, last, rfl, ?_, ?_⟩
    · rw [core, List.getLast?_cons, List.getLast?_append, hlast]
      rfl
    · rw [tree, Tree.span, hspan]
      exact Span.join_of_le (Nat.le_trans (hstop t) hfirst') (Nat.le_trans hlast' (hstop last))
  | joined l t op r ihl ihr =>
    obtain ⟨hl, hr, hlr⟩ := List.pairwise_append.1 horder
    obtain ⟨first, last, hfirst, hlast, hspan⟩ := ihl hl
    obtain ⟨first', last', hfirst', hlast', hspan'⟩ := ihr (List.pairwise_cons.1 hr).2
    have hbehind (a b : Token) (ha : a ∈ l.core) (hb : b ∈ r.core) : a.span.stop ≤ b.start :=
      hlr a (mem_tokens_of_mem_core ha) b (List.mem_cons_of_mem t (mem_tokens_of_mem_core hb))
    have hstarts := hbehind first first' (List.mem_of_head? hfirst) (List.mem_of_head? hfirst')
    have hstops := hbehind last last' (List.mem_of_getLast? hlast) (List.mem_of_getLast? hlast')
    refine ⟨first, last', ?_, ?_, ?_⟩
    · rw [core, List.append_assoc, List.head?_append, hfirst]
      rfl
    · rw [core, List.getLast?_append, List.getLast?_cons, List.getLast?_append, hlast']
      rfl
    · rw [tree, Tree.span, hspan, hspan']
      exact Span.join_of_le (Nat.le_trans (hstop first) hstarts)
        (Nat.le_trans hstops (hstop last'))

theorem IsNodeOf.inOrder (h : q.IsNodeOf p) (horder : InOrder p.tokens) : InOrder q.tokens :=
  horder.sublist h.tokens.sublist

variable [Text.Alphabet] {text : List Char}

/-- The text that the span of a node covers is cut into the core of the node. -/
theorem IsNodeOf.exists_lexes (h : q.IsNodeOf p) (hp : p.IsOf text) :
    ∃ own, Lexes (q.tree.span.slice text) own ∧
      own.map (Token.shift q.tree.span.start) = q.core := by
  obtain ⟨first, last, hfirst, hlast, hspan⟩ := exists_ends (h.inOrder hp.lexes.inOrder)
  obtain ⟨before, after, htokens⟩ := h.tokens
  have hlexes : Lexes text (before ++ q.opens ++ q.core ++ (q.closes ++ after)) := by
    have htext := hp.lexes
    rw [← htokens, tokens_eq] at htext
    simpa using htext
  rw [hspan]
  exact hlexes.slice hfirst hlast

/-- A node that has no parentheses at its ends is read again. -/
theorem IsNodeOf.exists_parse (h : q.IsNodeOf p) (hp : p.IsOf text) (hroom : p.nesting ≤ deepest)
    (hopens : q.opens = []) (hcloses : q.closes = []) :
    ∃ again, parse (q.tree.span.slice text) = .ok again ∧
      again.shift q.tree.span.start = q.tree := by
  obtain ⟨own, hlexes, hown⟩ := h.exists_lexes hp
  have htokens : q.tokens = own.map (Token.shift q.tree.span.start) := by
    rw [hown, tokens_eq, hopens, hcloses, List.nil_append, List.append_nil]
  obtain ⟨again, rfl, hshift⟩ := exists_of_tokens_eq_map htokens
  have hstands : again.Stands 0 := stands_of_shift (hshift ▸ h.stands)
  have hnesting : again.nesting ≤ deepest := by
    rw [← nesting_shift q.tree.span.start, hshift]
    exact Nat.le_trans h.nesting hroom
  refine ⟨again.tree, parse_eq_ok_iff.2 ⟨again, ⟨fits_disjunction_iff.2 hstands, hlexes⟩, rfl,
    hnesting⟩, ?_⟩
  rw [← tree_shift, hshift]

/-- Where parentheses are left out at the ends of a node, what its span covers is not read. -/
theorem IsNodeOf.ends_eq_nil_of_parse (h : q.IsNodeOf p) (hp : p.IsOf text) {again : Tree}
    (hparse : parse (q.tree.span.slice text) = .ok again) : q.opens = [] ∧ q.closes = [] := by
  obtain ⟨own, hlexes, hown⟩ := h.exists_lexes hp
  obtain ⟨other, hother, -, -⟩ := parse_eq_ok_iff.1 hparse
  have htokens : other.tokens = own := hother.lexes.tokens_eq.symm.trans hlexes.tokens_eq
  have hdepth := depth?_tokens (fits_disjunction_iff.1 hother.fits) 0
  rw [htokens, ← depth?_map_shift 0 q.tree.span.start, hown] at hdepth
  exact h.ends_eq_nil hdepth

end Phrase

/-! ## Failures -/

theorem bind_eq_error_iff {ε α β : Type} {r : Except ε α} {f : α → Except ε β} {e : ε} :
    (r >>= f) = .error e ↔ r = .error e ∨ ∃ a, r = .ok a ∧ f a = .error e := by
  cases r <;> simp [bind, Except.bind]

theorem Fault.span_of_at {α : Type} {span : Span} {result : Except Fault α} {failure : Failure}
    (h : Fault.at span result = .error failure) : failure.span = span := by
  cases result with
  | ok a => cases h
  | error fault =>
    cases h
    rfl

theorem UnaryOp.span_of_apply {op : UnaryOp} {v : Value} {inner span : Span} {failure : Failure}
    (h : op.apply v inner span = .error failure) : failure.span = inner ∨ failure.span = span := by
  cases op with
  | not =>
    rcases bind_eq_error_iff.1 h with h | ⟨b, -, h⟩
    · exact .inl (Fault.span_of_at h)
    · cases h
  | negate =>
    rcases bind_eq_error_iff.1 h with h | ⟨n, -, h⟩
    · exact .inl (Fault.span_of_at h)
    · cases n with
      | integer n =>
        simp only at h
        split at h
        · cases h
        · cases h
          exact .inr rfl
      | float x => cases h

namespace Tree

theorem mem_nodes (tree : Tree) : tree ∈ tree.nodes := by
  cases tree <;> simp [nodes]

/-- A failure shows the span of a node. -/
theorem exists_node_of_evaluate {tree : Tree} {failure : Failure}
    (h : tree.evaluate = .error failure) : ∃ node ∈ tree.nodes, failure.span = node.span := by
  induction tree with
  | literal v span => cases h
  | unary op operand span ih =>
    rcases bind_eq_error_iff.1 h with h | ⟨v, -, h⟩
    · obtain ⟨node, hnode, hspan⟩ := ih h
      exact ⟨node, List.mem_cons_of_mem _ hnode, hspan⟩
    · rcases UnaryOp.span_of_apply h with hspan | hspan
      · exact ⟨operand, List.mem_cons_of_mem _ operand.mem_nodes, hspan⟩
      · exact ⟨_, List.mem_cons_self, hspan⟩
  | binary op left right span ihl ihr =>
    have hself (hspan : failure.span = span) :
        ∃ node ∈ (Tree.binary op left right span).nodes, failure.span = node.span :=
      ⟨_, List.mem_cons_self, hspan⟩
    have hleft (hfailure : left.evaluate = .error failure ∨ failure.span = left.span) :
        ∃ node ∈ (Tree.binary op left right span).nodes, failure.span = node.span := by
      obtain ⟨node, hnode, hspan⟩ := hfailure.elim ihl fun hspan => ⟨left, left.mem_nodes, hspan⟩
      exact ⟨node, List.mem_cons_of_mem _ (List.mem_append_left _ hnode), hspan⟩
    have hright (hfailure : right.evaluate = .error failure ∨ failure.span = right.span) :
        ∃ node ∈ (Tree.binary op left right span).nodes, failure.span = node.span := by
      obtain ⟨node, hnode, hspan⟩ := hfailure.elim ihr fun hspan => ⟨right, right.mem_nodes, hspan⟩
      exact ⟨node, List.mem_cons_of_mem _ (List.mem_append_right _ hnode), hspan⟩
    cases op with
    | connective op =>
      rcases bind_eq_error_iff.1 h with h | ⟨l, -, h⟩
      · exact hleft (.inl h)
      rcases bind_eq_error_iff.1 h with h | ⟨a, -, h⟩
      · exact hleft (.inr (Fault.span_of_at h))
      split at h
      · cases h
      rcases bind_eq_error_iff.1 h with h | ⟨r, -, h⟩
      · exact hright (.inl h)
      rcases bind_eq_error_iff.1 h with h | ⟨b, -, h⟩
      · exact hright (.inr (Fault.span_of_at h))
      cases h
    | comparison op =>
      rcases bind_eq_error_iff.1 h with h | ⟨l, -, h⟩
      · exact hleft (.inl h)
      rcases bind_eq_error_iff.1 h with h | ⟨r, -, h⟩
      · exact hright (.inl h)
      rcases bind_eq_error_iff.1 h with h | ⟨b, -, h⟩
      · exact hself (Fault.span_of_at h)
      cases h
    | arithmetic op =>
      rcases bind_eq_error_iff.1 h with h | ⟨l, -, h⟩
      · exact hleft (.inl h)
      rcases bind_eq_error_iff.1 h with h | ⟨r, -, h⟩
      · exact hright (.inl h)
      split at h
      · cases h
      rcases bind_eq_error_iff.1 h with h | ⟨a, -, h⟩
      · exact hleft (.inr (Fault.span_of_at h))
      rcases bind_eq_error_iff.1 h with h | ⟨b, -, h⟩
      · exact hright (.inr (Fault.span_of_at h))
      exact hself (Fault.span_of_at h)

end Tree

/-- **What the spans of nodes cover.** Let a text be read as a tree. The nodes of the tree are those
of the phrase that the text is. The text that the span of a node covers is cut into the tokens of the
node without the parentheses at its ends. If there are none at its ends, this text by itself is read
as the node, but for its place; and only then, for otherwise it is refused. A failure of the
evaluation shows the span of a node. -/
theorem span_covers_node_iff [Text.Alphabet] {text : List Char} {tree : Tree}
    (h : parse text = .ok tree) :
    (∃ p : Phrase, p.IsOf text) ∧ ∀ p : Phrase, p.IsOf text →
      p.tree = tree ∧ tree.nodes = p.nodes.map Phrase.tree ∧
      (∀ q ∈ p.nodes,
        (∃ own, Lexes (q.tree.span.slice text) own ∧
          own.map (Token.shift q.tree.span.start) = q.core) ∧
        ((∃ again, parse (q.tree.span.slice text) = .ok again ∧
          again.shift q.tree.span.start = q.tree) ↔ q.opens = [] ∧ q.closes = []) ∧
        ((∃ failure, parse (q.tree.span.slice text) = .error failure) ↔
          ¬(q.opens = [] ∧ q.closes = []))) ∧
      ∀ failure, tree.evaluate = .error failure → ∃ q ∈ p.nodes, failure.span = q.tree.span := by
  obtain ⟨p, hp, rfl, hroom⟩ := parse_eq_ok_iff.1 h
  refine ⟨⟨p, hp⟩, fun p' hp' => ?_⟩
  have htokens : p'.tokens = p.tokens := hp'.lexes.tokens_eq.symm.trans hp.lexes.tokens_eq
  have htree : p'.tree = p.tree := Phrase.tree_eq_of_tokens_eq hp'.fits hp.fits htokens
  have hroom' : p'.nesting ≤ deepest := by
    refine Nat.not_lt.1 fun hdeep => ?_
    exact (tooDeep_parse hp' hdeep).ne_ok h
  rw [← htree]
  refine ⟨rfl, p'.nodes_tree, fun q hq => ?_, fun failure hfailure => ?_⟩
  · have hnode := Phrase.isNodeOf_of_mem_nodes hp'.fits.stands hq
    have hread (hends : q.opens = [] ∧ q.closes = []) :=
      hnode.exists_parse hp' hroom' hends.1 hends.2
    have hrefused {again : Tree} (hparse : parse (q.tree.span.slice text) = .ok again) :
        q.opens = [] ∧ q.closes = [] := hnode.ends_eq_nil_of_parse hp' hparse
    refine ⟨hnode.exists_lexes hp', ⟨fun hagain => ?_, hread⟩,
      ⟨fun hfailure hends => ?_, fun hends => ?_⟩⟩
    · obtain ⟨again, hparse, -⟩ := hagain
      exact hrefused hparse
    · obtain ⟨failure, hfailure⟩ := hfailure
      obtain ⟨again, hparse, -⟩ := hread hends
      cases hfailure.symm.trans hparse
    · cases hparse : parse (q.tree.span.slice text) with
      | ok again => exact absurd (hrefused hparse) hends
      | error failure => exact ⟨failure, rfl⟩
  · obtain ⟨node, hmem, hspan⟩ := Tree.exists_node_of_evaluate hfailure
    rw [p'.nodes_tree] at hmem
    obtain ⟨q, hq, rfl⟩ := List.mem_map.1 hmem
    exact ⟨q, hq, hspan⟩

section

open Text.Ascii

/-- The span of a quotient whose dividend is in parentheses starts behind the first of them. -/
theorem span_of_sum_divided_by_zero :
    let text := "(1 + 2) / 0".toList
    ∃ tree, parse text = .ok tree ∧ tree.evaluate = .error ⟨.divisionByZero, ⟨1, 11⟩⟩ ∧
      Span.slice ⟨1, 11⟩ text = "1 + 2) / 0".toList ∧
      ∃ failure, parse (Span.slice ⟨1, 11⟩ text) = .error failure := by
  intro text
  let inner : Phrase := .joined (.literal ⟨.number, ['1'], 1⟩ (.integer 1)) ⟨.plus, ['+'], 3⟩
    (.arithmetic .add) (.literal ⟨.number, ['2'], 5⟩ (.integer 2))
  let p : Phrase := .joined (.group ⟨.openParen, ['('], 0⟩ inner ⟨.closeParen, [')'], 6⟩)
    ⟨.slash, ['/'], 8⟩ (.arithmetic .divide) (.literal ⟨.number, ['0'], 10⟩ (.integer 0))
  have hnumber (c : Char) (start : Nat) (n : Int64)
      (h : Token.value ⟨.number, [c], start⟩ = .ok (.integer n)) :
      (⟨.number, [c], start⟩ : Token).Denotes (.integer n) := Token.value_eq_ok_iff.1 h
  have hstands : p.Stands 0 :=
    ⟨by decide, rfl, ⟨rfl, rfl, by decide, rfl, hnumber '1' 1 1 rfl, hnumber '2' 5 2 rfl⟩,
      hnumber '0' 10 0 rfl⟩
  have hp : p.IsOf text :=
    ⟨Phrase.fits_disjunction_iff.2 hstands, by decide +kernel, by decide +kernel⟩
  have hparse : parse text = .ok p.tree := parse_eq_ok_iff.2 ⟨p, hp, rfl, by decide⟩
  obtain ⟨-, hspans⟩ := span_covers_node_iff hparse
  obtain ⟨-, -, hnodes, -⟩ := hspans p hp
  obtain ⟨-, -, hrefused⟩ := hnodes p (by simp [p, Phrase.nodes])
  refine ⟨p.tree, hparse, rfl, by decide +kernel, hrefused.2 ?_⟩
  simp [p, Phrase.opens]

end

end Stencil.Expression
