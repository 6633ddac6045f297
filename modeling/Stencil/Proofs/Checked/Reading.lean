/-
What the parser in place makes of the tokens that it faces: what the reader of tokens makes of them.

An operand and an expression give back the levels that they took (`restores_parseUnary`,
`restores_parseExpr`), so that the room of a call and the levels taken before it always make up
`deepest`: with no room left all levels are taken, and the next is refused. By induction on the room
operands and chains agree with `operand` and `climb` (`operandsAgree_and_chainsAgree`), and a whole
text is read as `parse` reads it (`parseAll_eq`).
-/
import Stencil.Proofs.Checked.Parser
import Stencil.Proofs.Expression.Parse

namespace Stencil.Checked

open Expression MonadExcept Text

variable {p : Parser} {t : Token}

/-! ## One level -/

theorem enter_zero (span : Span) (h : p.depth = deepest) :
    (enter span).run p = throw ⟨.nestedTooDeep, span⟩ := by
  have hlt : deepest < p.depth + 1 := by omega
  simp only [enter, StateT.run_bind, StateT.run_modify, StateT.run_get, pure_bind, if_pos hlt]
  rfl

theorem enter_succ (span : Span) (h : p.depth < deepest) :
    (enter span).run p = pure ((), { p with depth := p.depth + 1 }) := by
  have hlt : ¬ deepest < p.depth + 1 := by omega
  simp [enter, hlt]

theorem run_leave {n : Nat} (h : p.depth = n + 1) :
    leave.run p = pure ((), { p with depth := n }) := by
  simp [leave, h]

section

variable {ending : Ending} {least : Nat} {left : Tree} {rest : List Token}

theorem operand_open (hopen : t.kind = .openParen) (room : Nat) :
    operand ending room (t :: rest) =
      match room with
      | 0 => .error ⟨.nestedTooDeep, t.span⟩
      | less + 1 => expression ending less 0 rest >>= fun r =>
        match r.2 with
        | [] => .error (ending.missing .closeParen)
        | u :: rest =>
          if u.kind = .closeParen then .ok (r.1, rest)
          else .error ⟨.unexpected .closeParen (some u.kind), u.span⟩ := by
  cases room with
  | zero =>
    rw [operand]
    simp only [Token.unary?_of_openParen hopen, if_pos hopen]
  | succ less => exact operand_open_succ hopen

theorem climb_joined {op : BinaryOp} (hop : t.binary? = some op) (hle : least ≤ op.level)
    (room : Nat) :
    climb ending room least left (t :: rest) =
      match room with
      | 0 => .error ⟨.nestedTooDeep, t.span⟩
      | less + 1 => expression ending less (op.level + 1) rest >>= fun r =>
        climb ending less least (.binary op left r.1 (left.span.join r.1.span)) r.2 := by
  cases room with
  | zero =>
    rw [climb]
    simp only [hop, if_neg (Nat.not_lt.2 hle)]
  | succ less => exact climb_succ hop hle

end

/-! ## The parser and the reader -/

variable [Alphabet] {source : List Char} {tokens : List Token} {failure? : Option Failure}
  {room : Nat}

variable (source) in
/-- Whether a part of the parser does with the tokens ahead what a reader of tokens does: it gives
the same tree and leaves the same tokens, with so many levels taken, or it fails in the same way. -/
def Agrees (left : Nat → Prop) (x : Parsing Expr) (p : Parser) (failure? : Option Failure)
    (read : Read) : Prop :=
  match read with
  | .ok (tree, rest) =>
    ∃ e q, x.run p = pure (e, q) ∧ e.tree = tree ∧ q.Faces source rest failure? ∧ left q.depth
  | .error failure => x.run p = throw failure

namespace Agrees

variable {x : Parsing Expr} {k : Expr → Parsing Expr} {left left' : Nat → Prop} {read : Read}

theorem bind {more : Tree × List Token → Read} (h : Agrees source left x p failure? read)
    (hk : ∀ e q rest, q.Faces source rest failure? → left q.depth →
      Agrees source left' (k e) q failure? (more (e.tree, rest))) :
    Agrees source left' (x >>= k) p failure? (read >>= more) := by
  cases read with
  | error failure => exact run_bind_of_throw h
  | ok result =>
    obtain ⟨tree, rest⟩ := result
    obtain ⟨e, q, hrun, rfl, hfaces, hleft⟩ := h
    have hrest := hk e q rest hfaces hleft
    unfold Agrees at hrest ⊢
    rw [run_bind_of_pure hrun]
    exact hrest

/-- What runs like another part that agrees, agrees. -/
theorem of_run_eq {y : Parsing Expr} {q : Parser} (h : Agrees source left y q failure? read)
    (hrun : x.run p = y.run q) : Agrees source left x p failure? read := by
  unfold Agrees at h ⊢
  rwa [hrun]

theorem of_pure {e : Expr} {rest : List Token} (hfaces : p.Faces source rest failure?)
    (hleft : left p.depth) : Agrees source left (pure e) p failure? (.ok (e.tree, rest)) :=
  ⟨e, p, rfl, rfl, hfaces, hleft⟩

theorem of_except {α : Type} {y : Lexing α} {r : Except Failure α} (hy : y = ofExcept r)
    (f : α → Expr) {rest : List Token} (hfaces : p.Faces source rest failure?)
    (hleft : left p.depth) :
    Agrees source left (do let a ← y; return f a) p failure?
      (r >>= fun a => .ok ((f a).tree, rest)) := by
  subst hy
  cases r with
  | ok a => exact ⟨f a, p, rfl, rfl, hfaces, hleft⟩
  | error failure => exact rfl

end Agrees

/-- What follows a level that is taken agrees in less room; there is none where no level is left. -/
theorem Agrees.enter {left : Nat → Prop} {x : Nat → Parsing Expr} {read : Nat → Read} (span : Span)
    (h : p.Faces source tokens failure?) (hroom : p.depth + room = deepest)
    (hless : ∀ less q, room = less + 1 → q.Faces source tokens failure? → q.depth = p.depth + 1 →
      Agrees source left (x less) q failure? (read less)) :
    Agrees source left
      (do
        enter span
        match room with
        | 0 => throwThe Hazard .endless
        | less + 1 => x less) p failure?
      (match room with
        | 0 => .error ⟨.nestedTooDeep, span⟩
        | less + 1 => read less) := by
  cases room with
  | zero => exact run_bind_of_throw (enter_zero span hroom)
  | succ less =>
    have hlevel : p.depth < deepest := by omega
    refine Agrees.of_run_eq ?_ (run_bind_of_pure (enter_succ span hlevel))
    exact hless less _ rfl (h.withDepth _) rfl

/-- A literal is read by its token alone. -/
theorem agrees_literal {rest : List Token} (h : p.Faces source (t :: rest) failure?)
    (hopen : t.kind ≠ .openParen) :
    Agrees source (· = p.depth) (parsePrimary source room) p failure?
      (do let value ← t.value; return (.literal value t.span, rest)) := by
  obtain ⟨q, hdemand, hq, hdepth⟩ := h.demand_cons .expression
  have ht := (List.forall_mem_cons.1 h.genuine).1
  unfold parsePrimary
  refine Agrees.of_run_eq ?_ (run_bind_of_pure hdemand)
  rw [Token.value]
  cases hk : t.kind with
  | openParen => exact absurd hk hopen
  | number => exact Agrees.of_except (number_eq ht) (.literal · t.span) hq hdepth
  | string =>
    refine Eq.subst (motive := Agrees source _ _ _ failure?) ?_ (Agrees.of_except (string_eq ht hk)
      (fun s => .literal (.string (String.ofList s)) t.span) hq hdepth)
    cases decode (t.start + 1) (t.text.drop 1).dropLast <;> rfl
  | word =>
    simp only
    refine Agrees.of_run_eq ?_ (run_bind_of_pure (run_lexing_of_pure (keyword_eq ht hk)))
    rcases t.keyword? with _ | keyword
    · exact rfl
    · cases keyword with
      | yes => exact ⟨_, q, rfl, rfl, hq, hdepth⟩
      | no => exact ⟨_, q, rfl, rfl, hq, hdepth⟩
      | _ => exact rfl
  | _ => exact rfl

variable (source) in
/-- Whether operands are read alike where there is so much room. -/
def OperandsAgree (room : Nat) : Prop :=
  ∀ p tokens failure?, p.Faces source tokens failure? → p.depth + room = deepest →
    Agrees source (· = p.depth) (parseUnary source room) p failure?
      (operand ⟨failure?, byteSize source⟩ room tokens)

variable (source) in
/-- Whether operators and their right sides are read alike where there is so much room. -/
def ChainsAgree (room : Nat) : Prop :=
  ∀ least left p tokens failure?, p.Faces source tokens failure? → p.depth + room = deepest →
    Agrees source (fun _ => True) (parseChain source room least left) p failure?
      (climb ⟨failure?, byteSize source⟩ room least left.tree tokens)

/-- An expression takes levels for its operators and gives them back. -/
theorem agrees_expression (hoperands : OperandsAgree source room)
    (hchains : ChainsAgree source room) (least : Nat) (h : p.Faces source tokens failure?)
    (hroom : p.depth + room = deepest) :
    Agrees source (· = p.depth) (parseExpr source room least) p failure?
      (expression ⟨failure?, byteSize source⟩ room least tokens) := by
  rw [parseExpr, expression]
  refine Agrees.of_run_eq ?_ (run_bind_of_pure (a := p) rfl)
  refine (hoperands p tokens failure? h hroom).bind fun first q rest hq hdepth => ?_
  have hchain := hchains least first q rest failure? hq (by omega)
  change Agrees source (· = p.depth) _ q failure?
    (climb ⟨failure?, byteSize source⟩ room least first.tree rest)
  rw [← bind_pure (climb _ _ _ _ _)]
  refine hchain.bind fun x q rest hq _ => ?_
  refine Agrees.of_run_eq ?_ (run_bind_of_pure rfl)
  exact Agrees.of_pure (hq.withDepth _) rfl

section

variable (hoperands : ∀ less, room = less + 1 → OperandsAgree source less)
include hoperands

theorem agrees_prefixed {op : UnaryOp} {rest : List Token} (hop : t.unary? = some op)
    (h : p.Faces source rest failure?) (hroom : p.depth + room = deepest) :
    Agrees source (· = p.depth)
      (do
        enter t.span
        match room with
        | 0 => throwThe Hazard .endless
        | less + 1 =>
          let x ← parseUnary source less
          leave
          return .unary op x (t.span.join x.span)) p failure?
      (operand ⟨failure?, byteSize source⟩ room (t :: rest)) := by
  unfold operand
  simp only [hop]
  refine Agrees.enter t.span h hroom fun less q hless hq hlevel => ?_
  have hoperand := hoperands less hless q rest failure? hq (by omega)
  refine hoperand.bind fun x q rest hq hlevels => ?_
  have hleave : q.depth = p.depth + 1 := by omega
  refine Agrees.of_run_eq ?_ (run_bind_of_pure (run_leave hleave))
  rw [Expr.span_tree]
  exact Agrees.of_pure (e := .unary op x _) (hq.withDepth p.depth) rfl

variable (hchains : ∀ less, room = less + 1 → ChainsAgree source less)
include hchains

theorem agrees_open {rest : List Token} (hopen : t.kind = .openParen)
    (h : p.Faces source (t :: rest) failure?) (hroom : p.depth + room = deepest) :
    Agrees source (· = p.depth) (parsePrimary source room) p failure?
      (operand ⟨failure?, byteSize source⟩ room (t :: rest)) := by
  obtain ⟨q, hdemand, hq, hsame⟩ := h.demand_cons .expression
  unfold parsePrimary
  refine Agrees.of_run_eq ?_ (run_bind_of_pure hdemand)
  simp only [hopen]
  rw [operand_open hopen]
  refine Agrees.enter t.span hq (by omega) fun less q hless hq hlevel => ?_
  have hexpr := agrees_expression (hoperands less hless) (hchains less hless) 0 hq (by omega)
  refine hexpr.bind fun x q rest hq hlevels => ?_
  have hleave : q.depth = p.depth + 1 := by omega
  refine Agrees.of_run_eq ?_ (run_bind_of_pure (run_leave hleave))
  have hleft := hq.withDepth p.depth
  cases rest with
  | nil => exact run_bind_of_throw (hleft.demand_nil .closeParen)
  | cons u rest =>
    obtain ⟨q, hclose, hq, hdepth⟩ := hleft.demand_cons .closeParen
    refine Agrees.of_run_eq ?_ (run_bind_of_pure hclose)
    by_cases hkind : u.kind = .closeParen
    · simp only [if_pos hkind]
      exact Agrees.of_pure hq hdepth
    · simp only [if_neg hkind]
      exact rfl

theorem operandsAgree_of : OperandsAgree source room := by
  intro p tokens failure? h hroom
  rw [parseUnary]
  cases tokens with
  | nil =>
    rw [operand]
    cases failure? with
    | some failure => exact run_bind_of_throw (run_bind_of_throw h.peek_fail)
    | none =>
      obtain ⟨q, hprefix, hq⟩ := h.peekPrefix_nil
      refine Agrees.of_run_eq ?_ (run_bind_of_pure hprefix)
      unfold parsePrimary
      exact run_bind_of_throw (hq.demand_nil .expression)
  | cons t rest =>
    obtain ⟨q, hprefix, hq, hsame⟩ := h.peekPrefix_cons
    refine Agrees.of_run_eq ?_ (run_bind_of_pure hprefix)
    rw [← hsame] at hroom ⊢
    cases hop : t.unary? with
    | none =>
      by_cases hopen : t.kind = .openParen
      · exact agrees_open hoperands hchains hopen hq hroom
      · unfold operand
        simp only [hop, if_neg hopen]
        exact agrees_literal hq hopen
    | some op =>
      obtain ⟨r, hnext, hr, hsame⟩ := hq.next_cons
      refine Agrees.of_run_eq ?_ (run_bind_of_pure hnext)
      rw [← hsame] at hroom ⊢
      exact agrees_prefixed hoperands hop hr hroom

theorem chainsAgree_of : ChainsAgree source room := by
  intro least left p tokens failure? h hroom
  rw [parseChain]
  cases tokens with
  | nil =>
    rw [climb]
    cases failure? with
    | some failure => exact run_bind_of_throw (run_bind_of_throw h.peek_fail)
    | none =>
      obtain ⟨q, hsign, hq⟩ := h.peekSign_nil
      refine Agrees.of_run_eq ?_ (run_bind_of_pure hsign)
      exact Agrees.of_pure hq trivial
  | cons t rest =>
    obtain ⟨sign?, q, hsign, hop, hq, hsame⟩ := h.peekSign_cons
    refine Agrees.of_run_eq ?_ (run_bind_of_pure hsign)
    cases sign? with
    | none =>
      rw [climb, ← hop]
      exact Agrees.of_pure hq trivial
    | some sign =>
      have hop : t.binary? = some sign.op := hop.symm
      simp only
      rw [← sign.level_op]
      by_cases hlt : sign.op.level < least
      · rw [climb]
        simp only [hop, if_pos hlt]
        exact Agrees.of_pure hq trivial
      · obtain ⟨r, hdemand, hr, hdepth⟩ := hq.demand_cons .expression
        rw [if_neg hlt, climb_joined hop (Nat.not_lt.1 hlt)]
        refine Agrees.of_run_eq ?_ (run_bind_of_pure hdemand)
        refine Agrees.enter t.span hr (by omega) fun less q hless hq hlevel => ?_
        have hright := agrees_expression (hoperands less hless) (hchains less hless)
          (sign.op.level + 1) hq (by omega)
        refine hright.bind fun right q rest hq hlevels => ?_
        have hmore := hchains less hless least
          (.binary sign left right (left.span.join right.span)) q rest failure? hq (by omega)
        have htree : (Expr.binary sign left right (left.span.join right.span)).tree =
            .binary sign.op left.tree right.tree (left.tree.span.join right.tree.span) := by
          rw [Expr.tree, left.span_tree, right.span_tree]
        rwa [htree] at hmore

end

theorem operandsAgree_and_chainsAgree (source : List Char) (room : Nat) :
    OperandsAgree source room ∧ ChainsAgree source room := by
  induction room with
  | zero =>
    have hnone {P : Nat → Prop} (less : Nat) (h : 0 = less + 1) : P less := by cases h
    exact ⟨operandsAgree_of hnone hnone, chainsAgree_of hnone hnone⟩
  | succ room ih =>
    have hoperands (less : Nat) (h : room + 1 = less + 1) : OperandsAgree source less := by
      cases h
      exact ih.1
    have hchains (less : Nat) (h : room + 1 = less + 1) : ChainsAgree source less := by
      cases h
      exact ih.2
    exact ⟨operandsAgree_of hoperands hchains, chainsAgree_of hoperands hchains⟩

/-- The parser of a source makes the tree that `parse` makes of it. -/
theorem parseAll_eq (source : List Char) :
    Expr.tree <$> parseAll source = ofExcept (parse source) := by
  obtain ⟨hoperands, hchains⟩ := operandsAgree_and_chainsAgree source deepest
  have hexpr := agrees_expression hoperands hchains 0 faces_start (Nat.zero_add deepest)
  rw [parse_eq_bind, parseAll]
  cases hread : expression ⟨(scan source).failure?, byteSize source⟩ deepest 0
      (scan source).significant.tokens with
  | error failure =>
    rw [hread] at hexpr
    have hrun : (parseExpr source deepest 0).run {} = throw failure := hexpr
    rw [hrun]
    rfl
  | ok result =>
    obtain ⟨tree, rest⟩ := result
    rw [hread] at hexpr
    obtain ⟨x, q, hrun, rfl, hfaces, -⟩ := hexpr
    rw [hrun, pure_bind]
    cases rest with
    | nil =>
      -- An expression does not end in front of a failure.
      obtain ⟨-, -, -, -, hend⟩ := expression_sound (Nat.zero_le 7) hread
      have hnone : (scan source).failure? = none := hend
      rw [hnone] at hfaces
      obtain ⟨q, hnext⟩ := hfaces.next_nil
      simp only [hnext]
      rfl
    | cons t rest =>
      obtain ⟨q, hnext, -⟩ := hfaces.next_cons
      simp only [hnext]
      rfl

/-! ## Levels -/

variable (source) in
/-- Whether a part of the parser that faces some tokens fails, or comes to face what is left of them
with as many levels taken as before. -/
def Restores (room : Nat) (x : Parsing Expr) : Prop :=
  ∀ p tokens failure?, p.Faces source tokens failure? → p.depth + room = deepest →
    (∃ failure, x.run p = throw failure) ∨
      ∃ e q rest, x.run p = pure (e, q) ∧ q.Faces source rest failure? ∧ q.depth = p.depth

theorem Agrees.restored {x : Parsing Expr} {read : Read}
    (h : Agrees source (· = p.depth) x p failure? read) :
    (∃ failure, x.run p = throw failure) ∨
      ∃ e q rest, x.run p = pure (e, q) ∧ q.Faces source rest failure? ∧ q.depth = p.depth := by
  cases read with
  | error failure => exact .inl ⟨failure, h⟩
  | ok result =>
    obtain ⟨e, q, hrun, -, hfaces, hdepth⟩ := h
    exact .inr ⟨e, q, result.2, hrun, hfaces, hdepth⟩

theorem restores_parseUnary (source : List Char) (room : Nat) :
    Restores source room (parseUnary source room) := by
  intro p tokens failure? h hroom
  obtain ⟨hoperands, -⟩ := operandsAgree_and_chainsAgree source room
  exact (hoperands p tokens failure? h hroom).restored

theorem restores_parseExpr (source : List Char) (room least : Nat) :
    Restores source room (parseExpr source room least) := by
  intro p tokens failure? h hroom
  obtain ⟨hoperands, hchains⟩ := operandsAgree_and_chainsAgree source room
  exact (agrees_expression hoperands hchains least h hroom).restored

theorem restores_parsePrimary (source : List Char) (room : Nat) :
    Restores source room (parsePrimary source room) := by
  intro p tokens failure? h hroom
  cases tokens with
  | nil =>
    unfold parsePrimary
    exact .inl ⟨_, run_bind_of_throw (h.demand_nil .expression)⟩
  | cons t rest =>
    by_cases hopen : t.kind = .openParen
    · exact (agrees_open (fun less _ => (operandsAgree_and_chainsAgree source less).1)
        (fun less _ => (operandsAgree_and_chainsAgree source less).2) hopen h hroom).restored
    · exact (agrees_literal h hopen).restored

end Stencil.Checked
