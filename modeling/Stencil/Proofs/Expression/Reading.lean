/-
What the reader reads: the phrases of the grammar, as far as there is room for them.

`Phrase.nesting` is the room that a phrase needs. An operator takes a level for all that follows it
in its chain, so the operands of a chain need the more room the further to the right they stand.
`reads` says that a phrase with enough room is read, and one without is refused for that reason;
`sound` says that nothing else is read. Both keep to what a call leaves unread: an operator that is
too loose for it.
-/
import Stencil.Expression.Reading
import Stencil.Proofs.Expression.Grammar

namespace Stencil.Expression

/-! ## Nesting -/

namespace Phrase

/-- The number of operators in the chain that a phrase is. -/
def ops : Phrase → Nat
  | .joined l _ _ _ => l.ops + 1
  | _ => 0

/-- The number of levels that the reader takes for a phrase. -/
def nesting : Phrase → Nat
  | .literal _ _ => 0
  | .group _ p _ => p.nesting + 1
  | .prefixed _ _ p => p.nesting + 1
  | .joined l _ _ r => max l.nesting (l.ops + 1 + r.nesting)

theorem ops_le_nesting (p : Phrase) : p.ops ≤ p.nesting := by
  cases p with
  | literal t v => exact Nat.le_refl _
  | group o p c => exact Nat.zero_le _
  | prefixed t op p => exact Nat.zero_le _
  | joined l t op r =>
    show l.ops + 1 ≤ max l.nesting (l.ops + 1 + r.nesting)
    omega

end Phrase

/-! ## The steps of the reader -/

/-- Whether operators of a level or above end in front of the tokens. -/
def Ending.Stops (ending : Ending) (level : Nat) : List Token → Prop
  | [] => ending.failure? = none
  | t :: _ => ∀ op, t.binary? = some op → op.level < level

theorem Ending.Stops.mono {ending : Ending} {level higher : Nat} {rest : List Token}
    (h : ending.Stops level rest) (hle : level ≤ higher) : ending.Stops higher rest := by
  cases rest with
  | nil => exact h
  | cons t rest => exact fun op hop => Nat.lt_of_lt_of_le (h op hop) hle

/-- Whether there was no room for what is read. -/
def TooDeep {α : Type} (r : Except Failure α) : Prop := ∃ span, r = .error ⟨.nestedTooDeep, span⟩

theorem TooDeep.bind {α β : Type} {r : Except Failure α} (h : TooDeep r)
    (f : α → Except Failure β) : TooDeep (r >>= f) := by
  obtain ⟨span, rfl⟩ := h
  exact ⟨span, rfl⟩

variable {ending : Ending} {room least : Nat} {left : Tree} {t : Token} {rest : List Token}

theorem climb_of_stops (h : ending.Stops least rest) :
    climb ending room least left rest = .ok (left, rest) := by
  cases rest with
  | nil =>
    change ending.failure? = none at h
    unfold climb
    rw [h]
  | cons t rest =>
    unfold climb
    cases ht : t.binary? with
    | none => rfl
    | some op => simp only [if_pos (h op ht)]

theorem climb_succ {op : BinaryOp} (ht : t.binary? = some op) (hle : least ≤ op.level) :
    climb ending (room + 1) least left (t :: rest) =
      expression ending room (op.level + 1) rest >>= fun r =>
        climb ending room least (.binary op left r.1 (left.span.join r.1.span)) r.2 := by
  rw [climb, expression, bind_assoc]
  simp only [ht, if_neg (Nat.not_lt.2 hle)]

theorem climb_zero {op : BinaryOp} (ht : t.binary? = some op) (hle : least ≤ op.level) :
    TooDeep (climb ending 0 least left (t :: rest)) := by
  refine ⟨t.span, ?_⟩
  rw [climb]
  simp only [ht, if_neg (Nat.not_lt.2 hle)]

theorem operand_prefix_succ {op : UnaryOp} (ht : t.unary? = some op) :
    operand ending (room + 1) (t :: rest) =
      operand ending room rest >>= fun r =>
        .ok (.unary op r.1 (t.span.join r.1.span), r.2) := by
  rw [operand]
  simp only [ht]
  rfl

theorem operand_prefix_zero {op : UnaryOp} (ht : t.unary? = some op) :
    TooDeep (operand ending 0 (t :: rest)) := by
  refine ⟨t.span, ?_⟩
  rw [operand]
  simp only [ht]

theorem Token.unary?_of_openParen (h : t.kind = .openParen) : t.unary? = none := by
  unfold unary?
  rw [h]

theorem operand_open_succ (ht : t.kind = .openParen) :
    operand ending (room + 1) (t :: rest) =
      expression ending room 0 rest >>= fun r =>
        match r.2 with
        | [] => .error (ending.missing .closeParen)
        | u :: rest =>
          if u.kind = .closeParen then .ok (r.1, rest)
          else .error ⟨.unexpected .closeParen (some u.kind), u.span⟩ := by
  rw [operand]
  simp only [Token.unary?_of_openParen ht, if_pos ht]
  exact (bind_assoc _ _ _).symm

theorem operand_open_zero (ht : t.kind = .openParen) :
    TooDeep (operand ending 0 (t :: rest)) := by
  refine ⟨t.span, ?_⟩
  rw [operand]
  simp only [Token.unary?_of_openParen ht, if_pos ht]

theorem Token.Denotes.unary?_eq_none {v : Value} (h : t.Denotes v) : t.unary? = none := by
  unfold Token.unary?
  cases h with
  | integer hkind _ _ => rw [hkind]
  | float hkind _ => rw [hkind]
  | string hkind _ => rw [hkind]
  | yes hword =>
    rw [hword.1, Token.keyword?_eq_some_iff (k := .yes).2 hword]
    rfl
  | no hword =>
    rw [hword.1, Token.keyword?_eq_some_iff (k := .no).2 hword]
    rfl

theorem Token.Denotes.kind_ne_openParen {v : Value} (h : t.Denotes v) : t.kind ≠ .openParen := by
  intro hopen
  rcases h.kind_eq with hkind | hkind | hkind <;> cases hopen.symm.trans hkind

theorem operand_literal {v : Value} (ht : t.Denotes v) :
    operand ending room (t :: rest) = .ok (.literal v t.span, rest) := by
  unfold operand
  simp only [ht.unary?_eq_none, if_neg ht.kind_ne_openParen, Token.value_eq_ok_iff.2 ht]
  rfl

/-! ## What is read -/

namespace Phrase

/-- Whether a phrase is read as an operand just if there is room for it. -/
def ReadAsOperand (p : Phrase) : Prop :=
  ∀ (ending : Ending) (room : Nat) (rest : List Token),
    (p.nesting ≤ room → operand ending room (p.tokens ++ rest) = .ok (p.tree, rest)) ∧
    (room < p.nesting → TooDeep (operand ending room (p.tokens ++ rest)))

/-- Whether a phrase is read just if there is room for it, the reader then going on with its tree.
What follows must not go on with the right side of its last operator. -/
def ReadFrom (least : Nat) (p : Phrase) : Prop :=
  ∀ (ending : Ending) (room : Nat) (rest : List Token),
    (∀ l t op r, p = .joined l t op r → ending.Stops (op.level + 1) rest) →
    (p.nesting ≤ room →
      expression ending room least (p.tokens ++ rest) =
        climb ending (room - p.ops) least p.tree rest) ∧
    (room < p.nesting → TooDeep (expression ending room least (p.tokens ++ rest)))

theorem ReadAsOperand.readFrom {p : Phrase} (h : p.ReadAsOperand) (hops : p.ops = 0)
    (least : Nat) : p.ReadFrom least := by
  intro ending room rest _
  obtain ⟨hread, hdeep⟩ := h ending room rest
  refine ⟨fun hroom => ?_, fun hroom => ?_⟩
  · rw [expression, hread hroom, hops, Nat.sub_zero]
    rfl
  · exact (hdeep hroom).bind _

theorem readAsOperand_literal {t : Token} {v : Value} (ht : t.Denotes v) :
    (literal t v).ReadAsOperand :=
  fun _ _ _ => ⟨fun _ => operand_literal ht, fun hroom => absurd hroom (Nat.not_lt_zero _)⟩

theorem readAsOperand_prefixed {t : Token} {op : UnaryOp} {p : Phrase} (ht : t.unary? = some op)
    (hp : p.ReadAsOperand) : (prefixed t op p).ReadAsOperand := by
  intro ending room rest
  rw [tokens, List.cons_append, nesting]
  cases room with
  | zero =>
    exact ⟨fun hroom => absurd hroom (Nat.not_succ_le_zero _), fun _ => operand_prefix_zero ht⟩
  | succ room =>
    obtain ⟨hread, hdeep⟩ := hp ending room rest
    rw [operand_prefix_succ ht]
    refine ⟨fun hroom => ?_, fun hroom => ?_⟩
    · rw [hread (by omega)]
      rfl
    · exact (hdeep (by omega)).bind _

theorem readAsOperand_group {o c : Token} {p : Phrase} (ho : o.kind = .openParen)
    (hc : c.kind = .closeParen) (hp : p.ReadFrom 0) : (group o p c).ReadAsOperand := by
  intro ending room rest
  rw [tokens, List.cons_append, List.append_assoc, List.singleton_append, nesting]
  -- A closing parenthesis is no operator, so whatever is in the parentheses ends in front of it.
  have hstops (level : Nat) : ending.Stops level (c :: rest) := by
    intro op hop
    unfold Token.binary? at hop
    rw [hc] at hop
    cases hop
  cases room with
  | zero =>
    exact ⟨fun hroom => absurd hroom (Nat.not_succ_le_zero _), fun _ => operand_open_zero ho⟩
  | succ room =>
    obtain ⟨hread, hdeep⟩ := hp ending room (c :: rest) fun l t op r _ => hstops _
    rw [operand_open_succ ho]
    refine ⟨fun hroom => ?_, fun hroom => ?_⟩
    · rw [hread (by omega), climb_of_stops (hstops 0)]
      exact if_pos hc
    · exact (hdeep (by omega)).bind _

theorem readFrom_joined {l r : Phrase} {t : Token} {op : BinaryOp} {least : Nat}
    (hle : least ≤ op.level) (ht : t.binary? = some op) (hl : l.ReadFrom least)
    (hstops : ∀ l' t' op' r', l = .joined l' t' op' r' → op.level ≤ op'.level)
    (hr : r.ReadFrom (op.level + 1))
    (hright : ∀ l' t' op' r', r = .joined l' t' op' r' → op.level + 1 ≤ op'.level) :
    (joined l t op r).ReadFrom least := by
  intro ending room rest hrest
  have hrest := hrest l t op r rfl
  rw [tokens, List.append_assoc, List.cons_append, nesting, ops]
  -- The operator is not tighter than those on its left, so the left side ends in front of it.
  obtain ⟨hread, hdeep⟩ := hl ending room (t :: (r.tokens ++ rest)) fun l' t' op' r' hl' u hu => by
    rw [ht] at hu
    cases hu
    have := hstops l' t' op' r' hl'
    omega
  have hread' (room : Nat) := hr ending room rest fun l' t' op' r' hr' =>
    hrest.mono (Nat.le_succ_of_le (hright l' t' op' r' hr'))
  refine ⟨fun hroom => ?_, fun hroom => ?_⟩
  · obtain ⟨k, hk⟩ : ∃ k, room - l.ops = k + 1 := ⟨room - l.ops - 1, by omega⟩
    have hk' : room - (l.ops + 1) = k := by omega
    rw [hread (by omega), hk, climb_succ ht hle, (hread' k).1 (by omega), climb_of_stops hrest, hk']
    rfl
  · by_cases hleft : l.nesting ≤ room
    · rw [hread hleft]
      cases hk : room - l.ops with
      | zero => exact climb_zero ht hle
      | succ k =>
        rw [climb_succ ht hle]
        exact ((hread' k).2 (by omega)).bind _
    · exact hdeep (by omega)

/-- **A phrase of the grammar is read just if there is room for it.** -/
theorem reads (p : Phrase) :
    (p.Stands 7 → p.ReadAsOperand) ∧ ∀ least, p.Stands least → p.ReadFrom least := by
  induction p with
  | literal t v =>
    have hread : (t.Denotes v) → (literal t v).ReadAsOperand := readAsOperand_literal
    exact ⟨hread, fun least h => (hread h).readFrom rfl least⟩
  | group o p c ih =>
    have hread (h : o.kind = .openParen ∧ c.kind = .closeParen ∧ p.Stands 0) :
        (group o p c).ReadAsOperand := readAsOperand_group h.1 h.2.1 (ih.2 0 h.2.2)
    exact ⟨hread, fun least h => (hread h).readFrom rfl least⟩
  | prefixed t op p ih =>
    have hread (h : t.unary? = some op ∧ p.Stands 7) : (prefixed t op p).ReadAsOperand :=
      readAsOperand_prefixed h.1 (ih.1 h.2)
    exact ⟨fun h => hread h.2, fun least h => (hread h.2).readFrom rfl least⟩
  | joined l t op r ihl ihr =>
    refine ⟨fun h => absurd h.1 (by have := op.level_le_six; omega), fun least h => ?_⟩
    obtain ⟨hle, ht, hl, hr⟩ := h
    refine readFrom_joined hle ht (ihl.2 least (hl.mono hle)) ?_ (ihr.2 _ hr) ?_
    · rintro l' t' op' r' rfl
      exact hl.1
    · rintro l' t' op' r' rfl
      exact hr.1

end Phrase

/-! ## Nothing else is read -/

theorem bind_eq_ok_iff {ε α β : Type} {r : Except ε α} {f : α → Except ε β} {b : β} :
    (r >>= f) = .ok b ↔ ∃ a, r = .ok a ∧ f a = .ok b := by
  cases r with
  | error failure => exact ⟨fun h => (by cases h), fun ⟨_, h, _⟩ => (by cases h)⟩
  | ok a => exact ⟨fun h => ⟨a, rfl, h⟩, fun ⟨_, h, hf⟩ => (by cases h; exact hf)⟩

theorem TooDeep.ne_ok {α : Type} {r : Except Failure α} {a : α} (h : TooDeep r) : r ≠ .ok a := by
  rintro rfl
  obtain ⟨span, hspan⟩ := h
  cases hspan

/-- What an operand can be. -/
theorem operand_cases {ending : Ending} {room : Nat} {tokens rest : List Token} {tree : Tree}
    (h : operand ending room tokens = .ok (tree, rest)) :
    (∃ t v, t.Denotes v ∧ tokens = t :: rest ∧ tree = .literal v t.span) ∨
    (∃ less t op inner others, room = less + 1 ∧ t.unary? = some op ∧ tokens = t :: others ∧
      operand ending less others = .ok (inner, rest) ∧
      tree = .unary op inner (t.span.join inner.span)) ∨
    (∃ less o c others, room = less + 1 ∧ o.kind = .openParen ∧ c.kind = .closeParen ∧
      tokens = o :: others ∧ expression ending less 0 others = .ok (tree, c :: rest)) := by
  cases tokens with
  | nil =>
    unfold operand at h
    cases h
  | cons t others =>
    cases hunary : t.unary? with
    | some op =>
      cases room with
      | zero => exact absurd h (operand_prefix_zero hunary).ne_ok
      | succ less =>
        rw [operand_prefix_succ hunary] at h
        obtain ⟨⟨inner, after⟩, hinner, hresult⟩ := bind_eq_ok_iff.1 h
        cases hresult
        exact .inr (.inl ⟨less, t, op, inner, others, rfl, hunary, rfl, hinner, rfl⟩)
    | none =>
      by_cases hopen : t.kind = .openParen
      · cases room with
        | zero => exact absurd h (operand_open_zero hopen).ne_ok
        | succ less =>
          rw [operand_open_succ hopen] at h
          obtain ⟨⟨inner, after⟩, hinner, hresult⟩ := bind_eq_ok_iff.1 h
          cases after with
          | nil => cases hresult
          | cons c after =>
            by_cases hclose : c.kind = .closeParen
            · simp only [if_pos hclose] at hresult
              cases hresult
              exact .inr (.inr ⟨less, t, c, others, rfl, hopen, hclose, rfl, hinner⟩)
            · simp only [if_neg hclose] at hresult
              cases hresult
      · unfold operand at h
        simp only [hunary, if_neg hopen] at h
        obtain ⟨v, hv, hresult⟩ := bind_eq_ok_iff.1 h
        cases hresult
        exact .inl ⟨t, v, Token.value_eq_ok_iff.1 hv, rfl, rfl⟩

/-- How a chain can go on. -/
theorem climb_cases {ending : Ending} {room least : Nat} {left tree : Tree}
    {tokens rest : List Token} (h : climb ending room least left tokens = .ok (tree, rest)) :
    (ending.Stops least tokens ∧ tree = left ∧ rest = tokens) ∨
    (∃ less t op others right after, room = less + 1 ∧ t.binary? = some op ∧ least ≤ op.level ∧
      tokens = t :: others ∧ expression ending less (op.level + 1) others = .ok (right, after) ∧
      climb ending less least (.binary op left right (left.span.join right.span)) after =
        .ok (tree, rest)) := by
  by_cases hstops : ending.Stops least tokens
  · rw [climb_of_stops hstops] at h
    cases h
    exact .inl ⟨hstops, rfl, rfl⟩
  · refine .inr ?_
    cases tokens with
    | nil =>
      unfold climb at h
      cases hfailure : ending.failure? with
      | none => exact absurd hfailure hstops
      | some failure => simp only [hfailure] at h; cases h
    | cons t others =>
      cases hop : t.binary? with
      | none => exact absurd (fun op h => by rw [hop] at h; cases h) hstops
      | some op =>
        have hle : least ≤ op.level := by
          refine Nat.not_lt.1 fun hlt => hstops fun op' hop' => ?_
          rw [hop] at hop'
          cases hop'
          exact hlt
        cases room with
        | zero => exact absurd h (climb_zero hop hle).ne_ok
        | succ less =>
          rw [climb_succ hop hle] at h
          obtain ⟨⟨right, after⟩, hright, hresult⟩ := bind_eq_ok_iff.1 h
          exact ⟨less, t, op, others, right, after, rfl, hop, hle, rfl, hright, hresult⟩

/-- Whether the next operator can have the phrase on its left. -/
def Phrase.IsLeftOf (p : Phrase) (tokens : List Token) : Prop :=
  ∀ t others op, tokens = t :: others → t.binary? = some op → p.Stands op.level

/-- Whether nothing but phrases is read as an operand in some room. -/
def SoundOperand (ending : Ending) (room : Nat) : Prop :=
  ∀ tokens tree rest, operand ending room tokens = .ok (tree, rest) →
    ∃ p : Phrase, p.Stands 7 ∧ p.tokens ++ rest = tokens ∧ p.tree = tree

/-- Whether a chain goes on from a phrase to phrases only, and ends in front of an operator that is
too loose for it. -/
def SoundChain (ending : Ending) (room : Nat) : Prop :=
  ∀ least (l : Phrase) tokens tree rest,
    climb ending room least l.tree tokens = .ok (tree, rest) → l.Stands least →
    l.IsLeftOf tokens →
    ∃ p : Phrase, p.Stands least ∧ p.tokens ++ rest = l.tokens ++ tokens ∧ p.tree = tree ∧
      ending.Stops least rest

theorem SoundChain.expression {ending : Ending} {room least : Nat}
    (hchain : SoundChain ending room) (hoperand : SoundOperand ending room) (hleast : least ≤ 7)
    {tokens rest : List Token} {tree : Tree}
    (h : expression ending room least tokens = .ok (tree, rest)) :
    ∃ p : Phrase, p.Stands least ∧ p.tokens ++ rest = tokens ∧ p.tree = tree ∧
      ending.Stops least rest := by
  obtain ⟨⟨first, after⟩, hfirst, hrest⟩ := bind_eq_ok_iff.1 h
  obtain ⟨p, hp, rfl, rfl⟩ := hoperand _ _ _ hfirst
  refine hchain least p after tree rest hrest (hp.mono hleast) fun t others op _ _ => ?_
  exact hp.mono (Nat.le_succ_of_le op.level_le_six)

section

variable {ending : Ending} {room : Nat}
  (ih : ∀ less, room = less + 1 → SoundOperand ending less ∧ SoundChain ending less)
include ih

theorem soundOperand_of : SoundOperand ending room := by
  intro tokens tree rest h
  rcases operand_cases h with ⟨t, v, ht, rfl, rfl⟩ |
    ⟨less, t, op, inner, others, hroom, ht, rfl, hinner, rfl⟩ |
    ⟨less, o, c, others, hroom, ho, hc, rfl, hinner⟩
  · exact ⟨.literal t v, ht, rfl, rfl⟩
  · obtain ⟨p, hp, rfl, rfl⟩ := (ih less hroom).1 _ _ _ hinner
    exact ⟨.prefixed t op p, ⟨Nat.le_refl 7, ht, hp⟩, rfl, rfl⟩
  · obtain ⟨hoperand, hchain⟩ := ih less hroom
    obtain ⟨p, hp, rfl, rfl, -⟩ := hchain.expression hoperand (Nat.zero_le 7) hinner
    exact ⟨.group o p c, ⟨ho, hc, hp⟩, by simp [Phrase.tokens], rfl⟩

/-- The left side stands at the level of the operator after it: the right side of the operator
before has taken all that are tighter. -/
theorem soundChain_of : SoundChain ending room := by
  intro least l tokens tree rest h hl hleft
  rcases climb_cases h with ⟨hstops, rfl, rfl⟩ |
    ⟨less, t, op, others, right, after, hroom, ht, hle, rfl, hright, hrest⟩
  · exact ⟨l, hl, rfl, rfl, hstops⟩
  · obtain ⟨hoperand, hchain⟩ := ih less hroom
    have hlevel := op.level_le_six
    have hseven : op.level + 1 ≤ 7 := by omega
    obtain ⟨r, hr, rfl, rfl, hstops⟩ := hchain.expression hoperand hseven hright
    have hjoined {lower : Nat} (hlower : lower ≤ op.level) :
        (Phrase.joined l t op r).Stands lower :=
      ⟨hlower, ht, hleft t _ op rfl ht, hr⟩
    have hnext : (Phrase.joined l t op r).IsLeftOf after := by
      rintro u others op' rfl hop'
      exact hjoined (Nat.lt_succ_iff.1 (hstops op' hop'))
    obtain ⟨p, hp, htokens, htree, hend⟩ :=
      hchain least (.joined l t op r) after tree rest hrest (hjoined hle) hnext
    exact ⟨p, hp, by rw [htokens]; simp [Phrase.tokens], htree, hend⟩

end

/-- **Nothing but phrases of the grammar is read.** -/
theorem sound (ending : Ending) (room : Nat) :
    SoundOperand ending room ∧ SoundChain ending room := by
  induction room with
  | zero =>
    have hnone (less : Nat) (h : 0 = less + 1) :
        SoundOperand ending less ∧ SoundChain ending less := by cases h
    exact ⟨soundOperand_of hnone, soundChain_of hnone⟩
  | succ room ih =>
    have hless (less : Nat) (h : room + 1 = less + 1) :
        SoundOperand ending less ∧ SoundChain ending less := by
      cases h
      exact ih
    exact ⟨soundOperand_of hless, soundChain_of hless⟩

theorem expression_sound {ending : Ending} {room least : Nat} (hleast : least ≤ 7)
    {tokens rest : List Token} {tree : Tree}
    (h : expression ending room least tokens = .ok (tree, rest)) :
    ∃ p : Phrase, p.Stands least ∧ p.tokens ++ rest = tokens ∧ p.tree = tree ∧
      ending.Stops least rest :=
  (sound ending room).2.expression (sound ending room).1 hleast h

end Stencil.Expression
