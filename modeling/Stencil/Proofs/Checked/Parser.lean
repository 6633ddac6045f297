/-
The parser in place: tokens are asked for one by one and known by their spans, and the levels of
nesting are counted up and down.

The count must never fall below zero, and a backslash in a string must have a character after it;
the lexer does not end a string behind a backslash (`unescape_eq`). The parts of the parser call
each other in less and less room, one less for each level that is taken, and must not run out of it.
What a parser is to do next is read off the tokens that it has not taken yet (`Parser.Faces`): a
token that is looked at is still ahead.
-/
import Stencil.Expression.Reading
import Stencil.Proofs.Checked.Lexer

namespace Stencil.Checked

open Expression MonadExcept Text

/-! ## Trees -/

/-- A binary operator. -/
inductive Sign where
  | or
  | and
  | equal
  | unequal
  | less
  | atMost
  | greater
  | atLeast
  | add
  | subtract
  | multiply
  | divide
  | remainder
  deriving DecidableEq

namespace Sign

/-- The operator among those of its kind. -/
def op : Sign → BinaryOp
  | .or => .connective .or
  | .and => .connective .and
  | .equal => .comparison .equal
  | .unequal => .comparison .unequal
  | .less => .comparison .less
  | .atMost => .comparison .atMost
  | .greater => .comparison .greater
  | .atLeast => .comparison .atLeast
  | .add => .arithmetic .add
  | .subtract => .arithmetic .subtract
  | .multiply => .arithmetic .multiply
  | .divide => .arithmetic .divide
  | .remainder => .arithmetic .remainder

/-- How tightly an operator binds: a higher number binds tighter. -/
def precedence : Sign → Nat
  | .or => 1
  | .and => 2
  | .equal | .unequal => 3
  | .less | .atMost | .greater | .atLeast => 4
  | .add | .subtract => 5
  | .multiply | .divide | .remainder => 6

theorem level_op (sign : Sign) : sign.op.level = sign.precedence := by cases sign <;> rfl

end Sign

/-- An expression. -/
inductive Expr where
  | literal (value : Value) (span : Span)
  | unary (op : UnaryOp) (operand : Expr) (span : Span)
  | binary (sign : Sign) (left right : Expr) (span : Span)

namespace Expr

def span : Expr → Span
  | .literal _ span | .unary _ _ span | .binary _ _ _ span => span

/-- The tree that an expression is. -/
def tree : Expr → Tree
  | .literal value span => .literal value span
  | .unary op operand span => .unary op operand.tree span
  | .binary sign left right span => .binary sign.op left.tree right.tree span

theorem span_tree (x : Expr) : x.tree.span = x.span := by cases x <;> rfl

end Expr

/-! ## Words and literals -/

/-- The keyword at a span, if there is one. -/
def keyword (source : List Char) (span : Span) : Lexing (Option Keyword) := do
  let word ← cut source span.start span.stop
  return Keyword.ofWord? word

/-- The value of a number. -/
def number (source : List Char) (span : Span) : Lexing Value := do
  let raw ← cut source span.start span.stop
  match numberValue raw with
  | .ok value => return value
  | .error fault => throw ⟨fault, span⟩

/-- What is between the quotes of a string stands for. -/
def unescape : List (Nat × Char) → Lexing (List Char)
  | [] => return []
  | (i, c) :: rest =>
    if c = '\\' then
      match rest with
      | [] => throwThe Hazard .unreachable
      | (_, d) :: rest =>
        match unescape? d with
        | some meant => return meant :: (← unescape rest)
        | none => throw ⟨.unknownEscape, i, i + 1 + d.utf8Size⟩
    else return c :: (← unescape rest)

/-- The value of a string. -/
def string (source : List Char) (span : Span) : Lexing (List Char) := do
  let raw ← cut source span.start span.stop
  let stop ← minus (byteSize raw) 1
  let inner ← cut raw 1 stop
  if '\\' ∈ inner then unescape (indexed (span.start + 1) inner) else return inner

variable {source : List Char} {t : Token}

theorem keyword_eq (ht : Genuine source t) (hword : t.kind = .word) :
    keyword source t.span = pure t.keyword? := by
  rw [keyword, ht.cut_eq, Token.keyword?, if_pos hword]
  rfl

theorem number_eq (ht : Genuine source t) :
    number source t.span =
      ofExcept ((numberValue t.text).mapError fun fault => ⟨fault, t.span⟩) := by
  rw [number, ht.cut_eq]
  simp only [liftM_pure, pure_bind]
  cases numberValue t.text <;> rfl

/-- In a balanced text no backslash is the last character. -/
theorem unescape_eq {text : List Char} (h : Balanced text) (start : Nat) :
    unescape (indexed start text) = ofExcept (decode start text) := by
  fun_induction Balanced text generalizing start with
  | case1 => rfl
  | case2 => exact h.elim
  | case3 d rest ih =>
    rw [indexed, indexed, unescape, if_pos rfl, decode]
    cases unescape? d with
    | none => rfl
    | some meant =>
      simp only [ih h]
      change _ = ofExcept ((decode (start + '\\'.utf8Size + d.utf8Size) rest).map (meant :: ·))
      cases decode (start + '\\'.utf8Size + d.utf8Size) rest <;> rfl
  | case4 c rest hlast hmore ih =>
    have hplain : c ≠ '\\' := ne_backslash hlast hmore
    have hdecode : decode start (c :: rest) = (decode (start + c.utf8Size) rest).map (c :: ·) := by
      simp [decode]
    rw [indexed, unescape.eq_def]
    simp only [if_neg hplain, ih h, hdecode]
    cases decode (start + c.utf8Size) rest <;> rfl

/-- What has no backslash stands for itself. -/
theorem decode_of_not_mem {text : List Char} (h : '\\' ∉ text) (start : Nat) :
    decode start text = .ok text := by
  induction text generalizing start with
  | nil => rfl
  | cons c rest ih =>
    rw [List.mem_cons, not_or] at h
    simp [decode, Ne.symm h.1, ih h.2, Except.map]

theorem string_eq (ht : Genuine source t) (hstring : t.kind = .string) :
    string source t.span = ofExcept (decode (t.start + 1) (t.text.drop 1).dropLast) := by
  obtain ⟨quote, inner, htext, hquote, hbalanced⟩ := ht.quoted hstring
  have hinner : (t.text.drop 1).dropLast = inner := by
    rw [htext, List.drop_succ_cons, List.drop_zero, List.dropLast_concat]
  have hsize : byteSize t.text = 1 + byteSize inner + 1 := by
    rw [htext, byteSize_cons, byteSize_append, hquote]
    simp [hquote, Nat.add_assoc]
  have hcut : cut t.text 1 (1 + byteSize inner) = pure inner := by
    refine cut_eq [quote] [quote] htext ?_ ?_ <;> simp [hquote]
  rw [string, ht.cut_eq, hinner]
  simp only [liftM_pure, pure_bind, hsize, add_minus_cancel, hcut]
  have hstart : t.span.start = t.start := rfl
  split
  · rw [hstart, unescape_eq hbalanced]
  · rename_i hplain
    rw [decode_of_not_mem hplain]
    rfl

/-! ## The parser -/

/-- Where a parser is: behind the tokens that it has asked the lexer for. One more of them, or their
end, may have been looked at without being taken. -/
structure Parser where
  cursor : Nat := 0
  peeked : Option (Option (Token.Kind × Span)) := none
  /-- The levels of nesting that are taken. -/
  depth : Nat := 0

/-- A part of the parser. -/
abbrev Parsing (α : Type) : Type := StateT Parser Lexing α

/-! ## How a part of the parser runs -/

section Run

variable {α β : Type} {x : Parsing α} {k : α → Parsing β} {p q : Parser}

theorem run_bind_of_pure {a : α} (h : x.run p = pure (a, q)) : (x >>= k).run p = (k a).run q := by
  rw [StateT.run_bind, h, pure_bind]

theorem run_bind_of_throw {failure : Failure} (h : x.run p = throw failure) :
    (x >>= k).run p = throw failure := by
  rw [StateT.run_bind, h]
  rfl

theorem run_lexing_of_pure {y : Lexing α} {a : α} (h : y = pure a) :
    (liftM y : Parsing α).run p = pure (a, p) := by
  rw [h]
  rfl

end Run

/-! ## The parts -/

variable (source) [Alphabet]

/-- The next token, which is left for `next`. -/
def peek : Parsing (Option (Token.Kind × Span)) := do
  let p ← get
  match p.peeked with
  | some found => return found
  | none =>
    let (found, cursor) ← lexNext source p.cursor
    set { p with cursor, peeked := some found }
    return found

/-- The next token. -/
def next : Parsing (Option (Token.Kind × Span)) := do
  let p ← get
  match p.peeked with
  | some found =>
    set { p with peeked := none }
    return found
  | none =>
    let (found, cursor) ← lexNext source p.cursor
    set { p with cursor }
    return found

/-- The next token, where one is needed. -/
def demand (expected : Expected) : Parsing (Token.Kind × Span) := do
  match ← next source with
  | some found => return found
  | none => throw ⟨.unexpected expected none, byteSize source, byteSize source⟩

/-- Takes a level of nesting for the token at a span. -/
def enter (span : Span) : Parsing Unit := do
  modify fun p => { p with depth := p.depth + 1 }
  if deepest < (← get).depth then throw ⟨.nestedTooDeep, span⟩

/-- Gives a level of nesting back. -/
def leave : Parsing Unit := do
  let depth ← minus (← get).depth 1
  modify ({ · with depth })

/-- The binary operator that is next, if one is. -/
def peekSign : Parsing (Option Sign) := do
  match ← peek source with
  | some (.orSign, _) => return some .or
  | some (.andSign, _) => return some .and
  | some (.equal, _) => return some .equal
  | some (.unequal, _) => return some .unequal
  | some (.less, _) => return some .less
  | some (.atMost, _) => return some .atMost
  | some (.greater, _) => return some .greater
  | some (.atLeast, _) => return some .atLeast
  | some (.plus, _) => return some .add
  | some (.minus, _) => return some .subtract
  | some (.star, _) => return some .multiply
  | some (.slash, _) => return some .divide
  | some (.percent, _) => return some .remainder
  | some (.word, span) =>
    match ← keyword source span with
    | some .or => return some .or
    | some .and => return some .and
    | _ => return none
  | _ => return none

/-- The prefix operator that is next, if one is. -/
def peekPrefix : Parsing (Option (UnaryOp × Span)) := do
  match ← peek source with
  | some (.bang, span) => return some (.not, span)
  | some (.minus, span) => return some (.negate, span)
  | some (.word, span) =>
    if (← keyword source span) = some .not then return some (.not, span) else return none
  | _ => return none

mutual

/-- An expression of operators that bind at least as tightly as `least`. -/
def parseExpr (room least : Nat) : Parsing Expr := do
  let depth := (← get).depth
  let first ← parseUnary room
  let x ← parseChain room least first
  modify ({ · with depth })
  return x
termination_by (room, 3)

/-- The operators that bind at least as tightly as `least`, with their right sides. -/
def parseChain (room least : Nat) (left : Expr) : Parsing Expr := do
  match ← peekSign source with
  | none => return left
  | some sign =>
    if sign.precedence < least then return left
    else
      let (_, span) ← demand source .expression
      enter span
      match room with
      | 0 => throwThe Hazard .endless
      | room + 1 =>
        let right ← parseExpr room (sign.precedence + 1)
        parseChain room least (.binary sign left right (left.span.join right.span))
termination_by (room, 0)

/-- Prefix operators and an operand. -/
def parseUnary (room : Nat) : Parsing Expr := do
  match ← peekPrefix source with
  | none => parsePrimary room
  | some (op, span) =>
    let _ ← next source
    enter span
    match room with
    | 0 => throwThe Hazard .endless
    | room + 1 =>
      let operand ← parseUnary room
      leave
      return .unary op operand (span.join operand.span)
termination_by (room, 2)

/-- A literal, or an expression in parentheses. -/
def parsePrimary (room : Nat) : Parsing Expr := do
  let (kind, span) ← demand source .expression
  match kind with
  | .openParen =>
    enter span
    match room with
    | 0 => throwThe Hazard .endless
    | room + 1 =>
      let x ← parseExpr room 0
      leave
      let (kind, span) ← demand source .closeParen
      if kind = .closeParen then return x else throw ⟨.unexpected .closeParen (some kind), span⟩
  | .number => return .literal (← number source span) span
  | .string => return .literal (.string (String.ofList (← string source span))) span
  | .word =>
    match ← keyword source span with
    | some .yes => return .literal (.bool true) span
    | some .no => return .literal (.bool false) span
    | some keyword => throw ⟨.unexpectedKeyword keyword, span⟩
    | none => throw ⟨.unknownIdentifier, span⟩
  | kind => throw ⟨.unexpected .expression (some kind), span⟩
termination_by (room, 1)

end

/-- The whole source as one expression. -/
def parseAll : Lexing Expr := do
  let (x, p) ← (parseExpr source deepest 0).run {}
  let (found, _) ← (next source).run p
  match found with
  | none => return x
  | some (kind, span) => throw ⟨.unexpected .operator (some kind), span⟩

/-! ## Tokens ahead -/

/-- Whether these are the tokens that a parser has not taken yet, and the failure behind them. -/
structure Parser.Faces (p : Parser) (tokens : List Token) (failure? : Option Failure) : Prop where
  genuine : ∀ t ∈ tokens, Genuine source t
  ahead :
    match p.peeked with
    | none => Checked.Faces source p.cursor tokens failure?
    | some none => tokens = [] ∧ failure? = none ∧ Checked.Faces source p.cursor [] none
    | some (some found) => ∃ t rest, tokens = t :: rest ∧ found = (t.kind, t.span) ∧
        Checked.Faces source p.cursor rest failure?

variable {source} {p : Parser} {tokens : List Token} {failure? : Option Failure}
  {cursor depth : Nat}

theorem faces_start :
    ({} : Parser).Faces source (scan source).significant.tokens (scan source).failure? := by
  have hstart : Faces source 0 (scan source).significant.tokens (scan source).failure? :=
    ⟨source, .zero source, rfl⟩
  exact ⟨hstart.genuine, hstart⟩

namespace Parser.Faces

/-- What a parser faces does not depend on the levels that are taken. -/
theorem withDepth (h : p.Faces source tokens failure?) (depth : Nat) :
    ({ p with depth } : Parser).Faces source tokens failure? :=
  ⟨h.genuine, h.ahead⟩

/-- A token that is looked at is still ahead, and what is behind it without it. -/
theorem peek_cons (h : p.Faces source (t :: tokens) failure?) :
    ∃ q, (peek source).run p = pure (some (t.kind, t.span), q) ∧
      q.Faces source (t :: tokens) failure? ∧
      ({ q with peeked := none } : Parser).Faces source tokens failure? ∧ q.depth = p.depth := by
  obtain ⟨cursor, peeked, depth⟩ := p
  obtain ⟨hgenuine, hahead⟩ := h
  have hlooked {cursor : Nat} (hfaces : Checked.Faces source cursor tokens failure?) :
      (⟨cursor, some (some (t.kind, t.span)), depth⟩ : Parser).Faces source (t :: tokens) failure? ∧
        (⟨cursor, none, depth⟩ : Parser).Faces source tokens failure? :=
    ⟨⟨hgenuine, t, tokens, rfl, rfl, hfaces⟩, hfaces.genuine, hfaces⟩
  rcases peeked with _ | _ | found
  · obtain ⟨next, hnext, hfaces⟩ := Checked.Faces.lexNext_cons hahead
    obtain ⟨hwith, hwithout⟩ := hlooked hfaces
    exact ⟨_, by simp [peek, hnext], hwith, hwithout, rfl⟩
  · cases hahead.1
  · obtain ⟨t, rest, htokens, rfl, hfaces⟩ := hahead
    cases htokens
    obtain ⟨hwith, hwithout⟩ := hlooked hfaces
    exact ⟨_, rfl, hwith, hwithout, rfl⟩

theorem peek_nil (h : p.Faces source [] none) :
    ∃ q, (peek source).run p = pure (none, q) ∧ q.Faces source [] none ∧ q.depth = p.depth := by
  obtain ⟨cursor, peeked, depth⟩ := p
  obtain ⟨hgenuine, hahead⟩ := h
  rcases peeked with _ | _ | found
  · obtain ⟨next, hnext, hfaces⟩ := Checked.Faces.lexNext_nil hahead
    exact ⟨⟨next, some none, depth⟩, by simp [peek, hnext], ⟨hgenuine, rfl, rfl, hfaces⟩, rfl⟩
  · exact ⟨_, rfl, ⟨hgenuine, hahead⟩, rfl⟩
  · obtain ⟨t, rest, htokens, -⟩ := hahead
    cases htokens

theorem peek_fail {failure : Failure} (h : p.Faces source [] (some failure)) :
    (peek source).run p = throw failure := by
  obtain ⟨cursor, peeked, depth⟩ := p
  obtain ⟨hgenuine, hahead⟩ := h
  rcases peeked with _ | _ | found
  · have hnext := Checked.Faces.lexNext_fail hahead
    simp [peek, hnext]
  · cases hahead.2.1
  · obtain ⟨t, rest, htokens, -⟩ := hahead
    cases htokens

end Parser.Faces

/-- To take a token is to look at it and to let it go. -/
theorem run_next (p : Parser) :
    (next source).run p = (do
      let found ← peek source
      modify fun p : Parser => { p with peeked := none }
      return found).run p := by
  obtain ⟨cursor, peeked, depth⟩ := p
  cases peeked with
  | none => simp [next, peek]
  | some found => rfl

namespace Parser.Faces

theorem next_cons (h : p.Faces source (t :: tokens) failure?) :
    ∃ q, (next source).run p = pure (some (t.kind, t.span), q) ∧
      q.Faces source tokens failure? ∧ q.depth = p.depth := by
  obtain ⟨q, hpeek, -, hwithout, hdepth⟩ := h.peek_cons
  refine ⟨{ q with peeked := none }, ?_, hwithout, hdepth⟩
  rw [run_next, run_bind_of_pure hpeek]
  rfl

theorem next_nil (h : p.Faces source [] none) :
    ∃ q, (next source).run p = pure (none, q) := by
  obtain ⟨q, hpeek, -⟩ := h.peek_nil
  refine ⟨{ q with peeked := none }, ?_⟩
  rw [run_next, run_bind_of_pure hpeek]
  rfl

theorem next_fail {failure : Failure} (h : p.Faces source [] (some failure)) :
    (next source).run p = throw failure := by
  rw [run_next, run_bind_of_throw h.peek_fail]

theorem demand_cons (h : p.Faces source (t :: tokens) failure?) (expected : Expected) :
    ∃ q, (demand source expected).run p = pure ((t.kind, t.span), q) ∧
      q.Faces source tokens failure? ∧ q.depth = p.depth := by
  obtain ⟨q, hnext, hq⟩ := h.next_cons
  refine ⟨q, ?_, hq⟩
  rw [demand, run_bind_of_pure hnext]
  rfl

theorem demand_nil (h : p.Faces source [] failure?) (expected : Expected) :
    (demand source expected).run p =
      throw ((Ending.mk failure? (byteSize source)).missing expected) := by
  cases failure? with
  | none =>
    obtain ⟨q, hnext⟩ := h.next_nil
    rw [demand, run_bind_of_pure hnext]
    rfl
  | some failure => rw [demand, run_bind_of_throw h.next_fail, Ending.missing, Option.getD_some]

end Parser.Faces

/-! ## Operators -/

theorem Parser.Faces.peekSign_cons (h : p.Faces source (t :: tokens) failure?) :
    ∃ sign? q, (peekSign source).run p = pure (sign?, q) ∧ sign?.map Sign.op = t.binary? ∧
      q.Faces source (t :: tokens) failure? ∧ q.depth = p.depth := by
  obtain ⟨q, hpeek, hq, -, hdepth⟩ := h.peek_cons
  have hword := keyword_eq (List.forall_mem_cons.1 h.genuine).1
  rw [peekSign, run_bind_of_pure hpeek]
  cases hk : t.kind with
  | word =>
    simp only
    rw [run_bind_of_pure (run_lexing_of_pure (hword hk))]
    rcases hkeyword : t.keyword? with _ | keyword
    · exact ⟨none, q, rfl, by simp [Token.binary?, hk, hkeyword], hq, hdepth⟩
    · cases keyword <;>
        exact ⟨_, q, rfl, by simp [Token.binary?, hk, hkeyword, Sign.op], hq, hdepth⟩
  | _ => exact ⟨_, q, rfl, by simp [Token.binary?, hk, Sign.op], hq, hdepth⟩

theorem Parser.Faces.peekSign_nil (h : p.Faces source [] none) :
    ∃ q, (peekSign source).run p = pure (none, q) ∧ q.Faces source [] none := by
  obtain ⟨q, hpeek, hq, -⟩ := h.peek_nil
  refine ⟨q, ?_, hq⟩
  rw [peekSign, run_bind_of_pure hpeek]
  rfl

theorem Parser.Faces.peekPrefix_nil (h : p.Faces source [] none) :
    ∃ q, (peekPrefix source).run p = pure (none, q) ∧ q.Faces source [] none := by
  obtain ⟨q, hpeek, hq, -⟩ := h.peek_nil
  refine ⟨q, ?_, hq⟩
  rw [peekPrefix, run_bind_of_pure hpeek]
  rfl

theorem Parser.Faces.peekPrefix_cons (h : p.Faces source (t :: tokens) failure?) :
    ∃ q, (peekPrefix source).run p = pure (t.unary?.map (·, t.span), q) ∧
      q.Faces source (t :: tokens) failure? ∧ q.depth = p.depth := by
  obtain ⟨q, hpeek, hq, -, hdepth⟩ := h.peek_cons
  have hword := keyword_eq (List.forall_mem_cons.1 h.genuine).1
  refine ⟨q, ?_, hq, hdepth⟩
  rw [peekPrefix, run_bind_of_pure hpeek]
  cases hk : t.kind with
  | word =>
    simp only
    rw [run_bind_of_pure (run_lexing_of_pure (hword hk))]
    by_cases hnot : t.keyword? = some .not
    · rw [if_pos hnot, Token.unary?, hk]
      simp [hnot]
    · rw [if_neg hnot, Token.unary?, hk]
      simp [hnot]
  | _ => simp [Token.unary?, hk]

end Stencil.Checked
