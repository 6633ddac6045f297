/-
The lexer in place: from a byte position in the source to the next.

Each rule finds the position where its token ends: by counting bytes, by the positions of the
characters that follow, or in the bytes of the source. It is a position between two characters
whatever these are, and where `head` says that the token ends (`lexToken_eq`). So the cut that the
lexer makes at the start of each token is safe, and from each of its positions it finds the tokens
that `scanFrom` finds (`lexNext_cons`).
-/
import Stencil.Expression.Scan
import Stencil.Proofs.Checked.Hazard

namespace Stencil.Checked

open Expression Text

/-! ## The rules -/

/-- The characters of a text with their byte positions, the first being at `start`. -/
def indexed (start : Nat) : List Char → List (Nat × Char)
  | [] => []
  | c :: rest => (start, c) :: indexed (start + c.utf8Size) rest

/-- A sign of two characters, the first of which is at `start`, or of one. -/
def lexPair (size start : Nat) (second : Char) (double : Token.Kind) (single : Option Token.Kind)
    (ahead : List (Nat × Char)) : Except Failure (Token.Kind × Nat) :=
  match ahead, single with
  | (_, c) :: _, some kind => if c = second then .ok (double, start + 2) else .ok (kind, start + 1)
  | (i, c) :: _, none =>
    if c = second then .ok (double, start + 2)
    else .error ⟨.unexpectedCharacter, start, i + c.utf8Size⟩
  | [], some kind => .ok (kind, start + 1)
  | [], none => .error ⟨.unexpectedCharacter, start, size⟩

/-- A string that opened at `start`. A backslash takes the next character with it. -/
def lexString (size start : Nat) (quote : Char) :
    List (Nat × Char) → Except Failure (Token.Kind × Nat)
  | [] => .error ⟨.undelimitedString, start, size⟩
  | (i, c) :: ahead =>
    if c = '\\' then lexString size start quote ahead.tail
    else if c = quote then .ok (.string, i + 1)
    else lexString size start quote ahead
termination_by ahead => ahead.length
decreasing_by all_goals simp only [List.length_tail, List.length_cons]; omega

/-- The position of the first character that is not in the class. -/
def lexWhile (size : Nat) (p : Char → Bool) : List (Nat × Char) → Nat
  | [] => size
  | (i, c) :: ahead => if p c then lexWhile size p ahead else i

/-- The bytes of a text. -/
def bytes (text : List Char) : List UInt8 := text.flatMap String.utf8EncodeChar

/-- Whether the byte at a position is that of a digit. -/
def isDigitAt (source : List UInt8) (i : Nat) : Bool :=
  match source[i]? with
  | some b => 48 ≤ b.toNat && b.toNat ≤ 57
  | none => false

/-- Whether the byte at a position is that of one of these characters. -/
def isOneAt (chars : List Char) (source : List UInt8) (i : Nat) : Bool :=
  match source[i]? with
  | some b => chars.any fun c => c.toNat == b.toNat
  | none => false

theorem lt_of_isDigitAt {source : List UInt8} {i : Nat} (h : isDigitAt source i = true) :
    i < source.length := by
  rw [isDigitAt] at h
  split at h
  · rename_i hget
    exact (List.getElem?_eq_some_iff.1 hget).1
  · cases h

/-- The position behind the digits at `i`. -/
def lexDigits (source : List UInt8) (i : Nat) : Nat :=
  if h : isDigitAt source i then lexDigits source (i + 1) else i
termination_by source.length - i
decreasing_by
  have hlt := lt_of_isDigitAt h
  omega

/-- The position behind the fraction at `i`, if there is one. -/
def lexFraction (source : List UInt8) (i : Nat) : Nat :=
  if isOneAt ['.'] source i && isDigitAt source (i + 1) then lexDigits source (i + 1) else i

/-- The position behind the exponent at `i`, if there is one. -/
def lexExponent (source : List UInt8) (i : Nat) : Nat :=
  if isOneAt ['e', 'E'] source i then
    let digits := if isOneAt ['+', '-'] source (i + 1) then i + 2 else i + 1
    if isDigitAt source digits then lexDigits source digits else i
  else i

/-- The position behind the number at `i`. -/
def lexNumber (source : List UInt8) (i : Nat) : Nat :=
  lexExponent source (lexFraction source (lexDigits source i))

/-- The token whose first character is `c` at `start`, with the position behind it; the characters
that follow are `ahead`. -/
def lexToken [Alphabet] (source : List Char) (start : Nat) (c : Char) (ahead : List (Nat × Char)) :
    Except Failure (Token.Kind × Nat) :=
  let size := byteSize source
  if c = '(' then .ok (.openParen, start + 1)
  else if c = ')' then .ok (.closeParen, start + 1)
  else if c = '+' then .ok (.plus, start + 1)
  else if c = '-' then .ok (.minus, start + 1)
  else if c = '*' then .ok (.star, start + 1)
  else if c = '/' then .ok (.slash, start + 1)
  else if c = '%' then .ok (.percent, start + 1)
  else if c = '|' then lexPair size start '|' .orSign none ahead
  else if c = '&' then lexPair size start '&' .andSign none ahead
  else if c = '=' then lexPair size start '=' .equal (some .equal) ahead
  else if c = '!' then lexPair size start '=' .unequal (some .bang) ahead
  else if c = '>' then lexPair size start '=' .atLeast (some .greater) ahead
  else if c = '<' then
    match ahead with
    | (_, '=') :: _ => .ok (.atMost, start + 2)
    | (_, '>') :: _ => .ok (.unequal, start + 2)
    | _ => .ok (.less, start + 1)
  else if c = '"' ∨ c = '\'' then lexString size start c ahead
  else if c.isDigit then .ok (.number, lexNumber (bytes source) start)
  else if isBlank c then .ok (.blank, lexWhile size isBlank ahead)
  else if isIdentifierStart c then .ok (.word, lexWhile size isIdentifierPart ahead)
  else .error ⟨.unexpectedCharacter, start, start + c.utf8Size⟩

/-- A computation that may fail on its source, or meet a hazard. -/
abbrev Lexing (α : Type) : Type := ExceptT Failure Checked α

/-- The token at a position, if the source goes on there. -/
def lex [Alphabet] (source : List Char) (cursor : Nat) : Lexing (Option (Token.Kind × Span)) := do
  let rest ← cutFrom source cursor
  match indexed cursor rest with
  | [] => return none
  | (_, c) :: ahead =>
    match lexToken source cursor c ahead with
    | .ok (kind, stop) => return some (kind, ⟨cursor, stop⟩)
    | .error failure => throw failure

/-- The next token that is not blank, with the position behind it. -/
def lexNext [Alphabet] (source : List Char) (cursor : Nat) :
    Lexing (Option (Token.Kind × Span) × Nat) := do
  match ← lex source cursor with
  | none => return (none, cursor)
  | some (kind, span) =>
    if kind = .blank then
      if cursor < span.stop ∧ span.stop ≤ byteSize source then lexNext source span.stop
      else throwThe Hazard .endless
    else return (some (kind, span), span.stop)
termination_by byteSize source - cursor

/-! ## Numbers -/

theorem length_bytes (text : List Char) : (bytes text).length = byteSize text := by
  induction text with
  | nil => rfl
  | cons c rest ih =>
    rw [bytes, List.flatMap_cons, List.length_append, String.length_utf8EncodeChar, byteSize_cons,
      ← ih]
    rfl

/-- The first byte of a character is the character itself if it is small, and is large if not. -/
theorem exists_utf8EncodeChar (c : Char) :
    ∃ b more, String.utf8EncodeChar c = b :: more ∧
      (c.toNat ≤ 127 → b.toNat = c.toNat) ∧ (127 < c.toNat → 127 < b.toNat) := by
  unfold String.utf8EncodeChar
  simp only
  have hnat : c.val.toNat = c.toNat := rfl
  rw [hnat]
  split
  · refine ⟨_, [], rfl, fun _ => ?_, fun h => by omega⟩
    rw [UInt8.toNat_ofNat']
    omega
  · split
    · refine ⟨_, _, rfl, fun h => by omega, fun _ => ?_⟩
      rw [UInt8.toNat_ofNat']
      omega
    · split
      · refine ⟨_, _, rfl, fun h => by omega, fun _ => ?_⟩
        rw [UInt8.toNat_ofNat']
        omega
      · refine ⟨_, _, rfl, fun h => by omega, fun _ => ?_⟩
        rw [UInt8.toNat_ofNat']
        omega

theorem utf8Size_eq_one {c : Char} (h : c.toNat ≤ 127) : c.utf8Size = 1 :=
  Char.utf8Size_eq_one_iff.2 (UInt32.le_iff_toNat_le.2 h)

theorem toNat_le_of_isDigit {c : Char} (h : c.isDigit = true) : c.toNat ≤ 127 := by
  have hdigit : (decide (48 ≤ c.toNat) && decide (c.toNat ≤ 57)) = true := h
  simp only [Bool.and_eq_true, decide_eq_true_eq] at hdigit
  omega

variable {source rest : List Char} {i : Nat}

theorem Leaves.getElem?_bytes_nil (h : Leaves source i []) : (bytes source)[i]? = none := by
  rw [List.getElem?_eq_none_iff, length_bytes, h.size_eq]
  exact Nat.le_refl i

/-- At a position between two characters is the first byte of the second. -/
theorem Leaves.getElem?_bytes_cons {c : Char} (h : Leaves source i (c :: rest)) :
    ∃ b, (bytes source)[i]? = some b ∧
      (c.toNat ≤ 127 → b.toNat = c.toNat) ∧ (127 < c.toNat → 127 < b.toNat) := by
  obtain ⟨before, rfl, rfl⟩ := h
  obtain ⟨b, more, henc, hb⟩ := exists_utf8EncodeChar c
  refine ⟨b, ?_, hb⟩
  rw [bytes, List.flatMap_append, List.flatMap_cons, henc, ← length_bytes, bytes]
  simp

theorem Leaves.isDigitAt_eq (h : Leaves source i rest) :
    isDigitAt (bytes source) i = rest.head?.any Char.isDigit := by
  cases rest with
  | nil =>
    rw [isDigitAt, h.getElem?_bytes_nil]
    rfl
  | cons c rest =>
    obtain ⟨b, hb, hsmall, hlarge⟩ := h.getElem?_bytes_cons
    have hdigit : c.isDigit = (decide (48 ≤ c.toNat) && decide (c.toNat ≤ 57)) := rfl
    rw [isDigitAt, hb, List.head?_cons, Option.any_some, hdigit]
    rcases Nat.lt_or_ge 127 c.toNat with hc | hc
    · have hbyte := hlarge hc
      simp only [show ¬ c.toNat ≤ 57 by omega, show ¬ b.toNat ≤ 57 by omega, decide_false,
        Bool.and_false]
    · simp only [hsmall hc]

/-- Characters of one byte are told apart by their bytes. -/
theorem Leaves.isOneAt_eq (h : Leaves source i rest) {chars : List Char}
    (hsmall : chars.all (fun c => decide (c.toNat ≤ 127)) = true) :
    isOneAt chars (bytes source) i = rest.head?.any chars.contains := by
  have hchars (c : Char) (hc : c ∈ chars) : c.toNat ≤ 127 :=
    of_decide_eq_true (List.all_eq_true.1 hsmall c hc)
  cases rest with
  | nil =>
    rw [isOneAt, h.getElem?_bytes_nil]
    rfl
  | cons c rest =>
    obtain ⟨b, hb, hsame, hlarge⟩ := h.getElem?_bytes_cons
    rw [isOneAt, hb, List.head?_cons, Option.any_some, Bool.eq_iff_iff, List.any_eq_true,
      List.contains_iff_mem]
    constructor
    · rintro ⟨d, hd, heq⟩
      have hd127 := hchars d hd
      have hnat : d.toNat = b.toNat := beq_iff_eq.1 heq
      have hc : c.toNat ≤ 127 := by
        rcases Nat.lt_or_ge 127 c.toNat with hc | hc
        · have hbyte := hlarge hc
          omega
        · exact hc
      rwa [← Char.toNat_inj.1 (hnat.trans (hsame hc))]
    · intro hc
      exact ⟨c, hc, beq_iff_eq.2 (hsame (hchars c hc)).symm⟩

theorem Leaves.digits (h : Leaves source i rest) :
    Leaves source (lexDigits (bytes source) i) (rest.drop (digitRun rest)) := by
  induction rest generalizing i with
  | nil =>
    rw [lexDigits, dif_neg (by simp [h.isDigitAt_eq])]
    exact h
  | cons c rest ih =>
    rw [lexDigits, h.isDigitAt_eq, List.head?_cons, Option.any_some]
    by_cases hc : c.isDigit = true
    · have hnext : Leaves source (i + 1) rest :=
        utf8Size_eq_one (toNat_le_of_isDigit hc) ▸ h.cons
      have hrun : digitRun (c :: rest) = digitRun rest + 1 := by
        simp [digitRun, hc]
      rw [dif_pos hc, hrun, List.drop_succ_cons]
      exact ih hnext
    · have hrun : digitRun (c :: rest) = 0 := by
        simp [digitRun, hc]
      rw [dif_neg hc, hrun]
      exact h

/-- There are digits where the first character is one. -/
theorem digitRun_eq_zero_iff : digitRun rest = 0 ↔ rest.head?.any Char.isDigit = false := by
  cases rest with
  | nil => simp [digitRun]
  | cons c rest => by_cases hc : c.isDigit = true <;> simp [digitRun, hc]

/-- A digit in front is one more of the number. -/
theorem numberRun_cons {c : Char} (h : c.isDigit = true) (rest : List Char) :
    numberRun (c :: rest) = numberRun rest + 1 := by
  have hdigits : digitRun (c :: rest) = digitRun rest + 1 := by simp [digitRun, h]
  simp only [numberRun, hdigits, List.drop_succ_cons, Nat.add_right_comm _ 1]

theorem Leaves.fraction (h : Leaves source i rest) :
    Leaves source (lexFraction (bytes source) i) (rest.drop (fractionRun rest)) := by
  rw [lexFraction, h.isOneAt_eq rfl]
  cases rest with
  | nil => exact h
  | cons c rest =>
    by_cases hc : c = '.'
    · subst hc
      have hnext : Leaves source (i + 1) rest := h.cons
      rw [hnext.isDigitAt_eq, fractionRun]
      by_cases hd : digitRun rest = 0
      · rw [if_pos hd, digitRun_eq_zero_iff.1 hd, Bool.and_false]
        exact h
      · rw [if_neg hd, Bool.of_not_eq_false (mt digitRun_eq_zero_iff.2 hd), Nat.add_comm 1 (digitRun _)]
        exact hnext.digits
    · have hrun : fractionRun (c :: rest) = 0 := by simp [fractionRun, hc]
      rw [hrun]
      simpa [hc] using h

/-- The length of the sign at the front of a text. -/
def signRun : List Char → Nat
  | '+' :: _ | '-' :: _ => 1
  | _ => 0

theorem exponentRun_cons {c : Char} (h : c = 'e' ∨ c = 'E') (rest : List Char) :
    exponentRun (c :: rest) =
      if digitRun (rest.drop (signRun rest)) = 0 then 0
      else 1 + signRun rest + digitRun (rest.drop (signRun rest)) := by
  rcases h with rfl | rfl <;> rfl

theorem Leaves.sign (h : Leaves source i rest) :
    Leaves source (if isOneAt ['+', '-'] (bytes source) i then i + 1 else i)
      (rest.drop (signRun rest)) := by
  rw [h.isOneAt_eq rfl]
  cases rest with
  | nil => exact h
  | cons c rest =>
    by_cases hplus : c = '+'
    · subst hplus
      exact h.cons
    · by_cases hminus : c = '-'
      · subst hminus
        exact h.cons
      · simpa [signRun, hplus, hminus] using h

theorem Leaves.exponent (h : Leaves source i rest) :
    Leaves source (lexExponent (bytes source) i) (rest.drop (exponentRun rest)) := by
  rw [lexExponent, h.isOneAt_eq rfl]
  cases rest with
  | nil => exact h
  | cons c rest =>
    by_cases hc : c = 'e' ∨ c = 'E'
    · have hnext : Leaves source (i + 1) rest := by
        rcases hc with rfl | rfl <;> exact h.cons
      have hsign := hnext.sign
      have hone : (some c).any ['e', 'E'].contains = true := by
        rcases hc with rfl | rfl <;> rfl
      rw [exponentRun_cons hc, List.head?_cons, if_pos hone]
      simp only
      rw [hsign.isDigitAt_eq]
      by_cases hd : digitRun (rest.drop (signRun rest)) = 0
      · rw [if_pos hd, digitRun_eq_zero_iff.1 hd]
        exact h
      · rw [if_neg hd, Bool.of_not_eq_false (mt digitRun_eq_zero_iff.2 hd), if_pos rfl]
        have hstop := hsign.digits
        rw [List.drop_drop] at hstop
        rw [Nat.add_assoc, Nat.add_comm 1]
        exact hstop
    · have hrun : exponentRun (c :: rest) = 0 := by
        rw [not_or] at hc
        simp [exponentRun, hc.1, hc.2]
      rw [hrun]
      simpa [hc] using h

theorem Leaves.number (h : Leaves source i rest) :
    Leaves source (lexNumber (bytes source) i) (rest.drop (numberRun rest)) := by
  have hstop := h.digits.fraction.exponent
  simp only [List.drop_drop] at hstop
  exact hstop

/-! ## The token at a position -/

/-- Where a token, or the lack of one, ends that has `c` and `rest` at its front. -/
def endOf (start : Nat) (c : Char) (rest : List Char) : Head → Except Failure (Token.Kind × Nat)
  | .token kind more => .ok (kind, start + byteSize (c :: rest.take more))
  | .none fault more => .error ⟨fault, start, start + byteSize (c :: rest.take more)⟩

variable {start : Nat} {c : Char}

theorem ite_eq_endOf {p : Prop} [Decidable p] {a b : Except Failure (Token.Kind × Nat)}
    {h h' : Head} (hpos : p → a = endOf start c rest h) (hneg : ¬ p → b = endOf start c rest h') :
    (if p then a else b) = endOf start c rest (if p then h else h') := by
  split
  · exact hpos (by assumption)
  · exact hneg (by assumption)

theorem lexPair_eq (h : Leaves source start (c :: rest)) (hc : c.utf8Size = 1) {second : Char}
    (hsecond : second.utf8Size = 1) (double : Token.Kind) (single : Option Token.Kind) :
    lexPair (byteSize source) start second double single (indexed (start + c.utf8Size) rest) =
      endOf start c rest (pair second double single rest) := by
  have hsize := h.size_eq
  cases rest with
  | nil => cases single <;> simp [lexPair, indexed, pair, endOf, hc, hsize]
  | cons d rest =>
    cases single with
    | none =>
      simp only [lexPair, indexed, pair]
      refine ite_eq_endOf (fun hd => ?_) fun _ => ?_
      · simp [endOf, hc, hd, hsecond]
      · simp [endOf, hc, Nat.add_assoc]
    | some kind =>
      simp only [lexPair, indexed, pair]
      refine ite_eq_endOf (fun hd => ?_) fun _ => ?_
      · simp [endOf, hc, hd, hsecond]
      · simp [endOf, hc]

/-- What does not take the next character with it is no backslash. -/
theorem ne_backslash (hlast : c = '\\' → rest = [] → False)
    (hmore : ∀ d tail, c = '\\' → rest = d :: tail → False) : c ≠ '\\' := by
  intro hc
  cases rest with
  | nil => exact hlast hc rfl
  | cons d tail => exact hmore d tail hc rfl

theorem lexString_eq {size : Nat} {quote : Char} (hquote : quote.utf8Size = 1) :
    lexString size start quote (indexed i rest) =
      match closing? quote rest with
      | some n => .ok (.string, i + byteSize (rest.take n))
      | none => .error ⟨.undelimitedString, start, size⟩ := by
  fun_induction closing? quote rest generalizing i with
  | case1 => rw [indexed, lexString]
  | case2 => simp only [indexed, lexString, if_true, List.tail_nil]
  | case3 d rest ih =>
    simp only [indexed, lexString, if_true, List.tail_cons, ih]
    cases closing? quote rest with
    | none => rfl
    | some n => simp [Nat.add_assoc]
  | case4 rest hlast hmore =>
    have hplain : quote ≠ '\\' := ne_backslash hlast hmore
    simp [indexed, lexString, hplain, hquote]
  | case5 c rest hlast hmore hc ih =>
    have hplain : c ≠ '\\' := ne_backslash hlast hmore
    simp only [indexed, lexString, if_neg hplain, if_neg hc, ih]
    cases closing? quote rest with
    | none => rfl
    | some n => simp [Nat.add_assoc]

theorem lexWhile_eq {size : Nat} (p : Char → Bool) (hsize : size = i + byteSize rest) :
    lexWhile size p (indexed i rest) = i + byteSize (rest.takeWhile p) := by
  induction rest generalizing i with
  | nil => exact hsize
  | cons c rest ih =>
    rw [indexed, lexWhile]
    by_cases hc : p c = true
    · rw [if_pos hc, ih (by rw [hsize, byteSize_cons, Nat.add_assoc]), List.takeWhile_cons_of_pos hc,
        byteSize_cons, Nat.add_assoc]
    · rw [if_neg hc, List.takeWhile_cons_of_neg hc]
      rfl

/-- A token ends where `head` says. -/
theorem lexToken_eq [Alphabet] (h : Leaves source start (c :: rest)) :
    lexToken source start c (indexed (start + c.utf8Size) rest) =
      endOf start c rest (head c rest) := by
  simp only [lexToken, head]
  iterate 7
    refine ite_eq_endOf (fun hc => by subst hc; rfl) fun _ => ?_
  iterate 5
    refine ite_eq_endOf (fun hc => lexPair_eq h (by subst hc; rfl) rfl _ _) fun _ => ?_
  refine ite_eq_endOf (fun hc => ?_) fun _ => ?_
  · subst hc
    cases rest with
    | nil => rfl
    | cons d rest =>
      by_cases hmore : d = '>'
      · subst hmore
        rfl
      · by_cases hequal : d = '='
        · subst hequal
          rfl
        · simp [indexed, pair, endOf, hmore, hequal]
          rfl
  refine ite_eq_endOf (fun hc => ?_) fun _ => ?_
  · have hquote : c.utf8Size = 1 := by rcases hc with rfl | rfl <;> rfl
    rw [lexString_eq hquote]
    cases closing? c rest with
    | some n => simp [endOf, Nat.add_assoc]
    | none => simp [endOf, h.size_eq]
  refine ite_eq_endOf (fun hc => ?_) fun _ => ?_
  · have hstop := h.number
    rw [numberRun_cons hc, List.drop_succ_cons] at hstop
    have htaken : Leaves source start (c :: rest.take (numberRun rest) ++ rest.drop (numberRun rest)) := by
      rwa [List.cons_append, List.take_append_drop]
    rw [hstop.unique (htaken.append _)]
    rfl
  have hwhile (p : Char → Bool) (kind : Token.Kind) :
      .ok (kind, lexWhile (byteSize source) p (indexed (start + c.utf8Size) rest)) =
        endOf start c rest (.token kind (rest.takeWhile p).length) := by
    have htake := List.prefix_iff_eq_take.1 (List.takeWhile_prefix (l := rest) p)
    rw [lexWhile_eq p h.cons.size_eq, endOf, ← htake, byteSize_cons, Nat.add_assoc]
  refine ite_eq_endOf (fun _ => hwhile isBlank .blank) fun _ => ?_
  exact ite_eq_endOf (fun _ => hwhile isIdentifierPart .word) fun _ => rfl

theorem lex_nil [Alphabet] (h : Leaves source i []) : lex source i = pure none := by
  rw [lex, h.cutFrom_eq]
  rfl

theorem lex_cons [Alphabet] (h : Leaves source i (c :: rest)) :
    lex source i =
      match head c rest with
      | .token kind more => pure (some (kind, ⟨i, i + byteSize (c :: rest.take more)⟩))
      | .none fault more => throw ⟨fault, i, i + byteSize (c :: rest.take more)⟩ := by
  rw [lex, h.cutFrom_eq]
  simp only [liftM_pure, pure_bind, indexed, lexToken_eq h]
  cases head c rest <;> rfl

/-! ## The tokens of a source -/

/-- Whether every backslash has a character after it that it takes with it. -/
def Balanced : List Char → Prop
  | [] => True
  | ['\\'] => False
  | '\\' :: _ :: rest => Balanced rest
  | _ :: rest => Balanced rest

/-- Up to the quote that closes it a string is balanced. -/
theorem balanced_of_closing? {quote : Char} {n : Nat} (h : closing? quote rest = some n) :
    ∃ inner, rest.take n = inner ++ [quote] ∧ Balanced inner := by
  fun_induction closing? quote rest generalizing n with
  | case1 => cases h
  | case2 => cases h
  | case3 d rest ih =>
    obtain ⟨k, hk, rfl⟩ := Option.map_eq_some_iff.1 h
    obtain ⟨inner, hinner, hbalanced⟩ := ih hk
    exact ⟨'\\' :: d :: inner, by simp [hinner], by simpa [Balanced] using hbalanced⟩
  | case4 rest hlast hmore =>
    cases h
    exact ⟨[], rfl, trivial⟩
  | case5 c rest hlast hmore hc ih =>
    obtain ⟨k, hk, rfl⟩ := Option.map_eq_some_iff.1 h
    obtain ⟨inner, hinner, hbalanced⟩ := ih hk
    have hplain : c ≠ '\\' := ne_backslash hlast hmore
    exact ⟨c :: inner, by simp [hinner], by simpa [Balanced, hplain] using hbalanced⟩

/-- Whether a token is where it says in a source, and is quoted if it is a string. -/
structure Genuine (source : List Char) (t : Token) : Prop where
  leaves : ∃ rest, Leaves source t.start (t.text ++ rest)
  quoted : t.kind = .string →
    ∃ quote inner, t.text = quote :: (inner ++ [quote]) ∧ quote.utf8Size = 1 ∧ Balanced inner

/-- The text of a token is cut out of the source by its span. -/
theorem Genuine.cut_eq {t : Token} (h : Genuine source t) :
    cut source t.span.start t.span.stop = pure t.text := by
  obtain ⟨rest, hrest⟩ := h.leaves
  exact hrest.cut_eq rfl

theorem pair_ne_string {second : Char} {double : Token.Kind} {single : Option Token.Kind}
    (hdouble : double ≠ .string) (hsingle : single ≠ some .string) (more : Nat) :
    pair second double single rest ≠ .token .string more := by
  unfold pair
  split
  · split <;> simp_all
  · split <;> simp_all
  · simp_all
  · simp_all

variable [Alphabet]

/-- Nothing but a quote is the front of a string. -/
theorem head_ne_string (hc : ¬ (c = '"' ∨ c = '\'')) (more : Nat) :
    head c rest ≠ .token .string more := by
  have branch {p : Prop} [Decidable p] {h h' : Head} (hpos : p → h ≠ .token .string more)
      (hneg : ¬ p → h' ≠ .token .string more) : (if p then h else h') ≠ .token .string more := by
    split
    · exact hpos (by assumption)
    · exact hneg (by assumption)
  unfold head
  iterate 7 refine branch (fun _ => by simp) fun _ => ?_
  iterate 5 refine branch (fun _ => pair_ne_string (by simp) (by simp) more) fun _ => ?_
  refine branch (fun _ => ?_) fun _ => ?_
  · split
    · simp
    · exact pair_ne_string (by simp) (by simp) more
  refine branch (fun hquote => absurd hquote hc) fun _ => ?_
  iterate 3 refine branch (fun _ => by simp) fun _ => ?_
  simp

theorem quoted_of_head {more : Nat} (h : head c rest = .token .string more) :
    ∃ inner, rest.take more = inner ++ [c] ∧ c.utf8Size = 1 ∧ Balanced inner := by
  by_cases hc : c = '"' ∨ c = '\''
  · have hclosing : closing? c rest = some more := by
      rcases hc with rfl | rfl <;> simp [head] at h <;> split at h <;> cases h <;> assumption
    obtain ⟨inner, hinner, hbalanced⟩ := balanced_of_closing? hclosing
    exact ⟨inner, hinner, by rcases hc with rfl | rfl <;> rfl, hbalanced⟩
  · exact absurd h (head_ne_string hc more)

theorem genuine_of_mem_scanFrom (h : Leaves source i rest) :
    ∀ t ∈ (scanFrom i rest).tokens, Genuine source t := by
  fun_induction scanFrom i rest with
  | case1 => simp
  | case2 => simp
  | case3 start c rest kind more hhead token after ih =>
    have hrest : Leaves source start (c :: rest.take more ++ rest.drop more) := by
      rwa [List.cons_append, List.take_append_drop]
    refine List.forall_mem_cons.2 ⟨⟨⟨_, hrest⟩, fun hstring => ?_⟩, ih (hrest.append _)⟩
    cases hstring
    obtain ⟨inner, hinner, hquote, hbalanced⟩ := quoted_of_head hhead
    exact ⟨c, inner, congrArg (c :: ·) hinner, hquote, hbalanced⟩

/-- Whether these are the tokens that a position faces, blank ones left out, and the failure behind
them. -/
def Faces (source : List Char) (cursor : Nat) (tokens : List Token) (failure? : Option Failure) :
    Prop :=
  ∃ rest, Leaves source cursor rest ∧ (scanFrom cursor rest).significant = ⟨tokens, failure?⟩

theorem Faces.genuine {tokens : List Token} {failure? : Option Failure}
    (h : Faces source i tokens failure?) : ∀ t ∈ tokens, Genuine source t := by
  obtain ⟨rest, hrest, hscan⟩ := h
  intro t ht
  refine genuine_of_mem_scanFrom hrest t ?_
  have htokens : (scanFrom i rest).significant.tokens = tokens := congrArg Scan.tokens hscan
  rw [← htokens] at ht
  exact (List.mem_filter.1 ht).1

/-- The next token is the first that the position faces. -/
theorem lexNext_eq (h : Leaves source i rest) :
    match (scanFrom i rest).significant with
    | ⟨t :: tokens, failure?⟩ =>
      ∃ next, lexNext source i = pure (some (t.kind, t.span), next) ∧
        Faces source next tokens failure?
    | ⟨[], none⟩ => ∃ next, lexNext source i = pure (none, next) ∧ Faces source next [] none
    | ⟨[], some failure⟩ => lexNext source i = throw failure := by
  fun_induction scanFrom i rest with
  | case1 start =>
    refine ⟨start, ?_, [], h, by rw [scanFrom]; rfl⟩
    rw [lexNext, lex_nil h]
    rfl
  | case2 start c rest fault more hhead =>
    rw [lexNext, lex_cons h, hhead]
    rfl
  | case3 start c rest kind more hhead token after ih =>
    have hrest : Leaves source start (c :: rest.take more ++ rest.drop more) := by
      rwa [List.cons_append, List.take_append_drop]
    have hafter : Leaves source token.span.stop (rest.drop more) := hrest.append _
    by_cases hblank : kind = .blank
    · subst hblank
      have hsize := hafter.size_eq
      have hstop : start < token.span.stop ∧ token.span.stop ≤ byteSize source := by
        have hpos := c.utf8Size_pos
        refine ⟨?_, by omega⟩
        simp only [Token.span, token, byteSize_cons]
        omega
      have hstep : lexNext source start = lexNext source token.span.stop := by
        rw [lexNext, lex_cons h, hhead]
        exact if_pos hstop
      have hsame : Scan.significant ⟨token :: after.tokens, after.failure?⟩ = after.significant := rfl
      rw [hstep, hsame]
      exact ih hafter
    · have hfirst : Scan.significant ⟨token :: after.tokens, after.failure?⟩ =
          ⟨token :: after.significant.tokens, after.failure?⟩ := by
        simp [Scan.significant, token, hblank]
      rw [hfirst]
      refine ⟨token.span.stop, ?_, rest.drop more, hafter, rfl⟩
      rw [lexNext, lex_cons h, hhead]
      exact if_neg hblank

variable {tokens : List Token} {failure? : Option Failure}

/-- A position with a token in front of it finds it and comes to face the others. -/
theorem Faces.lexNext_cons {t : Token} (h : Faces source i (t :: tokens) failure?) :
    ∃ next, lexNext source i = pure (some (t.kind, t.span), next) ∧
      Faces source next tokens failure? := by
  obtain ⟨rest, hrest, hscan⟩ := h
  have hnext := lexNext_eq hrest
  rwa [hscan] at hnext

theorem Faces.lexNext_nil (h : Faces source i [] none) :
    ∃ next, lexNext source i = pure (none, next) ∧ Faces source next [] none := by
  obtain ⟨rest, hrest, hscan⟩ := h
  have hnext := lexNext_eq hrest
  rwa [hscan] at hnext

theorem Faces.lexNext_fail {failure : Failure} (h : Faces source i [] (some failure)) :
    lexNext source i = throw failure := by
  obtain ⟨rest, hrest, hscan⟩ := h
  have hnext := lexNext_eq hrest
  rwa [hscan] at hnext

end Stencil.Checked
