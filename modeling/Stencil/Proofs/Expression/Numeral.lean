/-
Integers as they are written, read as expressions.

The text of an integer is its digits, with a minus in front if it is negative. The reader takes the
minus for an operator and the digits for a literal of their own (`Numeral.operand_tokens`), which
must be an integer of 64 bits. So the text is read back just if the number without its sign is one;
of all integers of 64 bits the least alone is not read back.
-/
import Stencil.Proofs.Expression.Calculation
import Stencil.Proofs.Expression.Parse

namespace Stencil.Expression

/-! ## Digits -/

theorem digitsValue_toDigits (n : Nat) : Decimal.digitsValue (Nat.toDigits 10 n) = n :=
  Nat.ofDigitChars_ten_toDigits

theorem isDigit_of_mem_toDigits {n : Nat} {c : Char} (h : c ∈ Nat.toDigits 10 n) :
    c.isDigit = true :=
  Nat.isDigit_of_mem_toDigits (by decide) (by decide) h

theorem not_mem_toDigits {n : Nat} {c : Char} (hc : c.isDigit = false) : c ∉ Nat.toDigits 10 n :=
  fun h => by simp [isDigit_of_mem_toDigits h] at hc

theorem not_isBlank_of_isDigit {c : Char} (h : c.isDigit = true) : Text.isBlank c = false := by
  have hcode : 48 ≤ c.toNat ∧ c.toNat ≤ 57 := by
    simpa [Char.isDigit, UInt32.le_iff_toNat_le] using h
  simp [Text.isBlank, Text.Ranges.contains, Text.whiteSpace]
  omega

/-- Digits are read as the number that they are the digits of, if it fits. -/
theorem numberValue_toDigits (n : Nat) :
    numberValue (Nat.toDigits 10 n) =
      if Fits n then .ok (.integer (Int64.ofInt n)) else .error .integerOutOfRange := by
  have hwhole : ¬('.' ∈ Nat.toDigits 10 n ∨ 'e' ∈ Nat.toDigits 10 n ∨ 'E' ∈ Nat.toDigits 10 n) := by
    rintro (h | h | h) <;> exact not_mem_toDigits rfl h
  rw [numberValue, if_neg hwhole, digitsValue_toDigits]
  by_cases hfits : Fits n
  · rw [narrow?_of_fits hfits, if_pos hfits]
  · rw [narrow?_of_not_fits hfits, if_neg hfits]

theorem head_of_isDigit [Text.Alphabet] {c : Char} (h : c.isDigit = true) (rest : List Char) :
    head c rest = .token .number (numberRun rest) := by
  have hne {d : Char} (hd : d.isDigit = false) : c ≠ d := by
    rintro rfl
    simp [h] at hd
  unfold head
  simp only [hne (d := '(') rfl, hne (d := ')') rfl, hne (d := '+') rfl, hne (d := '-') rfl,
    hne (d := '*') rfl, hne (d := '/') rfl, hne (d := '%') rfl, hne (d := '|') rfl,
    hne (d := '&') rfl, hne (d := '=') rfl, hne (d := '!') rfl, hne (d := '>') rfl,
    hne (d := '<') rfl, hne (d := '"') rfl, hne (d := '\'') rfl, h, if_true, if_false, or_self]

/-- Whether a number cannot go on in a text: there is none, or a space first. -/
def EndsNumber (rest : List Char) : Prop := ∀ c ∈ rest.head?, c = ' '

theorem numberRun_append {digits rest : List Char} (hdigits : ∀ c ∈ digits, c.isDigit = true)
    (hrest : EndsNumber rest) : numberRun (digits ++ rest) = digits.length := by
  have hrun : digitRun (digits ++ rest) = digits.length := by
    rw [digitRun, List.takeWhile_append_of_pos hdigits, List.length_append]
    cases rest with
    | nil => rfl
    | cons c rest =>
      obtain rfl := hrest c rfl
      rfl
  have hends : fractionRun rest = 0 ∧ exponentRun rest = 0 := by
    cases rest with
    | nil => exact ⟨rfl, rfl⟩
    | cons c rest =>
      obtain rfl := hrest c rfl
      exact ⟨rfl, rfl⟩
  rw [numberRun, hrun, List.drop_left, hends.1, Nat.add_zero, List.drop_left, hends.2,
    Nat.add_zero]

/-- Whether a text has a character in front that is not blank. -/
def StartsWord (text : List Char) : Prop :=
  ∃ c rest, text = c :: rest ∧ Text.isBlank c = false

/-- A space in front of a word is a token by itself. -/
theorem scans_space [Text.Alphabet] {start : Nat} {word rest : List Char} {ts : List Token}
    (hword : StartsWord word) (h : ScansBefore rest (start + 1) word ts) :
    ScansBefore rest start ([' '] ++ word) ([⟨.blank, [' '], start⟩] ++ ts) := by
  obtain ⟨c, more, rfl, hc⟩ := hword
  have hspace : ScansBefore (c :: more ++ rest) start [' '] [⟨.blank, [' '], start⟩] := by
    refine .token start ?_
    show Head.token .blank ((c :: (more ++ rest)).takeWhile Text.isBlank).length = _
    rw [List.takeWhile_cons_of_neg (by simp [hc])]
  exact hspace.append h

/-! ## Texts of integers -/

namespace Numeral

/-- The text of an integer. -/
def text : Int → List Char
  | .ofNat n => Nat.toDigits 10 n
  | .negSucc n => '-' :: Nat.toDigits 10 (n + 1)

/-- The digits of an integer as a token; `start` is where the text of the integer starts. -/
def digits (start : Nat) : Int → Token
  | .ofNat n => ⟨.number, Nat.toDigits 10 n, start⟩
  | .negSucc n => ⟨.number, Nat.toDigits 10 (n + 1), start + 1⟩

/-- The tokens of the text of an integer. -/
def tokens (start : Nat) : Int → List Token
  | .ofNat n => [digits start (.ofNat n)]
  | .negSucc n => [⟨.minus, ['-'], start⟩, digits start (.negSucc n)]

/-- The expression that the text of an integer is. -/
def calculation (start : Nat) : Int → Calculation
  | .ofNat n => .literal (Int64.ofInt n) (digits start (.ofNat n)).span
  | .negSucc n =>
    .negate (.literal (Int64.ofInt (n + 1 : Nat)) (digits start (.negSucc n)).span)
      (Span.join ⟨start, start + 1⟩ (digits start (.negSucc n)).span)

theorem toList_text_integer (a : Int64) : (Value.integer a).text.toList = text a.toInt := by
  show (a.toInt.repr).toList = _
  cases a.toInt with
  | ofNat n => exact Nat.toList_repr
  | negSucc n =>
    show ("-" ++ (n + 1).repr).toList = _
    rw [String.toList_append, Nat.toList_repr]
    rfl

theorem not_mem_text {c : Char} (hminus : c ≠ '-') (hdigit : c.isDigit = false) (n : Int) :
    c ∉ text n := by
  cases n with
  | ofNat n => exact not_mem_toDigits hdigit
  | negSucc n => exact List.not_mem_cons_of_ne_of_not_mem hminus (not_mem_toDigits hdigit)

/-- The text of an integer starts with a minus or a digit. -/
theorem startsWord_text (n : Int) : StartsWord (text n) := by
  cases n with
  | ofNat n =>
    cases hn : Nat.toDigits 10 n with
    | nil => exact absurd hn Nat.toDigits_ne_nil
    | cons c rest =>
      have hc : c.isDigit = true := isDigit_of_mem_toDigits (hn ▸ List.mem_cons_self)
      exact ⟨c, rest, hn, not_isBlank_of_isDigit hc⟩
  | negSucc n => exact ⟨'-', _, rfl, by decide⟩

/-- Of the integers of 64 bits only the least does not fit without its sign. -/
theorem fits_natAbs_iff (a : Int64) : Fits a.toInt.natAbs ↔ a ≠ Int64.minValue := by
  have hfits := fits_iff.1 (fits_toInt a)
  rw [fits_iff, ne_eq, ← Int64.toInt_inj, Int64.toInt_minValue]
  omega

/-- The text of an integer is cut into its tokens if a number ends in front of what follows. -/
theorem scans_text [Text.Alphabet] (start : Nat) (n : Int) {rest : List Char}
    (hrest : EndsNumber rest) : ScansBefore rest start (text n) (tokens start n) := by
  have hdigits (start n : Nat) :
      ScansBefore rest start (Nat.toDigits 10 n) [⟨.number, Nat.toDigits 10 n, start⟩] := by
    have hall : ∀ c ∈ Nat.toDigits 10 n, c.isDigit = true := fun c hc => isDigit_of_mem_toDigits hc
    cases hn : Nat.toDigits 10 n with
    | nil => exact absurd hn Nat.toDigits_ne_nil
    | cons c more =>
      rw [hn, List.forall_mem_cons] at hall
      refine .token start ?_
      rw [head_of_isDigit hall.1, numberRun_append hall.2 hrest]
  cases n with
  | ofNat n => exact hdigits start n
  | negSucc n =>
    have hminus : ScansBefore (Nat.toDigits 10 (n + 1) ++ rest) start ['-']
        [⟨.minus, ['-'], start⟩] := .token start rfl
    exact hminus.append (hdigits (start + 1) (n + 1))

/-- What the reader makes of the text of an integer. -/
theorem operand_tokens (ending : Ending) (room start : Nat) (n : Int) (rest : List Token) :
    operand ending (room + 1) (tokens start n ++ rest) =
      if Fits n.natAbs then .ok ((calculation start n).tree, rest)
      else .error ⟨.integerOutOfRange, (digits start n).span⟩ := by
  have hdigits (room start n : Nat) :
      operand ending room (⟨.number, Nat.toDigits 10 n, start⟩ :: rest) =
        if Fits n then
          .ok (.literal (.integer (Int64.ofInt n)) (Token.span ⟨.number, Nat.toDigits 10 n, start⟩),
            rest)
        else .error ⟨.integerOutOfRange, Token.span ⟨.number, Nat.toDigits 10 n, start⟩⟩ := by
    unfold operand
    simp only [Token.unary?, Token.value, numberValue_toDigits, reduceCtorEq, if_false]
    split <;> rfl
  -- The minus takes a level of its own; the digits behind it are read as if it were not there.
  cases n with
  | ofNat n => exact hdigits (room + 1) start n
  | negSucc n =>
    have hminus : (⟨.minus, ['-'], start⟩ : Token).unary? = some .negate := rfl
    rw [tokens, List.cons_append, List.singleton_append, operand_prefix_succ hminus, digits,
      hdigits room (start + 1) (n + 1)]
    show _ = if Fits (n + 1 : Nat) then _ else _
    split <;> rfl

theorem exact_calculation (start : Nat) {n : Int} (h : Fits n.natAbs) :
    (calculation start n).exact = n := by
  cases n with
  | ofNat n => exact toInt_ofInt_of_fits h
  | negSucc n =>
    have hmagnitude : (Int64.ofInt (n + 1 : Nat)).toInt = (n + 1 : Nat) := toInt_ofInt_of_fits h
    rw [calculation, Calculation.exact, Calculation.exact, hmagnitude]
    rfl

theorem failure?_calculation (start : Nat) {n : Int} (hn : Fits n) (h : Fits n.natAbs) :
    (calculation start n).failure? = none := by
  rw [Calculation.failure?_eq_none_iff]
  intro s hs
  rw [Calculation.fault?_eq_none_iff]
  cases n with
  | ofNat n =>
    obtain rfl := List.mem_singleton.1 hs
    exact ⟨rfl, fits_toInt _, rfl⟩
  | negSucc n =>
    have hexact := exact_calculation start h
    rcases List.mem_append.1 hs with hs | hs
    · obtain rfl := List.mem_singleton.1 hs
      exact ⟨rfl, fits_toInt _, rfl⟩
    · obtain rfl := List.mem_singleton.1 hs
      refine ⟨rfl, ?_, rfl⟩
      rw [← calculation, hexact]
      exact hn

/-- The expression that the text of an integer is has the integer for its value. -/
theorem evaluate_calculation_toInt (start : Nat) {a : Int64} (ha : a ≠ Int64.minValue) :
    (calculation start a.toInt).tree.evaluate = .ok (.integer a) := by
  have hmagnitude := (fits_natAbs_iff a).2 ha
  exact Calculation.evaluate_eq_ok_iff.2
    ⟨failure?_calculation start (fits_toInt a) hmagnitude, a, rfl,
      (exact_calculation start hmagnitude).symm⟩

/-! ## Their values -/

theorem expression_tokens (ending : Ending) (room least start : Nat) (n : Int)
    (rest : List Token) :
    expression ending (room + 1) least (tokens start n ++ rest) =
      if Fits n.natAbs then climb ending (room + 1) least (calculation start n).tree rest
      else .error ⟨.integerOutOfRange, (digits start n).span⟩ := by
  rw [expression, operand_tokens]
  split <;> rfl

theorem filter_tokens (start : Nat) (n : Int) :
    (tokens start n).filter (fun t => t.kind != .blank) = tokens start n := by
  cases n <;> rfl

variable [Text.Alphabet]

/-- All the room there is, in a form that an operator can take a level of. -/
theorem parse_of_lexes {source : List Char} {ts : List Token} (h : Lexes source ts) :
    parse source = expression ⟨none, Text.byteSize source⟩ (255 + 1) 0 ts >>= fun r =>
      match r.2 with
      | [] => .ok r.1
      | t :: _ => .error ⟨.unexpected .operator (some t.kind), t.span⟩ := by
  rw [parse_eq_bind, h.failure?_eq, h.tokens_eq]
  rfl

theorem parse_text (n : Int) :
    parse (text n) =
      if Fits n.natAbs then .ok (calculation 0 n).tree
      else .error ⟨.integerOutOfRange, (digits 0 n).span⟩ := by
  have hlexes : Lexes (text n) (tokens 0 n) := by
    have hends : EndsNumber [] := fun c hc => by cases hc
    have hscan := (scans_text 0 n hends).lexes
    rwa [filter_tokens] at hscan
  have hstops : (⟨none, Text.byteSize (text n)⟩ : Ending).Stops 0 [] := rfl
  have hread := expression_tokens ⟨none, Text.byteSize (text n)⟩ 255 0 0 n []
  rw [List.append_nil, climb_of_stops hstops] at hread
  rw [parse_of_lexes hlexes, hread]
  split <;> rfl

/-- The value of the text of an integer. -/
theorem value_text (a : Int64) :
    (a ≠ Int64.minValue → value (text a.toInt) = .ok (.integer a)) ∧
    (a = Int64.minValue → ∃ span, value (text a.toInt) = .error ⟨.integerOutOfRange, span⟩) := by
  have hparse := parse_text a.toInt
  simp only [fits_natAbs_iff] at hparse
  refine ⟨fun ha => ?_, fun ha => ?_⟩
  · rw [if_pos ha] at hparse
    rw [value, hparse]
    exact evaluate_calculation_toInt 0 ha
  · rw [if_neg (not_not_intro ha)] at hparse
    exact ⟨_, by rw [value, hparse]; rfl⟩

end Numeral

theorem eval_of_value_eq_ok [Text.Alphabet] {source : String} {v : Value} (h : value source.toList = .ok v) :
    eval source = .ok v := by
  rw [eval, h]
  rfl

theorem eval_of_value_eq_error [Text.Alphabet] {source : String} {failure : Failure}
    (h : value source.toList = .error failure) :
    eval source = .error (.expression failure.fault (.of source.toList failure.span)) := by
  rw [eval, h]
  rfl

/-! ## Comparisons -/

namespace Comparison

/-- The operator as it is written. -/
def sign : Comparison → String
  | .equal => "=="
  | .unequal => "!="
  | .less => "<"
  | .atMost => "<="
  | .greater => ">"
  | .atLeast => ">="

def kind : Comparison → Token.Kind
  | .equal => .equal
  | .unequal => .unequal
  | .less => .less
  | .atMost => .atMost
  | .greater => .greater
  | .atLeast => .atLeast

/-- Whether two integers are as the operator says. -/
def relates : Comparison → Int → Int → Bool
  | .equal, m, n => m = n
  | .unequal, m, n => m ≠ n
  | .less, m, n => m < n
  | .atMost, m, n => m ≤ n
  | .greater, m, n => n < m
  | .atLeast, m, n => n ≤ m

variable (op : Comparison)

theorem binary?_kind (text : List Char) (start : Nat) :
    (⟨op.kind, text, start⟩ : Token).binary? = some (.comparison op) := by
  cases op <;> rfl

theorem startsWord_sign (rest : List Char) : StartsWord (op.sign.toList ++ rest) := by
  cases op <;> exact ⟨_, _, rfl, by decide⟩

theorem scans_sign [Text.Alphabet] (start : Nat) {rest : List Char} (h : ∃ more, rest = ' ' :: more) :
    ScansBefore rest start op.sign.toList [⟨op.kind, op.sign.toList, start⟩] := by
  obtain ⟨more, rfl⟩ := h
  cases op <;> exact .token start rfl

theorem holds_integer (a b : Int64) :
    op.holds (.integer a) (.integer b) = .ok (op.relates a.toInt b.toInt) := by
  have horder : order (.integer a) (.integer b) = .ok (some (compare a.toInt b.toInt)) := rfl
  rcases Int.lt_trichotomy a.toInt b.toInt with h | h | h
  · have hcompare : compare a.toInt b.toInt = .lt := Int.compare_eq_lt.2 h
    cases op <;> simp [holds, equals, horder, relates, Except.map, hcompare] <;> omega
  · have hcompare : compare a.toInt b.toInt = .eq := Int.compare_eq_eq.2 h
    cases op <;> simp [holds, equals, horder, relates, Except.map, hcompare] <;> omega
  · have hcompare : compare a.toInt b.toInt = .gt := Int.compare_eq_gt.2 h
    cases op <;> simp [holds, equals, horder, relates, Except.map, hcompare] <;> omega

/-! ## Texts of comparisons -/

variable [Text.Alphabet]

/-- The text of a comparison of two integers. -/
def text (m n : Int) : List Char :=
  Numeral.text m ++ ([' '] ++ (op.sign.toList ++ ([' '] ++ Numeral.text n)))

/-- The tokens of a comparison are those of the integers and the operator between them. -/
theorem exists_lexes_text (m n : Int) : ∃ place start,
    Lexes (op.text m n)
      (Numeral.tokens 0 m ++ ⟨op.kind, op.sign.toList, place⟩ :: Numeral.tokens start n) := by
  have hends : EndsNumber [] := fun c hc => by cases hc
  have hright (k : Nat) : ScansBefore [] k ([' '] ++ Numeral.text n) _ :=
    scans_space (Numeral.startsWord_text n) (Numeral.scans_text (k + 1) n hends)
  have hsign (k : Nat) : ScansBefore [] k (op.sign.toList ++ ([' '] ++ Numeral.text n)) _ :=
    (op.scans_sign k ⟨_, rfl⟩).append (hright _)
  have hmiddle (k : Nat) :
      ScansBefore [] k ([' '] ++ (op.sign.toList ++ ([' '] ++ Numeral.text n))) _ :=
    scans_space (op.startsWord_sign _) (hsign (k + 1))
  have hspace : EndsNumber (([' '] ++ (op.sign.toList ++ ([' '] ++ Numeral.text n))) ++ []) :=
    fun c hc => (Option.some.inj hc).symm
  have hscan := (Numeral.scans_text 0 m hspace).append (hmiddle _)
  have hlexes := hscan.lexes
  have hkind : (op.kind != .blank) = true := by cases op <;> rfl
  simp only [List.filter_append, Numeral.filter_tokens, List.filter_cons, hkind,
    bne_self_eq_false, Bool.false_eq_true, if_true, if_false, List.singleton_append] at hlexes
  exact ⟨_, _, hlexes⟩

/-- A comparison is read if both integers are, and else has the failure of the first that is not. -/
theorem exists_parse_text (m n : Int) : ∃ start span,
    parse (op.text m n) =
      if Fits m.natAbs then
        if Fits n.natAbs then
          .ok (.binary (.comparison op) (Numeral.calculation 0 m).tree
            (Numeral.calculation start n).tree span)
        else .error ⟨.integerOutOfRange, (Numeral.digits start n).span⟩
      else .error ⟨.integerOutOfRange, (Numeral.digits 0 m).span⟩ := by
  obtain ⟨place, start, hlexes⟩ := op.exists_lexes_text m n
  refine ⟨start, (Numeral.calculation 0 m).tree.span.join (Numeral.calculation start n).tree.span, ?_⟩
  have hstops (level : Nat) :
      (⟨none, Text.byteSize (op.text m n)⟩ : Ending).Stops level [] := rfl
  have hright (level : Nat) := Numeral.expression_tokens
    ⟨none, Text.byteSize (op.text m n)⟩ 254 level start n []
  rw [Numeral.parse_of_lexes hlexes, Numeral.expression_tokens]
  split
  · rw [climb_succ (op.binary?_kind _ _) (Nat.zero_le _), ← List.append_nil (Numeral.tokens start n),
      hright]
    split
    · rw [climb_of_stops (hstops _)]
      show climb _ _ _ _ _ >>= _ = _
      rw [climb_of_stops (hstops _)]
      rfl
    · rfl
  · rfl

/-- The value of a comparison of integers. -/
theorem value_text (a b : Int64) :
    (a ≠ Int64.minValue → b ≠ Int64.minValue →
      value (op.text a.toInt b.toInt) = .ok (.bool (op.relates a.toInt b.toInt))) ∧
    (a = Int64.minValue ∨ b = Int64.minValue →
      ∃ span, value (op.text a.toInt b.toInt) = .error ⟨.integerOutOfRange, span⟩) := by
  obtain ⟨start, span, hparse⟩ := op.exists_parse_text a.toInt b.toInt
  simp only [Numeral.fits_natAbs_iff] at hparse
  refine ⟨fun ha hb => ?_, fun h => ?_⟩
  · rw [if_pos ha, if_pos hb] at hparse
    have hleft := Numeral.evaluate_calculation_toInt 0 ha
    have hright := Numeral.evaluate_calculation_toInt start hb
    rw [value, hparse]
    show Tree.evaluate _ = _
    rw [Tree.evaluate, hleft, hright]
    show Fault.at span (op.holds (.integer a) (.integer b)) >>= _ = _
    rw [op.holds_integer]
    rfl
  · by_cases ha : a = Int64.minValue
    · rw [if_neg (not_not_intro ha)] at hparse
      exact ⟨_, by rw [value, hparse]; rfl⟩
    · rw [if_pos ha, if_neg (not_not_intro (h.resolve_left ha))] at hparse
      exact ⟨_, by rw [value, hparse]; rfl⟩

end Comparison

end Stencil.Expression
