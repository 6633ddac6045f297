/-
Which texts are tokens, each by itself.

`Lexeme` says of a text that it is a token of some kind, without regard to what stands around it. The
scan looks at a text from its front only. What it takes is the longest lexeme that the text starts
with, and where it takes none the text starts with none (`munches_head`). By their first character
lexemes fall into five groups, of which no two have a character in common where the alphabet is
lawful (`Lexeme.opening_eq`). So it is enough to compare what is taken with the other lexemes of its
group: signs with a few signs, runs with runs, a string with the strings that have the same quote, and
a number with the ways to break off a number. As a text is of one kind at most, the longest lexeme
determines the token (`scanFrom_append`).
-/
import Stencil.Proofs.Expression.Numeral
import Stencil.Proofs.Expression.Quotation

namespace Stencil.Expression

open Checked (signRun exponentRun_cons digitRun_eq_zero_iff numberRun_cons)
open Text

variable {kind k : Token.Kind} {text rest more z : List Char} {c : Char}

/-! ## Signs -/

/-- The signs. -/
def signs : List (Token.Kind × List Char) :=
  [(.openParen, ['(']), (.closeParen, [')']), (.plus, ['+']), (.minus, ['-']), (.star, ['*']),
   (.slash, ['/']), (.percent, ['%']), (.orSign, ['|', '|']), (.andSign, ['&', '&']),
   (.equal, ['=', '=']), (.equal, ['=']), (.unequal, ['!', '=']), (.bang, ['!']),
   (.atLeast, ['>', '=']), (.greater, ['>']), (.atMost, ['<', '=']), (.unequal, ['<', '>']),
   (.less, ['<'])]

/-- What signs have behind a character that they start with. -/
def tails (c : Char) : List (List Char) := (signs.filter (·.2.head? == some c)).map (·.2.tail)

theorem mem_tails (h : (kind, c :: more) ∈ signs) : more ∈ tails c :=
  List.mem_map.2 ⟨_, List.mem_filter.2 ⟨h, beq_iff_eq.2 List.head?_cons⟩, rfl⟩

/-! ## Numbers -/

/-- A run of digits, one at least. -/
def IsDigits (text : List Char) : Prop := text ≠ [] ∧ ∀ c ∈ text, c.isDigit = true

/-- The fraction of a number, if any: a point and digits. -/
inductive IsFraction : List Char → Prop
  | none : IsFraction []
  | point {digits : List Char} (h : IsDigits digits) : IsFraction ('.' :: digits)

/-- The exponent of a number, if any: `e` or `E`, perhaps a sign, and digits. -/
inductive IsExponent : List Char → Prop
  | none : IsExponent []
  | mark {e : Char} {sign digits : List Char} (he : e = 'e' ∨ e = 'E')
      (hsign : sign = [] ∨ sign = ['+'] ∨ sign = ['-']) (h : IsDigits digits) :
      IsExponent (e :: (sign ++ digits))

theorem digitRun_append {digits : List Char} (h : ∀ d ∈ digits, d.isDigit = true) (z : List Char) :
    digitRun (digits ++ z) = digits.length + digitRun z := by
  rw [digitRun, List.takeWhile_append_of_pos h, List.length_append, digitRun]

theorem take_digitRun (text : List Char) :
    text.take (digitRun text) = text.takeWhile Char.isDigit :=
  (List.prefix_iff_eq_take.1 (List.takeWhile_prefix _)).symm

theorem isDigits_take (h : digitRun text ≠ 0) : IsDigits (text.take (digitRun text)) := by
  rw [take_digitRun]
  refine ⟨fun hnil => h ?_, fun d hd => List.mem_takeWhile_imp hd⟩
  rw [digitRun, hnil, List.length_nil]

theorem isFraction_take (text : List Char) : IsFraction (text.take (fractionRun text)) := by
  unfold fractionRun
  split
  · rename_i rest
    split
    · exact .none
    · rename_i hdigits
      rw [Nat.add_comm, List.take_succ_cons]
      exact .point (isDigits_take hdigits)
  · exact .none

theorem take_signRun (text : List Char) :
    text.take (signRun text) = [] ∨ text.take (signRun text) = ['+'] ∨
      text.take (signRun text) = ['-'] := by
  unfold signRun
  split <;> simp

theorem isExponent_take (text : List Char) : IsExponent (text.take (exponentRun text)) := by
  cases text with
  | nil => exact .none
  | cons e rest =>
    by_cases he : e = 'e' ∨ e = 'E'
    · rw [exponentRun_cons he]
      split
      · exact .none
      · rename_i hdigits
        have hmark := IsExponent.mark he (take_signRun rest) (isDigits_take hdigits)
        rw [← List.take_add, ← List.take_succ_cons] at hmark
        rwa [Nat.add_assoc, Nat.add_comm 1]
    · rw [not_or] at he
      have hnone : exponentRun (e :: rest) = 0 := by simp [exponentRun, he.1, he.2]
      rw [hnone]
      exact .none

section

variable {whole fraction exponent digits sign : List Char}

theorem signRun_append (hsign : sign = [] ∨ sign = ['+'] ∨ sign = ['-']) (h : IsDigits digits)
    (z : List Char) : signRun (sign ++ (digits ++ z)) = sign.length := by
  obtain ⟨d, more, rfl⟩ := List.exists_cons_of_ne_nil h.1
  have hd : d.isDigit = true := h.2 d List.mem_cons_self
  rcases hsign with rfl | rfl | rfl
  · have hplus : d ≠ '+' := by
      rintro rfl
      cases hd
    have hminus : d ≠ '-' := by
      rintro rfl
      cases hd
    simp [signRun, hplus, hminus]
  · rfl
  · rfl

theorem IsExponent.length_le (h : IsExponent exponent) (z : List Char) :
    exponent.length ≤ exponentRun (exponent ++ z) := by
  cases h with
  | none => exact Nat.zero_le _
  | @mark e sign digits he hsign h =>
    have hpos := List.length_pos_iff.2 h.1
    rw [List.cons_append, List.append_assoc, exponentRun_cons he, signRun_append hsign h,
      List.drop_left, digitRun_append h.2, if_neg (by omega)]
    simp only [List.length_cons, List.length_append]
    omega

/-- No digit and no point starts an exponent. -/
theorem IsExponent.runs_eq_zero (h : IsExponent exponent) (hne : exponent ≠ []) (z : List Char) :
    digitRun (exponent ++ z) = 0 ∧ fractionRun (exponent ++ z) = 0 := by
  cases h with
  | none => exact absurd rfl hne
  | mark he => rcases he with rfl | rfl <;> exact ⟨digitRun_eq_zero_iff.2 rfl, rfl⟩

theorem fractionRun_point (h : IsDigits digits) (z : List Char) :
    fractionRun ('.' :: digits ++ z) = ('.' :: digits).length + digitRun z := by
  have hpos := List.length_pos_iff.2 h.1
  rw [List.cons_append, fractionRun, digitRun_append h.2, if_neg (by omega), List.length_cons]
  omega

/-- No number that a text starts with is longer than what is taken for one. -/
theorem length_le_numberRun (hwhole : IsDigits whole) (hfraction : IsFraction fraction)
    (hexponent : IsExponent exponent) (z : List Char) :
    (whole ++ (fraction ++ exponent)).length ≤ numberRun (whole ++ (fraction ++ exponent) ++ z) := by
  have hdigits := digitRun_append hwhole.2 (fraction ++ (exponent ++ z))
  rw [List.append_assoc, List.append_assoc]
  by_cases hne : exponent = []
  · subst hne
    cases hfraction with
    | none =>
      simp only [numberRun, hdigits, List.append_nil]
      omega
    | @point digits h =>
      -- The point ends the digits, so the fraction starts where it is looked for.
      have hpoint : digitRun ('.' :: digits ++ ([] ++ z)) = 0 := digitRun_eq_zero_iff.2 rfl
      have hfraction := fractionRun_point h ([] ++ z)
      rw [hpoint, Nat.add_zero] at hdigits
      simp only [numberRun, hdigits, List.drop_left, hfraction, List.length_append, List.length_nil]
      omega
  · obtain ⟨hnoDigit, hnoFraction⟩ := hexponent.runs_eq_zero hne z
    have hexponent := hexponent.length_le z
    have hends : digitRun (fraction ++ (exponent ++ z)) = 0 ∧
        fractionRun (fraction ++ (exponent ++ z)) = fraction.length := by
      cases hfraction with
      | none => exact ⟨hnoDigit, hnoFraction⟩
      | point h => exact ⟨digitRun_eq_zero_iff.2 rfl, by rw [fractionRun_point h, hnoDigit]; rfl⟩
    rw [hends.1, Nat.add_zero] at hdigits
    simp only [numberRun, hdigits, List.drop_left, hends.2, ← List.drop_drop, List.length_append]
    omega

end

/-! ## Kinds -/

/-- What a lexeme can be that starts with a character. -/
inductive Opening where
  | sign
  | quote
  | digit
  | blank
  | word
  | nothing
  deriving DecidableEq

/-- What the lexemes of a kind start with. -/
def Token.Kind.opening : Token.Kind → Opening
  | .blank => .blank
  | .word => .word
  | .number => .digit
  | .string => .quote
  | _ => .sign

theorem opening_of_mem_signs (h : (kind, text) ∈ signs) : kind.opening = .sign := by
  have hall : (signs.all fun s => s.1.opening == .sign) = true := by decide
  exact beq_iff_eq.1 (List.all_eq_true.1 hall _ h)

/-- Of kinds that are not signs no two start alike. -/
theorem eq_of_opening_eq (hsign : kind.opening ≠ .sign) (h : kind.opening = k.opening) :
    kind = k := by
  cases kind with
  | blank | word | number | string => cases k <;> first | rfl | cases h
  | _ => exact absurd rfl hsign

variable [Alphabet] {n : Nat}

/-! ## Lexemes -/

/-- The texts that belong to a kind of tokens. -/
inductive Lexeme : Token.Kind → List Char → Prop
  | sign {kind : Token.Kind} {text : List Char} (h : (kind, text) ∈ signs) : Lexeme kind text
  | blank {text : List Char} (hne : text ≠ []) (h : ∀ c ∈ text, isBlank c = true) :
      Lexeme .blank text
  | word {c : Char} {more : List Char} (hc : isIdentifierStart c = true)
      (h : ∀ d ∈ more, isIdentifierPart d = true) : Lexeme .word (c :: more)
  | number {whole fraction exponent : List Char} (hwhole : IsDigits whole)
      (hfraction : IsFraction fraction) (hexponent : IsExponent exponent) :
      Lexeme .number (whole ++ (fraction ++ exponent))
  | string {quote : Char} {body : List Char} (hquote : quote = '"' ∨ quote = '\'')
      (h : Closed quote body) : Lexeme .string (quotation quote body)

/-- Whether a text starts with a lexeme of a kind and with none that is longer, of whatever kind. -/
structure IsLongest (kind : Token.Kind) (part text : List Char) : Prop where
  lexeme : Lexeme kind part
  isPrefix : part <+: text
  longest : ∀ k other, Lexeme k other → other <+: text → other.length ≤ part.length

theorem Lexeme.ne_nil (h : Lexeme kind text) : text ≠ [] := by
  cases h with
  | sign h =>
    rintro rfl
    simp [signs] at h
  | blank hne => exact hne
  | word => exact List.cons_ne_nil _ _
  | number hwhole => exact fun hnil => hwhole.1 (List.append_eq_nil_iff.1 hnil).1
  | string => exact List.cons_ne_nil _ _

/-- What is taken for a number is one. -/
theorem lexeme_number (h : digitRun text ≠ 0) : Lexeme .number (text.take (numberRun text)) := by
  have hnumber := Lexeme.number (isDigits_take h) (isFraction_take (text.drop (digitRun text)))
    (isExponent_take (text.drop (digitRun text + fractionRun (text.drop (digitRun text)))))
  rw [← List.drop_drop, ← List.take_add, ← List.take_add, ← Nat.add_assoc, List.drop_drop] at hnumber
  exact hnumber

theorem Lexeme.mem_signs (h : Lexeme kind text) (hkind : kind.opening = .sign) :
    (kind, text) ∈ signs := by
  cases h with
  | sign h => exact h
  | _ => cases hkind

theorem Lexeme.exists_closed (h : Lexeme kind text) (hkind : kind.opening = .quote) :
    ∃ quote body, text = quotation quote body ∧ Closed quote body := by
  cases h with
  | sign h => cases hkind.symm.trans (opening_of_mem_signs h)
  | string _ h => exact ⟨_, _, rfl, h⟩
  | _ => cases hkind

theorem Lexeme.length_le_numberRun (h : Lexeme kind text) (hkind : kind.opening = .digit)
    (z : List Char) : text.length ≤ numberRun (text ++ z) := by
  cases h with
  | sign h => cases hkind.symm.trans (opening_of_mem_signs h)
  | number hwhole hfraction hexponent =>
    exact Expression.length_le_numberRun hwhole hfraction hexponent z
  | _ => cases hkind

theorem Lexeme.isBlank (h : Lexeme kind text) (hkind : kind.opening = .blank) :
    ∀ c ∈ text, isBlank c = true := by
  cases h with
  | sign h => cases hkind.symm.trans (opening_of_mem_signs h)
  | blank _ h => exact h
  | _ => cases hkind

theorem Lexeme.isIdentifierPart (h : Lexeme kind text) (hkind : kind.opening = .word) :
    ∀ c ∈ text.tail, isIdentifierPart c = true := by
  cases h with
  | sign h => cases hkind.symm.trans (opening_of_mem_signs h)
  | word _ h => exact h
  | _ => cases hkind

/-! ## Longest lexemes -/

theorem IsLongest.not_lexeme_append (h : IsLongest kind text (text ++ c :: rest)) :
    ¬Lexeme k (text ++ [c]) := by
  intro hmore
  have hstarts : text ++ [c] <+: text ++ c :: rest := ⟨rest, by simp⟩
  have hlength := h.longest k _ hmore hstarts
  rw [List.length_append] at hlength
  exact Nat.not_succ_le_self _ hlength

/-- No blank character follows a longest run of them. -/
theorem IsLongest.not_isBlank (h : IsLongest .blank text (text ++ c :: rest)) :
    isBlank c = false := by
  refine Bool.eq_false_iff.2 fun hc => h.not_lexeme_append (k := .blank) ?_
  refine .blank (by simp) fun d hd => ?_
  rcases List.mem_append.1 hd with hd | hd
  · exact h.lexeme.isBlank rfl d hd
  · rwa [List.mem_singleton.1 hd]

/-- No character of a word follows a longest word. -/
theorem IsLongest.not_isIdentifierPart (h : IsLongest .word text (text ++ c :: rest)) :
    isIdentifierPart c = false := by
  refine Bool.eq_false_iff.2 fun hc => h.not_lexeme_append (k := .word) ?_
  generalize hword : Token.Kind.word = kind at h
  cases h.lexeme with
  | sign h => cases hword; cases opening_of_mem_signs h
  | word hstart hparts =>
    refine .word hstart fun d hd => ?_
    rcases List.mem_append.1 hd with hd | hd
    · exact hparts d hd
    · rwa [List.mem_singleton.1 hd]
  | _ => cases hword

/-- Whether a text starts with no lexeme. -/
def StartsNone (text : List Char) : Prop := ∀ k part, Lexeme k part → ¬part <+: text

/-- Whether what `head` says of the text `c :: rest` is the longest lexeme that it starts with. -/
def Munches (c : Char) (rest : List Char) : Head → Prop
  | .token kind more => IsLongest kind (c :: rest.take more) (c :: rest)
  | .none _ _ => StartsNone (c :: rest)

theorem munches_token (h : Lexeme kind (c :: rest.take n))
    (hlongest : ∀ k m, Lexeme k (c :: m) → m <+: rest → m.length ≤ n) :
    Munches c rest (.token kind n) where
  lexeme := h
  isPrefix := List.cons_prefix_cons.2 ⟨rfl, List.take_prefix n rest⟩
  longest k other hother hstarts := by
    obtain ⟨d, m, rfl⟩ := List.exists_cons_of_ne_nil hother.ne_nil
    obtain ⟨rfl, hm⟩ := List.cons_prefix_cons.1 hstarts
    have hn := hlongest k m hother hm
    have hrest := hm.length_le
    simp only [List.length_cons, List.length_take]
    omega

theorem startsNone_cons (h : ∀ k m, Lexeme k (c :: m) → ¬m <+: rest) : StartsNone (c :: rest) := by
  intro k other hother hstarts
  obtain ⟨d, m, rfl⟩ := List.exists_cons_of_ne_nil hother.ne_nil
  obtain ⟨rfl, hm⟩ := List.cons_prefix_cons.1 hstarts
  exact h k m hother hm

theorem munches_ite {p : Prop} [Decidable p] {h h' : Head} (hpos : p → Munches c rest h)
    (hneg : ¬p → Munches c rest h') : Munches c rest (if p then h else h') := by
  split
  · exact hpos (by assumption)
  · exact hneg (by assumption)

/-- A run of characters of a class. -/
theorem munches_run {p : Char → Bool} (h : Lexeme kind (c :: rest.takeWhile p))
    (honly : ∀ k m, Lexeme k (c :: m) → ∀ d ∈ m, p d = true) :
    Munches c rest (.token kind (rest.takeWhile p).length) := by
  refine munches_token ?_ fun k m hm hstarts => ?_
  · rwa [← List.prefix_iff_eq_take.1 (List.takeWhile_prefix p)]
  · obtain ⟨z, rfl⟩ := hstarts
    rw [List.takeWhile_append_of_pos (honly k m hm), List.length_append]
    exact Nat.le_add_right _ _

/-! ## First characters -/

def opening (c : Char) : Opening :=
  if signs.any (·.2.head? == some c) then .sign
  else if c = '"' ∨ c = '\'' then .quote
  else if c.isDigit then .digit
  else if isBlank c then .blank
  else if isIdentifierStart c then .word
  else .nothing

/-- No sign and no quote starts a run. -/
theorem opening_of_run {p : Char → Bool} (hp : (signs.all fun s => s.2.head?.all (!p ·)) = true)
    (hquotes : p '"' = false ∧ p '\'' = false) (hc : p c = true) :
    opening c =
      if c.isDigit then .digit
      else if isBlank c then .blank
      else if isIdentifierStart c then .word
      else .nothing := by
  have hsign : signs.any (·.2.head? == some c) = false := by
    refine List.any_eq_false.2 fun s hs hhead => ?_
    have hfirst := List.all_eq_true.1 hp s hs
    rw [beq_iff_eq.1 hhead, Option.all_some, hc] at hfirst
    cases hfirst
  have hquote : ¬(c = '"' ∨ c = '\'') := by
    rintro (rfl | rfl)
    · rw [hquotes.1] at hc
      cases hc
    · rw [hquotes.2] at hc
      cases hc
  rw [opening, hsign, if_neg Bool.false_ne_true, if_neg hquote]

theorem opening_of_sign (h : (kind, c :: more) ∈ signs) : opening c = .sign := by
  have hsign : signs.any (·.2.head? == some c) = true :=
    List.any_eq_true.2 ⟨_, h, beq_iff_eq.2 List.head?_cons⟩
  exact if_pos hsign

theorem opening_of_quote (h : c = '"' ∨ c = '\'') : opening c = .quote := by
  rcases h with rfl | rfl <;> rfl

theorem opening_of_isDigit (h : c.isDigit = true) : opening c = .digit := by
  rw [opening_of_run (by decide) (by decide) h, if_pos h]

theorem opening_of_isBlank (h : isBlank c = true) : opening c = .blank := by
  have hdigit : ¬c.isDigit = true := fun hdigit => by
    rw [not_isBlank_of_isDigit hdigit] at h
    cases h
  rw [opening_of_run (by decide +kernel) (by decide) h, if_neg hdigit, if_pos h]

variable [LawfulAlphabet]

theorem not_isBlank_of_isIdentifierStart (h : isIdentifierStart c = true) : isBlank c = false := by
  simp only [isIdentifierStart, Bool.or_eq_true, beq_iff_eq] at h
  rcases h with (rfl | rfl) | h
  · decide
  · decide
  · exact LawfulAlphabet.isBlank_eq_false h

/-- No digit starts a word: digits are ASCII characters, of which only letters do. -/
theorem not_isDigit_of_isIdentifierStart (h : isIdentifierStart c = true) : c.isDigit = false := by
  refine Bool.eq_false_iff.2 fun hdigit => ?_
  have hcode : 48 ≤ c.toNat ∧ c.toNat ≤ 57 := by
    simpa [Char.isDigit, UInt32.le_iff_toNat_le] using hdigit
  simp only [isIdentifierStart, Bool.or_eq_true, beq_iff_eq] at h
  rcases h with (rfl | rfl) | h
  · cases hdigit
  · cases hdigit
  · rw [LawfulAlphabet.isXidStart_ascii c (by omega), isAlpha_iff] at h
    omega

theorem opening_of_isIdentifierStart (h : isIdentifierStart c = true) : opening c = .word := by
  have hsigns : (signs.all fun s => s.2.head?.all (!isIdentifierStart ·)) = true := by
    simp [signs, isIdentifierStart, LawfulAlphabet.isXidStart_ascii]
  have hquotes : isIdentifierStart '"' = false ∧ isIdentifierStart '\'' = false := by
    simp [isIdentifierStart, LawfulAlphabet.isXidStart_ascii]
  rw [opening_of_run hsigns hquotes h,
    if_neg (Bool.eq_false_iff.1 (not_isDigit_of_isIdentifierStart h)),
    if_neg (Bool.eq_false_iff.1 (not_isBlank_of_isIdentifierStart h)), if_pos h]

/-- The kind of a lexeme says what it starts with. -/
theorem Lexeme.opening_eq (h : Lexeme kind (c :: more)) : opening c = kind.opening := by
  generalize htext : c :: more = text at h
  cases h with
  | sign h =>
    subst htext
    rw [opening_of_sign h, opening_of_mem_signs h]
  | blank _ h => exact opening_of_isBlank (h c (htext ▸ List.mem_cons_self))
  | word hc =>
    cases htext
    exact opening_of_isIdentifierStart hc
  | @number whole _ _ hwhole =>
    obtain ⟨d, digits, rfl⟩ := List.exists_cons_of_ne_nil hwhole.1
    cases htext
    exact opening_of_isDigit (hwhole.2 c List.mem_cons_self)
  | string hquote =>
    cases htext
    exact opening_of_quote hquote

theorem Lexeme.kind_opening {o : Opening} (h : Lexeme kind (c :: more)) (hc : opening c = o) :
    kind.opening = o :=
  h.opening_eq.symm.trans hc

/-! ## What the scan takes -/

theorem munches_sign (h : (kind, c :: rest.take n) ∈ signs)
    (honly : ∀ m ∈ tails c, m <+: rest → m.length ≤ n) : Munches c rest (.token kind n) := by
  refine munches_token (.sign h) fun k m hm => honly m ?_
  exact mem_tails (hm.mem_signs (hm.kind_opening (opening_of_sign h)))

/-- A sign of two characters, and perhaps one that is the first of them alone. -/
theorem munches_pair {second : Char} {double : Token.Kind} {single : Option Token.Kind}
    (hdouble : (double, [c, second]) ∈ signs) (hsingle : ∀ kind ∈ single, (kind, [c]) ∈ signs)
    (honly : ∀ m ∈ tails c, m <+: rest → m = [second] ∨ m = [] ∧ single ≠ none) :
    Munches c rest (pair second double single rest) := by
  have htwo (m) (hm : m ∈ tails c) (hstarts : m <+: rest) : m.length ≤ 1 := by
    rcases honly m hm hstarts with rfl | ⟨rfl, -⟩ <;> simp
  have hone (hsecond : ¬[second] <+: rest) (kind) (hkind : single = some kind) :
      Munches c rest (.token kind 0) := by
    refine munches_sign (hsingle kind hkind) fun m hm hstarts => ?_
    rcases honly m hm hstarts with rfl | ⟨rfl, -⟩
    · exact absurd hstarts hsecond
    · exact Nat.le_refl 0
  have hnone (hsecond : ¬[second] <+: rest) (hkind : single = none) : StartsNone (c :: rest) := by
    refine startsNone_cons fun k m hm hstarts => ?_
    have htail := mem_tails (hm.mem_signs (hm.kind_opening (opening_of_sign hdouble)))
    rcases honly m htail hstarts with rfl | ⟨-, hne⟩
    · exact hsecond hstarts
    · exact hne hkind
  unfold pair
  split
  · split
    · rename_i hd
      subst hd
      exact munches_sign hdouble htwo
    · rename_i hd
      exact hone (by simpa using Ne.symm hd) _ rfl
  · split
    · rename_i hd
      subst hd
      exact munches_sign hdouble htwo
    · rename_i hd
      exact hnone (by simpa using Ne.symm hd) rfl
  · exact hone (by simp) _ rfl
  · exact hnone (by simp) rfl

theorem munches_string (hc : c = '"' ∨ c = '\'') :
    Munches c rest (match closing? c rest with
      | some n => .token .string n
      | none => .none .undelimitedString rest.length) := by
  have hbackslash : c ≠ '\\' := by rcases hc with rfl | rfl <;> decide
  have hclosing (k m) (hm : Lexeme k (c :: m)) (hstarts : m <+: rest) :
      closing? c rest = some m.length := by
    obtain ⟨z, rfl⟩ := hstarts
    obtain ⟨quote, body, hbody, hclosed⟩ := hm.exists_closed (hm.kind_opening (opening_of_quote hc))
    cases hbody
    rw [List.append_assoc, List.singleton_append, hclosed.closing?_eq hbackslash]
    simp
  split
  · rename_i n hn
    refine munches_token ?_ fun k m hm hstarts => ?_
    · obtain ⟨body, after, rfl, rfl, hbody⟩ := exists_closed_of_closing? hn
      have htake : (body ++ c :: after).take (body.length + 1) = body ++ [c] := by
        simp [List.take_append, List.take_of_length_le]
      rw [htake]
      exact .string hc hbody
    · cases hn.symm.trans (hclosing k m hm hstarts)
      exact Nat.le_refl _
  · rename_i hn
    refine startsNone_cons fun k m hm hstarts => ?_
    cases hn.symm.trans (hclosing k m hm hstarts)

theorem munches_number (hc : c.isDigit = true) : Munches c rest (.token .number (numberRun rest)) := by
  refine munches_token ?_ fun k m hm hstarts => ?_
  · have hnumber : Lexeme .number ((c :: rest).take (numberRun (c :: rest))) :=
      lexeme_number (by simp [digitRun, hc])
    rwa [numberRun_cons hc, List.take_succ_cons] at hnumber
  · obtain ⟨z, rfl⟩ := hstarts
    have hlength := hm.length_le_numberRun (hm.kind_opening (opening_of_isDigit hc)) z
    rw [List.cons_append, numberRun_cons hc, List.length_cons] at hlength
    exact Nat.le_of_succ_le_succ hlength

/-- What the scan takes is the longest lexeme in front of it; where it takes nothing there is
none. -/
theorem munches_head (c : Char) (rest : List Char) : Munches c rest (head c rest) := by
  unfold head
  iterate 7
    refine munches_ite (fun hc => ?_) fun _ => ?_
    · subst hc
      exact munches_sign (by simp [signs]) (by simp [tails, signs])
  iterate 5
    refine munches_ite (fun hc => ?_) fun _ => ?_
    · subst hc
      exact munches_pair (by simp [signs]) (by simp [signs]) (by simp [tails, signs])
  refine munches_ite (fun hc => ?_) fun _ => ?_
  · subst hc
    -- Two characters can follow here that make a longer sign.
    split
    · exact munches_sign (by simp [signs]) (by simp [tails, signs])
    · rename_i hne
      have hmore : ¬['>'] <+: rest := by
        rintro ⟨tail, rfl⟩
        exact hne tail rfl
      exact munches_pair (by simp [signs]) (by simp [signs]) (by simp [tails, signs, hmore])
  refine munches_ite munches_string fun _ => ?_
  refine munches_ite munches_number fun _ => ?_
  refine munches_ite (fun hc => ?_) fun _ => ?_
  · refine munches_run (.blank (List.cons_ne_nil _ _) ?_) fun k m hm => ?_
    · exact List.forall_mem_cons.2 ⟨hc, fun d hd => List.mem_takeWhile_imp hd⟩
    · have hall := hm.isBlank (hm.kind_opening (opening_of_isBlank hc))
      exact (List.forall_mem_cons.1 hall).2
  refine munches_ite (fun hc => ?_) fun _ => ?_
  · refine munches_run (.word hc fun d hd => List.mem_takeWhile_imp hd) fun k m hm => ?_
    exact hm.isIdentifierPart (hm.kind_opening (opening_of_isIdentifierStart hc))
  · refine startsNone_cons fun k m hm _ => ?_
    -- The character is none that a lexeme starts with: each of them has its branch above.
    have hnothing : opening c = .nothing := by
      simp_all [opening, signs, @eq_comm _ c]
    have hkind := hm.kind_opening hnothing
    cases k <;> cases hkind

/-! ## One longest lexeme at most -/

/-- A text is of one kind at most. -/
theorem Lexeme.kind_unique (h : Lexeme kind text) (h' : Lexeme k text) : kind = k := by
  obtain ⟨c, more, rfl⟩ := List.exists_cons_of_ne_nil h.ne_nil
  have hsame : kind.opening = k.opening := h.opening_eq.symm.trans h'.opening_eq
  by_cases hsign : kind.opening = .sign
  · have hall : (signs.all fun s => signs.all fun s' => s.2 != s'.2 || s.1 == s'.1) = true := by
      decide
    have honce := List.all_eq_true.1
      (List.all_eq_true.1 hall _ (h.mem_signs hsign)) _ (h'.mem_signs (hsame ▸ hsign))
    simpa using honce
  · exact eq_of_opening_eq hsign hsame

theorem IsLongest.unique {part other : List Char} (h : IsLongest kind part text)
    (h' : IsLongest k other text) : kind = k ∧ part = other := by
  have hlength : part.length = other.length :=
    Nat.le_antisymm (h'.longest kind part h.lexeme h.isPrefix)
      (h.longest k other h'.lexeme h'.isPrefix)
  have hpart : part = other :=
    (List.prefix_of_prefix_length_le h.isPrefix h'.isPrefix hlength.le).eq_of_length hlength
  exact ⟨h.lexeme.kind_unique (hpart ▸ h'.lexeme), hpart⟩

/-- If a text starts with lexemes, the scan takes the longest of them. -/
theorem scanFrom_append {part : List Char} (h : IsLongest kind part (part ++ rest)) (start : Nat) :
    scanFrom start (part ++ rest) =
      ⟨⟨kind, part, start⟩ :: (scanFrom (start + byteSize part) rest).tokens,
        (scanFrom (start + byteSize part) rest).failure?⟩ := by
  obtain ⟨c, more, rfl⟩ := List.exists_cons_of_ne_nil h.lexeme.ne_nil
  have hmunches := munches_head c (more ++ rest)
  rw [List.cons_append, scanFrom]
  cases hhead : head c (more ++ rest) with
  | none fault n =>
    rw [hhead] at hmunches
    exact absurd h.isPrefix (hmunches kind _ h.lexeme)
  | token k n =>
    rw [hhead] at hmunches
    obtain ⟨rfl, hpart⟩ := h.unique hmunches
    have htake : (more ++ rest).take n = more := (List.cons.inj hpart).2.symm
    have hdrop : (more ++ rest).drop n = rest := by
      have hsplit := List.take_append_drop n (more ++ rest)
      rw [htake] at hsplit
      exact List.append_cancel_left hsplit
    simp only [htake, hdrop, Token.span]

end Stencil.Expression
