/-
String literals: how they are written, where they end and what they stand for.

Two readers go over a literal. The first looks for the quote that closes it and skips whatever stands
after a backslash; the second takes the text between the quotes and replaces the escapes. `Closed`
is what the first one takes for the inside of a literal (`closing?_eq_some_iff`), so the second finds
each backslash with a character behind it. `Encodes` is how a string is written, character by
character, with the choice left open where there is one. What the first reader has closed either
encodes a string, which is the one that the second gives, or has a backslash with a character that is
no escape, and the second stops at the first of these (`Closed.decode_cases`).
-/
import Stencil.Expression
import Stencil.Proofs.Checked.Parser
import Stencil.Proofs.Expression.Parse

namespace Stencil.Expression

open Text

/-- A text between quotes. -/
def quotation (quote : Char) (body : List Char) : List Char := quote :: (body ++ [quote])

/-- How a string is written between quotes: each character as itself, if it is neither the quote nor
a backslash, or by its escape, if it has one. -/
inductive Encodes (quote : Char) : List Char → List Char → Prop
  | nil : Encodes quote [] []
  | plain {c : Char} {body string : List Char} (hbackslash : c ≠ '\\') (hquote : c ≠ quote)
      (h : Encodes quote body string) : Encodes quote (c :: body) (c :: string)
  | escaped {c d : Char} {body string : List Char} (hd : (c, d) ∈ escapes)
      (h : Encodes quote body string) : Encodes quote ('\\' :: c :: body) (d :: string)

/-- The inside of a literal: characters other than the quote and the backslash, and backslashes with
any character behind them. -/
inductive Closed (quote : Char) : List Char → Prop
  | nil : Closed quote []
  | plain {c : Char} {body : List Char} (hbackslash : c ≠ '\\') (hquote : c ≠ quote)
      (h : Closed quote body) : Closed quote (c :: body)
  | pair {body : List Char} (c : Char) (h : Closed quote body) : Closed quote ('\\' :: c :: body)

variable {quote : Char} {body string text : List Char}

/-! ## Where a literal ends -/

theorem Closed.closing?_eq (h : Closed quote body) (hquote : quote ≠ '\\') (rest : List Char) :
    closing? quote (body ++ quote :: rest) = some (body.length + 1) := by
  induction h with
  | nil => simp [closing?, hquote]
  | @plain c body hbackslash hc h ih => simp [closing?, hbackslash, hc, ih]
  | @pair body c h ih => simp [closing?, ih]

theorem exists_closed_of_closing? {n : Nat} (h : closing? quote text = some n) :
    ∃ body rest, text = body ++ quote :: rest ∧ n = body.length + 1 ∧ Closed quote body := by
  fun_induction closing? quote text generalizing n with
  | case1 => simp at h
  | case2 => simp at h
  | case3 d text ih =>
    obtain ⟨k, hk, rfl⟩ := Option.map_eq_some_iff.1 h
    obtain ⟨body, rest, rfl, rfl, hbody⟩ := ih hk
    exact ⟨'\\' :: d :: body, rest, rfl, rfl, .pair d hbody⟩
  | case4 text hlast hmore =>
    simp only [Option.some.injEq] at h
    subst h
    exact ⟨[], text, rfl, rfl, .nil⟩
  | case5 c text hlast hmore hc ih =>
    obtain ⟨k, hk, rfl⟩ := Option.map_eq_some_iff.1 h
    obtain ⟨body, rest, rfl, rfl, hbody⟩ := ih hk
    exact ⟨c :: body, rest, rfl, rfl, .plain (Checked.ne_backslash hlast hmore) hc hbody⟩

/-- The first reader ends a literal at the first quote that no backslash takes with it. -/
theorem closing?_eq_some_iff (hquote : quote ≠ '\\') {n : Nat} :
    closing? quote text = some n ↔
      ∃ body rest, text = body ++ quote :: rest ∧ n = body.length + 1 ∧ Closed quote body := by
  constructor
  · exact exists_closed_of_closing?
  · intro h
    obtain ⟨body, rest, rfl, rfl, hbody⟩ := h
    exact hbody.closing?_eq hquote rest

/-- Inside a literal no backslash is left without a character. -/
theorem Closed.ne_append_backslash {front : List Char} (h : Closed quote body)
    (hfront : Closed quote front) : body ≠ front ++ ['\\'] := by
  intro heq
  subst heq
  induction hfront with
  | nil => cases h with | plain hbackslash => exact hbackslash rfl
  | @plain c front hbackslash _ _ ih =>
    rw [List.cons_append] at h
    generalize hrest : front ++ ['\\'] = rest at h ih
    cases h with
    | plain _ _ h => exact ih h
    | pair d h => exact hbackslash rfl
  | pair c _ ih =>
    rw [List.cons_append, List.cons_append] at h
    cases h with
    | plain hbackslash => exact hbackslash rfl
    | pair _ h => exact ih h

/-! ## What a literal stands for -/

/-- What encodes a string is what the first reader takes for the inside of a literal and the grammar
for a spelling of the string. -/
theorem encodes_iff :
    Encodes quote body string ↔ Closed quote body ∧ Spells body string := by
  constructor
  · intro h
    induction h with
    | nil => exact ⟨.nil, .nil⟩
    | plain hbackslash hquote _ ih =>
      exact ⟨.plain hbackslash hquote ih.1, .plain hbackslash ih.2⟩
    | escaped hd _ ih => exact ⟨.pair _ ih.1, .escaped hd ih.2⟩
  · rintro ⟨hclosed, hspells⟩
    induction hspells with
    | nil => exact .nil
    | plain hbackslash _ ih =>
      cases hclosed with
      | plain _ hquote h => exact .plain hbackslash hquote (ih h)
      | pair _ _ => exact absurd rfl hbackslash
    | escaped hd _ ih =>
      cases hclosed with
      | plain hbackslash _ _ => exact absurd rfl hbackslash
      | pair _ h => exact .escaped hd (ih h)

theorem Encodes.closed (h : Encodes quote body string) : Closed quote body := (encodes_iff.1 h).1

theorem Encodes.decode_eq (h : Encodes quote body string) (start : Nat) :
    decode start body = .ok string :=
  decode_eq_ok_iff.2 (encodes_iff.1 h).2

/-- Every string can be written: the backslash and the quotes as escapes, the others as they are. -/
theorem exists_encodes (quote : Char) (hquote : quote = '"' ∨ quote = '\'') (string : List Char) :
    ∃ body, Encodes quote body string := by
  induction string with
  | nil => exact ⟨[], .nil⟩
  | cons c string ih =>
    obtain ⟨body, hbody⟩ := ih
    by_cases hescape : c = '\\' ∨ c = quote
    · have hc : (c, c) ∈ escapes := by
        rcases hescape with rfl | rfl
        · decide
        · rcases hquote with rfl | rfl <;> decide
      exact ⟨'\\' :: c :: body, .escaped hc hbody⟩
    · simp only [not_or] at hescape
      exact ⟨c :: body, .plain hescape.1 hescape.2 hbody⟩

/-- The second reader gives the string that is encoded, or stops at the first backslash with a
character that is no escape. -/
theorem Closed.decode_cases (h : Closed quote body) (start : Nat) :
    (∃ string, Encodes quote body string ∧ decode start body = .ok string) ∨
    ∃ front c rest string, body = front ++ '\\' :: c :: rest ∧ Encodes quote front string ∧
      (∀ d, (c, d) ∉ escapes) ∧
      decode start body = .error ⟨.unknownEscape, start + byteSize front,
        start + byteSize front + 1 + c.utf8Size⟩ := by
  induction h generalizing start with
  | nil => exact .inl ⟨[], .nil, rfl⟩
  | @plain c body hbackslash hquote h ih =>
    rcases ih (start + c.utf8Size) with ⟨string, hstring, hdecode⟩ |
      ⟨front, d, rest, string, rfl, hfront, hnone, hdecode⟩
    · exact .inl ⟨c :: string, .plain hbackslash hquote hstring, by
        simp [decode, hbackslash, hdecode, Except.map]⟩
    · refine .inr ⟨c :: front, d, rest, c :: string, rfl, .plain hbackslash hquote hfront, hnone, ?_⟩
      simp [decode, hbackslash, hdecode, Except.map, Nat.add_assoc]
  | @pair body c h ih =>
    cases hc : unescape? c with
    | none =>
      refine .inr ⟨[], c, body, [], rfl, .nil, fun d hd => ?_, by simp [decode, hc]⟩
      simp [unescape?_eq_some_iff.2 hd] at hc
    | some meant =>
      have hescape := unescape?_eq_some_iff.1 hc
      rcases ih (start + 1 + c.utf8Size) with ⟨string, hstring, hdecode⟩ |
        ⟨front, d, rest, string, rfl, hfront, hnone, hdecode⟩
      · exact .inl ⟨meant :: string, .escaped hescape hstring, by
          simp [decode, hc, hdecode, Except.map]⟩
      · refine .inr ⟨'\\' :: c :: front, d, rest, meant :: string, rfl, .escaped hescape hfront,
          hnone, ?_⟩
        have hbyte : '\\'.utf8Size = 1 := rfl
        simp only [decode, hc, hdecode, Except.map, byteSize_cons, hbyte, Except.error.injEq,
          Failure.mk.injEq, Span.mk.injEq, true_and]
        omega

/-! ## Literals as tokens -/

/-- What is inside the quotes is the text without its first and its last character. -/
theorem drop_dropLast_quotation (quote : Char) (body : List Char) :
    ((quotation quote body).drop 1).dropLast = body := by
  simp [quotation]

section

variable [Alphabet]

theorem Closed.scans (h : Closed quote body) (hquote : quote = '"' ∨ quote = '\'') (start : Nat) :
    Scans start (quotation quote body) [⟨.string, quotation quote body, start⟩] := by
  refine Scans.token start fun rest => ?_
  have hclosing : closing? quote (body ++ quote :: rest) = some (body ++ [quote]).length := by
    rw [h.closing?_eq (by rcases hquote with rfl | rfl <;> decide)]
    simp
  rw [List.append_assoc, List.singleton_append]
  rcases hquote with rfl | rfl <;> simp [head, hclosing]

theorem Encodes.eval_eq (h : Encodes quote body string) (hquote : quote = '"' ∨ quote = '\'') :
    eval (String.ofList (quotation quote body)) = .ok (.string (String.ofList string)) := by
  have hscans := (h.closed.scans hquote 0).lexes (by simp)
  have hparse : parse (quotation quote body) = .ok
      (.literal (.string (String.ofList string)) (Token.span ⟨.string, quotation quote body, 0⟩)) := by
    refine parse_eq_ok_iff.2 ⟨.literal ⟨.string, quotation quote body, 0⟩ _, ⟨?_, hscans⟩, rfl,
      Nat.zero_le _⟩
    refine Phrase.Fits.loosen (.literal (.string rfl ?_)) (by decide)
    rw [drop_dropLast_quotation]
    exact (encodes_iff.1 h).2
  rw [eval, String.toList_ofList, value, hparse]
  rfl

theorem head_eq_string {c : Char} {rest : List Char} {more : Nat}
    (h : head c rest = .token .string more) :
    (c = '"' ∨ c = '\'') ∧ closing? c rest = some more := by
  have hc : c = '"' ∨ c = '\'' := by
    by_cases hc : c = '"' ∨ c = '\''
    · exact hc
    · exact absurd h (Checked.head_ne_string hc more)
  refine ⟨hc, ?_⟩
  rcases hc with rfl | rfl <;> simp [head] at h <;> split at h <;> cases h <;> assumption

/-- A string token is a literal. -/
theorem exists_closed_of_mem_scanFrom {start : Nat} {t : Token}
    (ht : t ∈ (scanFrom start text).tokens) (hkind : t.kind = .string) :
    ∃ quote body, (quote = '"' ∨ quote = '\'') ∧ t.text = quotation quote body ∧
      Closed quote body := by
  fun_induction scanFrom start text with
  | case1 => simp at ht
  | case2 => simp at ht
  | case3 start c rest kind more hhead token after ih =>
    simp only [List.mem_cons] at ht
    rcases ht with rfl | ht
    · simp only [token] at hkind
      subst hkind
      obtain ⟨hquote, hclosing⟩ := head_eq_string hhead
      obtain ⟨body, after, rfl, rfl, hbody⟩ := exists_closed_of_closing? hclosing
      refine ⟨c, body, hquote, ?_, hbody⟩
      simp [token, quotation, List.take_append, List.take_of_length_le]
    · exact ih ht

/-- **String literals.** Every string can be written between either quotes, and however it is
written, the literal is one token wherever it stands and the value of its text is the string.
Whatever text is scanned, a string token is a quote, a text up to the first such quote that no
backslash takes with it, and that quote. No backslash is left there without a character, so the
decoder gives a result: the one string that the literal encodes; or else, if it encodes none, that an
escape is not known, with the place of the first backslash that has such a character behind it. -/
theorem literals_decode_what_they_encode :
    (∀ quote : Char, quote = '"' ∨ quote = '\'' → ∀ string : List Char,
      (∃ body, Encodes quote body string) ∧
      ∀ body, Encodes quote body string →
        (∀ start, Scans start (quotation quote body) [⟨.string, quotation quote body, start⟩]) ∧
        eval (String.ofList (quotation quote body)) = .ok (.string (String.ofList string))) ∧
    ∀ source : List Char, ∀ t ∈ (scan source).tokens, t.kind = .string →
      ∃ quote body, (quote = '"' ∨ quote = '\'') ∧ t.text = quotation quote body ∧
        Closed quote body ∧ (∀ front, Closed quote front → body ≠ front ++ ['\\']) ∧
        ((∃ string, Checked.string source t.span = pure string ∧
            ∀ other, Encodes quote body other ↔ other = string) ∨
          ∃ front c rest string, body = front ++ '\\' :: c :: rest ∧
            Encodes quote front string ∧ (∀ d, (c, d) ∉ escapes) ∧
            (∀ other, ¬Encodes quote body other) ∧
            Checked.string source t.span = throw ⟨.unknownEscape,
              t.start + 1 + byteSize front, t.start + 1 + byteSize front + 1 + c.utf8Size⟩) := by
  refine ⟨fun quote hquote string => ⟨exists_encodes quote hquote string, fun body h =>
    ⟨h.closed.scans hquote, h.eval_eq hquote⟩⟩, fun source t ht hkind => ?_⟩
  obtain ⟨quote, body, hquote, htext, hbody⟩ := exists_closed_of_mem_scanFrom ht hkind
  have hgenuine := Checked.genuine_of_mem_scanFrom (Checked.Leaves.zero source) t ht
  have hstring := Checked.string_eq hgenuine hkind
  rw [htext, drop_dropLast_quotation] at hstring
  refine ⟨quote, body, hquote, htext, hbody, fun front => hbody.ne_append_backslash, ?_⟩
  rcases hbody.decode_cases (t.start + 1) with ⟨string, hencodes, hdecode⟩ |
    ⟨front, c, rest, string, hfront, hencodes, hnone, hdecode⟩
  · refine .inl ⟨string, by rw [hstring, hdecode]; rfl, fun other => ⟨fun hother => ?_, ?_⟩⟩
    · have hother := hother.decode_eq (t.start + 1)
      rw [hdecode] at hother
      exact (Except.ok.inj hother).symm
    · intro hother
      exact hother ▸ hencodes
  · refine .inr ⟨front, c, rest, string, hfront, hencodes, hnone, fun other hother => ?_, by
      rw [hstring, hdecode]; rfl⟩
    have hother := hother.decode_eq (t.start + 1)
    rw [hdecode] at hother
    cases hother

end

section

open Ascii

/-- The other quote as itself, a quote and a tab as escapes; and a token with a character behind a
backslash that is no escape, after an escaped quote. -/
theorem literals_decode_both_quotes :
    let body := ['a', '\\', '\'', '"', '\\', 't']
    let source := "1 + 'b\\'\\é'".toList
    let t : Token := ⟨.string, "'b\\'\\é'".toList, 4⟩
    (Encodes '\'' body ['a', '\'', '"', '\t'] ∧
      eval (String.ofList (quotation '\'' body)) = .ok (.string "a'\"\t")) ∧
    (t ∈ (scan source).tokens ∧
      ∃ span, Checked.string source t.span = throw ⟨.unknownEscape, span⟩) := by
  intro body source t
  have hencodes : Encodes '\'' body ['a', '\'', '"', '\t'] :=
    .plain (by decide) (by decide) (.escaped (by decide) (.plain (by decide) (by decide)
      (.escaped (by decide) .nil)))
  have ht : t ∈ (scan source).tokens := by decide +kernel
  refine ⟨⟨hencodes, ?_⟩, ht, ?_⟩
  · exact ((literals_decode_what_they_encode.1 '\'' (.inr rfl) _).2 body hencodes).2
  · obtain ⟨quote, inner, -, htext, -, -, hresult⟩ :=
      literals_decode_what_they_encode.2 source t ht rfl
    have hinner : inner = ['b', '\\', '\'', '\\', 'é'] := by
      rw [← drop_dropLast_quotation quote inner, ← htext]
      decide +kernel
    rcases hresult with ⟨string, -, hstring⟩ | ⟨front, c, rest, string, -, -, -, -, hthrow⟩
    · have hdecode := ((hstring string).2 rfl).decode_eq 5
      rw [hinner] at hdecode
      cases hdecode
    · exact ⟨_, hthrow⟩

end

end Stencil.Expression
