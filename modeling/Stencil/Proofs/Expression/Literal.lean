/-
Which tokens are literals, and what they stand for.

`Denotes` is the grammar of literals: a number without a point and an exponent is an integer of 64
bits, any other a float; a string is spelled in characters and six escapes; two words are the
booleans, in capital and small letters alike. `value_eq_ok_iff` says that the value of a token is
read by it.
-/
import Mathlib.Algebra.Group.Nat.Defs
import Stencil.Expression.Literal

namespace Stencil.Expression

/-! ## Strings -/

/-- The characters that may follow a backslash, and what they stand for there. -/
def escapes : List (Char × Char) :=
  [('n', '\n'), ('r', '\r'), ('t', '\t'), ('\\', '\\'), ('"', '"'), ('\'', '\'')]

theorem unescape?_eq_some_iff {c d : Char} : unescape? c = some d ↔ (c, d) ∈ escapes := by
  simp only [escapes, List.mem_cons, Prod.mk.injEq, List.not_mem_nil, or_false]
  constructor
  · intro h
    unfold unescape? at h
    split at h
    · simp_all [eq_comm]
    · split at h
      · simp_all [eq_comm]
      · split at h
        · simp_all [eq_comm]
        · split at h
          · rename_i hc
            cases h
            rcases hc with rfl | rfl | rfl <;> simp
          · cases h
  · intro h
    rcases h with ⟨rfl, rfl⟩ | ⟨rfl, rfl⟩ | ⟨rfl, rfl⟩ | ⟨rfl, rfl⟩ | ⟨rfl, rfl⟩ | ⟨rfl, rfl⟩ <;>
      decide

/-- Whether a text between quotes spells a string: each character as itself, if it is not a
backslash, or by an escape. -/
inductive Spells : List Char → List Char → Prop
  | nil : Spells [] []
  | plain {c : Char} {text string : List Char} (hbackslash : c ≠ '\\') (h : Spells text string) :
      Spells (c :: text) (c :: string)
  | escaped {c d : Char} {text string : List Char} (hd : (c, d) ∈ escapes)
      (h : Spells text string) : Spells ('\\' :: c :: text) (d :: string)

theorem decode_eq_ok_iff {start : Nat} {text string : List Char} :
    decode start text = .ok string ↔ Spells text string := by
  constructor
  · intro h
    fun_induction decode start text generalizing string with
    | case1 =>
      cases h
      exact .nil
    | case2 => cases h
    | case3 start c rest d hd ih =>
      cases hrest : decode (start + 1 + c.utf8Size) rest with
      | ok string' =>
        rw [hrest] at h
        cases h
        exact .escaped (unescape?_eq_some_iff.1 hd) (ih hrest)
      | error failure => rw [hrest] at h; cases h
    | case4 => cases h
    | case5 start c rest hlone hescape ih =>
      cases hrest : decode (start + c.utf8Size) rest with
      | ok string' =>
        rw [hrest] at h
        cases h
        have hc : c ≠ '\\' := by
          rintro rfl
          cases rest with
          | nil => exact hlone rfl rfl
          | cons d rest => exact hescape d rest rfl rfl
        exact .plain hc (ih hrest)
      | error failure => rw [hrest] at h; cases h
  · intro h
    induction h generalizing start with
    | nil => rfl
    | plain hbackslash _ ih => simp [decode, hbackslash, ih, Except.map]
    | escaped hd _ ih => simp [decode, unescape?_eq_some_iff.2 hd, ih, Except.map]

/-! ## Tokens -/

/-- Whether a token is a word that spells another one, capital and small letters alike. -/
def Token.IsWord (t : Token) (word : String) : Prop :=
  t.kind = .word ∧ t.text.map Char.toLower = word.toList

theorem Token.keyword?_eq_some_iff {t : Token} {k : Keyword} :
    t.keyword? = some k ↔ t.IsWord k.spelling := by
  rw [keyword?, IsWord]
  split
  · rename_i hword
    rw [Keyword.ofWord?_eq_some_iff]
    exact ⟨fun h => ⟨hword, h⟩, fun h => h.2⟩
  · rename_i hword
    exact ⟨fun h => (by cases h), fun h => absurd h.1 hword⟩

/-- Whether the text of a number has a point or an exponent. -/
def IsFractional (text : List Char) : Prop := '.' ∈ text ∨ 'e' ∈ text ∨ 'E' ∈ text

instance (text : List Char) : Decidable (IsFractional text) :=
  inferInstanceAs (Decidable ('.' ∈ text ∨ 'e' ∈ text ∨ 'E' ∈ text))

/-- The literals: tokens, and what they stand for. -/
inductive Token.Denotes (t : Token) : Value → Prop where
  | integer (hkind : t.kind = .number) (hwhole : ¬IsFractional t.text)
      (hbound : Decimal.digitsValue t.text ≤ 2 ^ 63 - 1) :
      Denotes t (.integer (Int64.ofNat (Decimal.digitsValue t.text)))
  | float (hkind : t.kind = .number) (hfractional : IsFractional t.text) :
      Denotes t (.float (Decimal.ofNumeral t.text).toFloat)
  | string {s : List Char} (hkind : t.kind = .string) (hs : Spells (t.text.drop 1).dropLast s) :
      Denotes t (.string (String.ofList s))
  | yes (hword : t.IsWord "true") : Denotes t (.bool true)
  | no (hword : t.IsWord "false") : Denotes t (.bool false)

theorem Token.Denotes.kind_eq {t : Token} {v : Value} (h : t.Denotes v) :
    t.kind = .number ∨ t.kind = .string ∨ t.kind = .word := by
  cases h with
  | integer hkind _ _ => exact .inl hkind
  | float hkind _ => exact .inl hkind
  | string hkind _ => exact .inr (.inl hkind)
  | yes hword => exact .inr (.inr hword.1)
  | no hword => exact .inr (.inr hword.1)

theorem numberValue_eq_ok_iff {text : List Char} {v : Value} :
    numberValue text = .ok v ↔
      (IsFractional text ∧ v = .float (Decimal.ofNumeral text).toFloat) ∨
      (¬IsFractional text ∧ Decimal.digitsValue text ≤ 2 ^ 63 - 1 ∧
        v = .integer (Int64.ofNat (Decimal.digitsValue text))) := by
  have hnarrow : narrow? (Decimal.digitsValue text) =
      if Decimal.digitsValue text ≤ 2 ^ 63 - 1 then
        some (Int64.ofNat (Decimal.digitsValue text)) else none := by
    unfold narrow?
    rw [Int64.toInt_minValue, Int64.toInt_maxValue, Int64.ofInt_eq_ofNat]
    by_cases h : Decimal.digitsValue text ≤ 2 ^ 63 - 1
    · rw [if_pos h, if_pos (by omega)]
    · rw [if_neg h, if_neg (by omega)]
  unfold numberValue
  change (if IsFractional text then _ else _) = _ ↔ _
  by_cases hfractional : IsFractional text
  · rw [if_pos hfractional]
    constructor
    · intro h
      cases h
      exact .inl ⟨hfractional, rfl⟩
    · rintro (⟨-, rfl⟩ | ⟨hwhole, -⟩)
      · rfl
      · exact absurd hfractional hwhole
  · rw [if_neg hfractional, hnarrow]
    by_cases hbound : Decimal.digitsValue text ≤ 2 ^ 63 - 1
    · rw [if_pos hbound]
      constructor
      · intro h
        cases h
        exact .inr ⟨hfractional, hbound, rfl⟩
      · rintro (⟨h, -⟩ | ⟨-, -, rfl⟩)
        · exact absurd h hfractional
        · rfl
    · rw [if_neg hbound]
      constructor
      · intro h
        cases h
      · rintro (⟨h, -⟩ | ⟨-, h, -⟩)
        · exact absurd h hfractional
        · exact absurd h hbound

/-- A token is read as a literal just if it is one. -/
theorem Token.value_eq_ok_iff {t : Token} {v : Value} : t.value = .ok v ↔ t.Denotes v := by
  constructor
  · intro h
    unfold value at h
    split at h
    · rename_i hkind
      cases hv : numberValue t.text with
      | ok w =>
        rw [hv] at h
        cases h
        rcases numberValue_eq_ok_iff.1 hv with ⟨hfractional, rfl⟩ | ⟨hwhole, hbound, rfl⟩
        · exact .float hkind hfractional
        · exact .integer hkind hwhole hbound
      | error fault => rw [hv] at h; cases h
    · rename_i hkind
      cases hs : decode (t.start + 1) (t.text.drop 1).dropLast with
      | ok s =>
        rw [hs] at h
        cases h
        exact .string hkind (decode_eq_ok_iff.1 hs)
      | error failure => rw [hs] at h; cases h
    · split at h
      · rename_i hword
        cases h
        exact .yes (keyword?_eq_some_iff.1 hword)
      · rename_i hword
        cases h
        exact .no (keyword?_eq_some_iff.1 hword)
      · cases h
      · cases h
    · cases h
  · intro h
    unfold value
    cases h with
    | integer hkind hwhole hbound =>
      rw [hkind, numberValue_eq_ok_iff.2 (.inr ⟨hwhole, hbound, rfl⟩)]
      rfl
    | float hkind hfractional =>
      rw [hkind, numberValue_eq_ok_iff.2 (.inl ⟨hfractional, rfl⟩)]
      rfl
    | string hkind hs =>
      rw [hkind, decode_eq_ok_iff.2 hs]
      rfl
    | yes hword => rw [hword.1, keyword?_eq_some_iff (k := .yes).2 hword]
    | no hword => rw [hword.1, keyword?_eq_some_iff (k := .no).2 hword]

end Stencil.Expression
