/-
Parts of a text that is cut into tokens.

A token is found by looking at what follows, but what follows its last character only ends it, so it
is found just as well where the text ends behind it (`head_take`). Hence a text falls apart between
any two of its tokens, and each part has the tokens that it has in the whole (`exists_cut`), but for
the places where they start (`scanFrom_add`). The text from the start of one token to the end of
another is cut into the tokens from the one to the other (`Lexes.slice`).
-/
import Stencil.Proofs.Expression.Quotation

namespace Stencil

/-- The same span where so many bytes are in front of it. -/
def Span.shift (n : Nat) (span : Span) : Span := ⟨n + span.start, n + span.stop⟩

theorem Span.join_of_le {a b : Span} (hstart : a.start ≤ b.start) (hstop : a.stop ≤ b.stop) :
    a.join b = ⟨a.start, b.stop⟩ := by
  rw [join, Nat.min_eq_left hstart, Nat.max_eq_right hstop]

theorem Span.join_shift (n : Nat) (a b : Span) :
    (a.shift n).join (b.shift n) = (a.join b).shift n := by
  simp only [join, shift, mk.injEq]
  omega

namespace Expression

open Checked (signRun exponentRun_cons)
open Text

/-! ## Tokens at the end of a text -/

variable {text rest : List Char} {n more : Nat}

theorem length_takeWhile_take (p : Char → Bool) (n : Nat) (text : List Char) :
    ((text.take n).takeWhile p).length = min n (text.takeWhile p).length := by
  rw [← List.take_takeWhile, List.length_take]

theorem digitRun_take (n : Nat) (text : List Char) :
    digitRun (text.take n) = min n (digitRun text) :=
  length_takeWhile_take Char.isDigit n text

theorem fractionRun_take (h : fractionRun text ≤ n) :
    fractionRun (text.take n) = fractionRun text := by
  unfold fractionRun at h ⊢
  cases n with
  | zero => split at h <;> simp_all
  | succ n =>
    cases text with
    | nil => rfl
    | cons c text =>
      rw [List.take_succ_cons]
      by_cases hc : c = '.'
      · subst hc
        simp only [digitRun_take] at h ⊢
        split at h <;> split <;> omega
      · simp [hc]

theorem signRun_take (n : Nat) (text : List Char) :
    signRun (text.take n) = min n (signRun text) := by
  cases n with
  | zero => simp [signRun]
  | succ n =>
    cases text with
    | nil => rfl
    | cons c text =>
      rw [List.take_succ_cons]
      by_cases hplus : c = '+'
      · simp [signRun, hplus]
      · by_cases hminus : c = '-'
        · simp [signRun, hminus]
        · simp [signRun, hplus, hminus]

theorem exponentRun_take (h : exponentRun text ≤ n) :
    exponentRun (text.take n) = exponentRun text := by
  cases text with
  | nil => rw [List.take_nil]
  | cons c text =>
    cases n with
    | zero =>
      rw [Nat.le_zero.1 h]
      rfl
    | succ n =>
      rw [List.take_succ_cons]
      by_cases hc : c = 'e' ∨ c = 'E'
      · rw [exponentRun_cons hc] at h
        rw [exponentRun_cons hc, exponentRun_cons hc, signRun_take, List.drop_take, digitRun_take]
        by_cases hsign : signRun text ≤ n
        · rw [Nat.min_eq_right hsign]
          split at h <;> split <;> omega
        · split at h <;> split <;> omega
      · rw [not_or] at hc
        simp [exponentRun, hc.1, hc.2]

theorem numberRun_take (h : numberRun text ≤ n) : numberRun (text.take n) = numberRun text := by
  have hnumber : numberRun text = digitRun text + fractionRun (text.drop (digitRun text)) +
    exponentRun (text.drop (digitRun text + fractionRun (text.drop (digitRun text)))) := rfl
  have hwhole : digitRun (text.take n) = digitRun text := by
    rw [digitRun_take]
    omega
  have hfraction : fractionRun ((text.take n).drop (digitRun text)) =
      fractionRun (text.drop (digitRun text)) := by
    rw [List.drop_take]
    exact fractionRun_take (by omega)
  simp only [numberRun, hwhole, hfraction]
  rw [List.drop_take, exponentRun_take (by omega)]

theorem closing?_take {quote : Char} (hquote : quote ≠ '\\') {k : Nat}
    (h : closing? quote text = some k) (hk : k ≤ n) : closing? quote (text.take n) = some k := by
  rw [closing?_eq_some_iff hquote] at h ⊢
  obtain ⟨body, rest, rfl, rfl, hbody⟩ := h
  refine ⟨body, rest.take (n - (body.length + 1)), ?_, rfl, hbody⟩
  obtain ⟨m, rfl⟩ := Nat.exists_eq_add_of_le hk
  rw [List.take_append, List.take_of_length_le (by omega)]
  have hm : body.length + 1 + m - body.length = m + 1 := by omega
  rw [hm, List.take_succ_cons]
  simp

theorem pair_take {second : Char} {double : Token.Kind} {single : Option Token.Kind}
    {kind : Token.Kind} (h : pair second double single rest = .token kind more) (hmore : more ≤ n) :
    pair second double single (rest.take n) = .token kind more := by
  cases rest with
  | nil => rwa [List.take_nil]
  | cons d rest =>
    cases n with
    | succ n =>
      rw [List.take_succ_cons]
      cases single <;> exact h
    | zero =>
      obtain rfl := Nat.le_zero.1 hmore
      by_cases hd : d = second <;> cases single <;> simp_all [pair]

theorem ite_eq_of_imp {α : Type} {p : Prop} [Decidable p] {a b a' b' x : α}
    (hpos : p → a = x → a' = x) (hneg : ¬p → b = x → b' = x) :
    (if p then a else b) = x → (if p then a' else b') = x := by
  intro h
  by_cases hp : p
  · rw [if_pos hp] at h ⊢
    exact hpos hp h
  · rw [if_neg hp] at h ⊢
    exact hneg hp h

/-- A token is found just as well where the text is cut off behind it. -/
theorem head_take [Alphabet] {c : Char} {kind : Token.Kind} (h : head c rest = .token kind more)
    (hmore : more ≤ n) : head c (rest.take n) = .token kind more := by
  have hrun (p : Char → Bool) (k : Token.Kind)
      (h : Head.token k (rest.takeWhile p).length = .token kind more) :
      Head.token k ((rest.take n).takeWhile p).length = .token kind more := by
    cases h
    rw [length_takeWhile_take, Nat.min_eq_right hmore]
  revert h
  unfold head
  iterate 7 refine ite_eq_of_imp (fun _ h => h) fun _ => ?_
  iterate 5 refine ite_eq_of_imp (fun _ h => pair_take h hmore) fun _ => ?_
  refine ite_eq_of_imp (fun _ h => ?_) fun _ => ?_
  · -- A `<` makes a sign with a `>` too.
    cases rest with
    | nil => rwa [List.take_nil]
    | cons d rest =>
      by_cases hd : d = '>'
      · subst hd
        cases h
        obtain ⟨m, rfl⟩ := Nat.exists_eq_add_of_le' hmore
        rfl
      · have hpair : pair '=' .atMost (some .less) (d :: rest) = .token kind more := by
          simpa [hd] using h
        have htake := pair_take hpair hmore
        cases n with
        | zero => exact htake
        | succ n =>
          rw [List.take_succ_cons] at htake ⊢
          simpa [hd] using htake
  refine ite_eq_of_imp (fun hquote h => ?_) fun _ => ?_
  · have hquote : c ≠ '\\' := by rcases hquote with rfl | rfl <;> decide
    cases hclosing : closing? c rest with
    | none => simp [hclosing] at h
    | some k =>
      simp only [hclosing] at h
      cases h
      rw [closing?_take hquote hclosing hmore]
  refine ite_eq_of_imp (fun _ h => ?_) fun _ => ?_
  · cases h
    rw [numberRun_take hmore]
  refine ite_eq_of_imp (fun _ => hrun isBlank .blank) fun _ => ?_
  exact ite_eq_of_imp (fun _ => hrun isIdentifierPart .word) fun _ h => h

/-- Where a list is left by a filter as `front ++ core ++ back`, a part of it is left as `core` and
has the same ends. -/
theorem exists_of_filter_eq {α : Type} {p : α → Bool} {list front core back : List α} {a b : α}
    (h : list.filter p = front ++ core ++ back) (hfirst : core.head? = some a)
    (hlast : core.getLast? = some b) :
    ∃ before middle after, list = before ++ (middle ++ after) ∧ middle.filter p = core ∧
      middle.head? = some a ∧ middle.getLast? = some b := by
  obtain ⟨init, rfl⟩ := List.getLast?_eq_some_iff.1 hlast
  -- Up to `b`: what is left in front of it, what is not left, and `b`.
  have hend : list.filter p = (front ++ init) ++ b :: back := by simp [h]
  obtain ⟨left, right, rfl, hleft, hright⟩ := List.filter_eq_append_iff.1 hend
  obtain ⟨gap, after, rfl, hgap, hb, -⟩ := List.filter_eq_cons_iff.1 hright
  have hgap : gap.filter p = [] := List.filter_eq_nil_iff.2 hgap
  have hfront : (left ++ (gap ++ [b])).filter p = front ++ (init ++ [b]) := by
    simp [hleft, hgap, hb]
  -- And of this, what is behind the tokens in front of `a`.
  obtain ⟨before, rest, hrest, -, hcore⟩ := List.filter_eq_append_iff.1 hfront
  obtain ⟨others, hothers⟩ := List.head?_eq_some_iff.1 hfirst
  have hcons := hcore
  rw [hothers] at hcons
  obtain ⟨gap', tail, rfl, hgap', ha, htail⟩ := List.filter_eq_cons_iff.1 hcons
  refine ⟨before ++ gap', a :: tail, after, ?_, ?_, rfl, ?_⟩
  · simpa using congrArg (· ++ after) hrest
  · rw [List.filter_cons_of_pos ha, htail, hothers]
  · have hlist := congrArg List.getLast? hrest
    simpa using hlist.symm

/-! ## Parts of a text -/

/-- The same token where so many bytes are in front of it. -/
def Token.shift (n : Nat) (t : Token) : Token := { t with start := n + t.start }

theorem Token.span_shift (n : Nat) (t : Token) : (t.shift n).span = t.span.shift n := by
  simp only [span, shift, Span.shift, Nat.add_assoc]

variable [Alphabet]

/-- The tokens of a text do not depend on where it starts, but for where they start. -/
theorem scanFrom_add (n start : Nat) (text : List Char) :
    (scanFrom (n + start) text).tokens = (scanFrom start text).tokens.map (Token.shift n) ∧
      ((scanFrom (n + start) text).failure? = none ↔ (scanFrom start text).failure? = none) := by
  fun_induction scanFrom start text with
  | case1 => simp [scanFrom]
  | case2 start c rest fault more hhead => simp [scanFrom, hhead]
  | case3 start c rest kind more hhead token after ih =>
    have hstop : n + token.span.stop = n + start + byteSize (c :: rest.take more) :=
      (Nat.add_assoc n start _).symm
    rw [hstop] at ih
    simp only [scanFrom, hhead, Token.span, List.map_cons, List.cons.injEq]
    exact ⟨⟨rfl, ih.1⟩, ih.2⟩

/-- A text falls apart between any two of its tokens. -/
theorem exists_cut {start : Nat} {front back : List Token}
    (h : (scanFrom start text).tokens = front ++ back) :
    ∃ before after, text = before ++ after ∧ scanFrom start before = ⟨front, none⟩ ∧
      scanFrom (start + byteSize before) after = ⟨back, (scanFrom start text).failure?⟩ := by
  induction front generalizing start text with
  | nil => exact ⟨[], text, rfl, by rw [scanFrom], by rw [← List.nil_append back, ← h]; rfl⟩
  | cons t front ih =>
    cases text with
    | nil => rw [scanFrom] at h; cases h
    | cons c rest =>
      cases hhead : head c rest with
      | none fault more => simp [scanFrom, hhead] at h
      | token kind more =>
        rw [scanFrom] at h ⊢
        simp only [hhead, List.cons_append, List.cons.injEq] at h ⊢
        obtain ⟨rfl, h⟩ := h
        obtain ⟨before, after, hrest, hbefore, hafter⟩ := ih h
        -- The first token is found in front of `before` alone as it is in front of all that follows.
        have htake : rest.take (more + before.length) = rest.take more ++ before := by
          rw [List.take_add, hrest, List.take_left]
        have hdrop : rest.drop (more + before.length) = after := by
          rw [← List.drop_drop, hrest, List.drop_left]
        have hhead' := head_take hhead (Nat.le_add_right more before.length)
        have hfront : (rest.take (more + before.length)).take more = rest.take more := by
          rw [List.take_take, Nat.min_eq_left (Nat.le_add_right more before.length)]
        have hback : (rest.take (more + before.length)).drop more = before := by
          rw [List.drop_take, hrest, Nat.add_sub_cancel_left, List.take_left]
        refine ⟨c :: rest.take (more + before.length), after, ?_, ?_, ?_⟩
        · rw [List.cons_append, ← hdrop, List.take_append_drop]
        · rw [scanFrom]
          simp only [hhead', hfront, hback, hbefore]
        · rw [← hafter, htake]
          congr 1
          simp only [Token.span, byteSize_cons, byteSize_append]
          omega

/-- The first token of a text is where the text starts. -/
theorem start_eq_of_scanFrom {start : Nat} {t : Token} {tokens : List Token}
    (h : (scanFrom start text).tokens = t :: tokens) : t.start = start := by
  cases text with
  | nil => rw [scanFrom] at h; cases h
  | cons c rest =>
    cases hhead : head c rest with
    | none fault more => simp [scanFrom, hhead] at h
    | token kind more =>
      rw [scanFrom] at h
      simp only [hhead, List.cons.injEq] at h
      rw [← h.1]

/-- The last token of a text that is cut to its end is where the text ends. -/
theorem stop_eq_of_scanFrom {start : Nat} {t : Token} {tokens : List Token}
    (h : scanFrom start text = ⟨tokens ++ [t], none⟩) :
    t.span.stop = start + byteSize text := by
  obtain ⟨before, after, rfl, -, hafter⟩ := exists_cut (congrArg Scan.tokens h)
  rw [h] at hafter
  obtain ⟨left, hleft, hnil⟩ := flatten_scanFrom (start + byteSize before) after
  rw [hnil.2 (congrArg Scan.failure? hafter), hafter, List.append_nil] at hleft
  have hstart := start_eq_of_scanFrom (congrArg Scan.tokens hafter)
  simp only [List.map_cons, List.map_nil, List.flatten_cons, List.flatten_nil, List.append_nil]
    at hleft
  rw [Token.span, hstart, hleft, byteSize_append, Nat.add_assoc]

/-- Whether tokens stand one behind the other. -/
def InOrder (tokens : List Token) : Prop := tokens.Pairwise fun t u => t.span.stop ≤ u.start

theorem inOrder_scanFrom (start : Nat) (text : List Char) :
    (∀ t ∈ (scanFrom start text).tokens, start ≤ t.start) ∧
      InOrder (scanFrom start text).tokens := by
  fun_induction scanFrom start text with
  | case1 => simp [InOrder]
  | case2 => simp [InOrder]
  | case3 start c rest kind more hhead token after ih =>
    refine ⟨List.forall_mem_cons.2 ⟨Nat.le_refl start, fun t ht => ?_⟩, List.pairwise_cons.2 ih⟩
    exact Nat.le_trans (Nat.le_add_right _ _) (ih.1 t ht)

theorem Lexes.inOrder {tokens : List Token} (h : Lexes text tokens) : InOrder tokens := by
  rw [← h.tokens_eq]
  exact (inOrder_scanFrom 0 text).2.filter _

/-! ## Parts between two tokens -/

/-- From the start of a token to the end of another a text is cut into the tokens from the one to
the other. -/
theorem Lexes.slice {front core back : List Token} {first last : Token}
    (h : Lexes text (front ++ core ++ back)) (hfirst : core.head? = some first)
    (hlast : core.getLast? = some last) :
    ∃ own, Lexes (Span.slice ⟨first.start, last.span.stop⟩ text) own ∧
      own.map (Token.shift first.start) = core := by
  obtain ⟨before, middle, after, hall, hcore, hmiddle, hend⟩ :=
    exists_of_filter_eq h.tokens_eq hfirst hlast
  obtain ⟨prior, later, rfl, hprior, hlater⟩ := exists_cut hall
  rw [Nat.zero_add] at hlater
  obtain ⟨inner, rest, rfl, hinner, -⟩ := exists_cut (congrArg Scan.tokens hlater)
  obtain ⟨others, rfl⟩ := List.head?_eq_some_iff.1 hmiddle
  obtain ⟨init, hinit⟩ := List.getLast?_eq_some_iff.1 hend
  have hstart := start_eq_of_scanFrom (congrArg Scan.tokens hinner)
  have hstop := stop_eq_of_scanFrom (hinit ▸ hinner)
  have hspan : (⟨first.start, last.span.stop⟩ : Span) = .after prior inner := by
    rw [hstart, hstop, Span.after]
  have hslice : Span.slice (.after prior inner) (prior ++ (inner ++ rest)) = inner := by
    rw [← List.append_assoc, Span.slice_after]
  have hshift := scanFrom_add first.start 0 inner
  rw [Nat.add_zero, hstart, hinner] at hshift
  refine ⟨(scan inner).significant.tokens, ?_, ?_⟩
  · rw [hspan, hslice]
    exact ⟨hshift.2.1 rfl, rfl⟩
  · have htokens : first :: others = (scan inner).tokens.map (Token.shift (byteSize prior)) :=
      hshift.1
    rw [← hcore, hstart, htokens, List.filter_map]
    rfl

end Expression

end Stencil
