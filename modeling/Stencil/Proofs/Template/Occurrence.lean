/-
Replacement by the occurrences of a token.

The occurrences that count are met from left to right, each behind the one before. What they leave
of a text are its gaps: each of them but the last ends where the token first occurs, and the last is
behind all occurrences. A text has one list of gaps (`exists_gaps`, `Gaps.unique`), and replacement
joins them with the new text (`Gaps.replace_eq`). A variable whose tokens do not occur leaves one
gap, the whole text, so that nothing depends on whether its turn is passed over.
-/
import Stencil.Proofs.Template.Substitution

namespace Stencil.Template

/-- What is left of a text between the occurrences of a token, in front of the first and behind the
last. Where a gap ends the token occurs for the first time. -/
inductive Gaps (token : List Char) : List Char → List (List Char) → Prop
  | last {text : List Char} (h : ¬token <:+: text) : Gaps token text [text]
  | next {gap rest : List Char} {gaps : List (List Char)}
      (hfirst : ¬token <:+: gap ++ token.dropLast) (hrest : Gaps token rest gaps) :
      Gaps token (gap ++ (token ++ rest)) (gap :: gaps)

variable {first : Char} {others new token text gap gap' rest rest' : List Char}
  {gaps gaps' : List (List Char)}

/-- No occurrence begins in front of the one that ends a gap. -/
theorem length_gap_le (hne : token ≠ []) (hfirst : ¬token <:+: gap ++ token.dropLast)
    (h : gap' ++ (token ++ rest') = gap ++ (token ++ rest)) : gap.length ≤ gap'.length := by
  refine Nat.not_lt.1 fun hlt => hfirst ?_
  have hlong : gap ++ token.dropLast <+: gap ++ (token ++ rest) :=
    (List.prefix_append_right_inj _).2 ((List.dropLast_prefix _).trans (List.prefix_append _ _))
  have hearly : gap' ++ token <+: gap ++ (token ++ rest) := by
    rw [← h, ← List.append_assoc]
    exact List.prefix_append _ _
  refine (List.suffix_append gap' token).isInfix.trans
    (List.prefix_of_prefix_length_le hearly hlong ?_).isInfix
  have hpos := List.length_pos_iff.2 hne
  simp only [List.length_append, List.length_dropLast]
  omega

namespace Gaps

theorem ne_nil (h : Gaps token text gaps) : gaps ≠ [] := by
  cases h <;> exact List.cons_ne_nil _ _

/-- The text is its gaps with the token between them. -/
theorem intercalate_eq (h : Gaps token text gaps) : token.intercalate gaps = text := by
  induction h with
  | last h => exact List.intercalate_singleton
  | next hfirst hrest ih =>
    rw [List.intercalate_cons_of_ne_nil hrest.ne_nil, ih, List.append_assoc]

/-- A text has one list of gaps at most. -/
theorem unique (hne : token ≠ []) (h : Gaps token text gaps) (h' : Gaps token text gaps') :
    gaps = gaps' := by
  induction h generalizing gaps' with
  | last hno =>
    cases h' with
    | last _ => rfl
    | next _ _ => exact absurd (List.infix_append' ..) hno
  | @next gap rest gaps hfirst hrest ih =>
    generalize htext : gap ++ (token ++ rest) = text at h'
    cases h' with
    | last hno => exact absurd (htext ▸ List.infix_append' ..) hno
    | next hfirst' hrest' =>
      have hlength := Nat.le_antisymm (length_gap_le hne hfirst htext.symm)
        (length_gap_le hne hfirst' htext)
      obtain ⟨rfl, hbehind⟩ := List.append_inj htext hlength
      rw [ih ((List.append_cancel_left hbehind).symm ▸ hrest')]

/-- A character in front of a text is in front of its first gap, unless the token begins there. -/
theorem cons {c : Char} (h : Gaps token text gaps) (hno : ¬token <+: c :: text) :
    ∃ gaps, Gaps token (c :: text) gaps := by
  cases h with
  | last h => exact ⟨_, .last fun hin => (List.infix_cons_iff.1 hin).elim hno h⟩
  | @next gap rest gaps hfirst hrest =>
    rw [← List.cons_append] at hno ⊢
    refine ⟨(c :: gap) :: gaps, .next (fun hin => ?_) hrest⟩
    have hlong : c :: gap ++ token.dropLast <+: c :: gap ++ (token ++ rest) :=
      (List.prefix_append_right_inj _).2 ((List.dropLast_prefix _).trans (List.prefix_append _ _))
    exact (List.infix_cons_iff.1 hin).elim (fun hfront => hno (hfront.trans hlong)) hfirst

end Gaps

theorem exists_gaps (first : Char) (others text : List Char) :
    ∃ gaps, Gaps (first :: others) text gaps := by
  -- Along the replacement by nothing: it stops at the occurrences that count.
  fun_induction replace first others [] text with
  | case1 => exact ⟨_, .last (by simp)⟩
  | case2 c rest hc ih =>
    obtain ⟨gaps, hgaps⟩ := ih
    obtain ⟨rfl, hfront⟩ := hc
    obtain ⟨rest, rfl⟩ := List.isPrefixOf_iff_prefix.1 hfront
    rw [List.drop_left] at hgaps
    have hfirst : ¬c :: others <:+: [] ++ (c :: others).dropLast := fun hin => by
      have hlength := hin.length_le
      rw [List.nil_append, List.length_dropLast, List.length_cons] at hlength
      omega
    exact ⟨[] :: gaps, .next hfirst hgaps⟩
  | case3 c rest hc ih =>
    obtain ⟨gaps, hgaps⟩ := ih
    refine hgaps.cons fun hfront => hc ?_
    rw [List.cons_prefix_cons] at hfront
    exact ⟨hfront.1.symm, List.isPrefixOf_iff_prefix.2 hfront.2⟩

/-- The first occurrence is replaced, and the text in front of it is kept. -/
theorem replace_gap (hfirst : ¬first :: others <:+: gap ++ (first :: others).dropLast) :
    replace first others new (gap ++ (first :: others ++ rest)) =
      gap ++ (new ++ replace first others new rest) := by
  induction gap with
  | nil =>
    have hfront : others.isPrefixOf (others ++ rest) = true :=
      List.isPrefixOf_iff_prefix.2 (List.prefix_append _ _)
    rw [List.nil_append, List.cons_append, replace, if_pos ⟨rfl, hfront⟩, List.drop_left,
      List.nil_append]
  | cons c gap ih =>
    have hno : ¬first :: others <+: c :: gap ++ (first :: others ++ rest) := by
      rintro ⟨tail, htail⟩
      have hlength : (c :: gap).length ≤ ([] : List Char).length :=
        length_gap_le (List.cons_ne_nil _ _) hfirst htail
      cases hlength
    rw [List.cons_append, List.cons_prefix_cons] at hno
    rw [List.cons_append, replace, if_neg, ih fun hin => hfirst (List.infix_cons hin),
      List.cons_append]
    exact fun hc => hno ⟨hc.1.symm, List.isPrefixOf_iff_prefix.1 hc.2⟩

/-- Replacement puts the new text between the gaps. -/
theorem Gaps.replace_eq (h : Gaps (first :: others) text gaps) (new : List Char) :
    replace first others new text = new.intercalate gaps := by
  induction h with
  | last h =>
    rw [List.intercalate_singleton]
    exact replace_eq_self_of_not_occurs new (by rwa [← Bool.not_eq_true, occurs_iff_isInfix])
  | next hfirst hrest ih =>
    rw [replace_gap hfirst, ih, List.intercalate_cons_of_ne_nil hrest.ne_nil, List.append_assoc]

/-- The text with both tokens of one variable replaced, the bare one first, whether or not there are
any. -/
def replaceBoth (sigil : Char) (text : List Char) (entry : Entry) : List Char :=
  let name := entry.1.toList
  let value := entry.2.text.toList
  replace sigil (braced name) value (replace sigil name value text)

/-- **Substitution replaces the tokens of all variables in turn.** It looks for no sigil first, nor
for tokens of a variable before its turn, but for the time that this saves: whatever the names and
the values, the variables in their order replace each their bare tokens and then, in the result,
their braced ones. And a replacement puts the new text in the place of the token between the gaps
that the occurrences, from left to right, leave of the text. -/
theorem substitute_replaces_in_turn (sigil : Char) (vars : Variables) (text : List Char) :
    substitute sigil vars text = vars.entries.foldl (replaceBoth sigil) text ∧
    ∀ (others new text : List Char), ∃ gaps,
      (∀ gaps', Gaps (sigil :: others) text gaps' ↔ gaps' = gaps) ∧
      (sigil :: others).intercalate gaps = text ∧
      replace sigil others new text = new.intercalate gaps := by
  refine ⟨?_, fun others new text => ?_⟩
  · have hturn : replaceVariable sigil = replaceBoth sigil := by
      funext text entry
      exact replaceVariable_eq sigil text entry
    rw [substitute_eq_foldl, hturn]
  · obtain ⟨gaps, hgaps⟩ := exists_gaps sigil others text
    refine ⟨gaps, fun gaps' => ⟨fun h => ?_, ?_⟩, hgaps.intercalate_eq, hgaps.replace_eq new⟩
    · exact h.unique (List.cons_ne_nil _ _) hgaps
    · rintro rfl
      exact hgaps

/-- A name with the sigil in it, whose token a value has brought in, and an empty name. -/
example :
    let vars := Variables.ofList [("a", .string "$"), ("$b", .string "x"), ("", .string "-")]
    substitute '$' vars "$a$b $$a".toList = "x --".toList := by
  decide +kernel

end Stencil.Template
