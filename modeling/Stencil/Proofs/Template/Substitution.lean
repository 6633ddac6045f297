/-
Substitution and the end of a text.

What stands at the end of a text takes part in the substitution only if a token can reach into it:
lie in it, or begin before it and end in it (`Reaches`). Else it is kept as it is, and what is in
front of it is replaced as if it were not there (`substitute_append`).
-/
import Stencil.Template.Substitution
import Stencil.Text.Blank

namespace Stencil.Template

/-- Whether an occurrence of `first :: others` can take characters of a `tail` that ends the text:
because it lies in it, or because it begins before and ends in it. -/
def Reaches (first : Char) (others tail : List Char) : Prop :=
  first :: others <:+: tail ∨ ∃ part, part ≠ [] ∧ part <:+ others ∧ part <+: tail

variable {sigil first : Char} {others new tail name : List Char}

theorem not_reaches_nil : ¬Reaches first others [] := by
  rintro (h | ⟨part, hne, -, hfront⟩)
  · exact absurd h.length_le (by simp)
  · exact hne (List.prefix_nil.1 hfront)

/-- A token that shares no character with the tail does not reach it. -/
theorem not_reaches_of_disjoint (hfirst : first ∉ tail) (hothers : ∀ c ∈ others, c ∉ tail) :
    ¬Reaches first others tail := by
  rintro (hin | ⟨part, hne, hsuffix, hfront⟩)
  · exact hfirst (hin.subset (List.mem_cons_self ..))
  · have hmem := List.head_mem hne
    exact hothers _ (hsuffix.subset hmem) (hfront.subset hmem)

theorem occurs_iff_isInfix {text : List Char} :
    occurs first others text = true ↔ first :: others <:+: text := by
  induction text with
  | nil => simp [occurs]
  | cons c rest ih =>
    rw [occurs, Bool.or_eq_true, ih, List.infix_cons_iff, List.cons_prefix_cons,
      Bool.and_eq_true, decide_eq_true_eq, List.isPrefixOf_iff_prefix, eq_comm]

/-- Where `others` goes on in the tail, its end is at the front of the tail. -/
theorem isPrefixOf_append_iff (h : ¬Reaches first others tail) (rest : List Char) :
    others.isPrefixOf (rest ++ tail) = true ↔ others.isPrefixOf rest = true := by
  rw [List.isPrefixOf_iff_prefix, List.isPrefixOf_iff_prefix]
  refine ⟨fun hlong => ?_, fun hshort => hshort.trans (List.prefix_append rest tail)⟩
  rcases List.prefix_or_prefix_of_prefix hlong (List.prefix_append rest tail) with hin | hout
  · exact hin
  · obtain ⟨part, rfl⟩ := hout
    by_cases hpart : part = []
    · simp [hpart]
    · have hreach : part <+: tail := (List.prefix_append_right_inj rest).1 hlong
      exact absurd (.inr ⟨part, hpart, List.suffix_append rest part, hreach⟩) h

theorem replace_append (h : ¬Reaches first others tail) (text : List Char) :
    replace first others new (text ++ tail) = replace first others new text ++ tail := by
  fun_induction replace first others new text with
  | case1 =>
    have hno : occurs first others tail = false := by
      rw [← Bool.not_eq_true, occurs_iff_isInfix]
      exact fun hin => h (.inl hin)
    exact replace_eq_self_of_not_occurs new hno
  | case2 c rest hc ih =>
    have hlen := (List.isPrefixOf_iff_prefix.1 hc.2).length_le
    rw [List.cons_append, replace, if_pos ⟨hc.1, (isPrefixOf_append_iff h rest).2 hc.2⟩,
      List.drop_append_of_le_length hlen, ih, List.append_assoc]
  | case3 c rest hc ih =>
    rw [List.cons_append, replace, if_neg, ih, List.cons_append]
    rwa [isPrefixOf_append_iff h rest]

/-- A token that does not occur is not replaced anyway. -/
theorem replaceVariable_eq (sigil : Char) (text : List Char) (entry : Entry) :
    replaceVariable sigil text entry =
      replace sigil (braced entry.1.toList) entry.2.text.toList
        (replace sigil entry.1.toList entry.2.text.toList text) := by
  rw [replaceVariable]
  split
  · rfl
  · rename_i h
    simp only [Bool.or_eq_true, not_or, Bool.not_eq_true] at h
    rw [replace_eq_self_of_not_occurs _ h.1, replace_eq_self_of_not_occurs _ h.2]

theorem replaceVariable_append {entry : Entry} (hbare : ¬Reaches sigil entry.1.toList tail)
    (hbraced : ¬Reaches sigil (braced entry.1.toList) tail) (text : List Char) :
    replaceVariable sigil (text ++ tail) entry = replaceVariable sigil text entry ++ tail := by
  rw [replaceVariable_eq, replaceVariable_eq, replace_append hbare, replace_append hbraced]

/-- A text without the sigil has no tokens. -/
theorem substitute_eq_foldl (sigil : Char) (vars : Variables) (text : List Char) :
    substitute sigil vars text = vars.entries.foldl (replaceVariable sigil) text := by
  rw [substitute]
  split
  · rfl
  · rename_i hsigil
    have hno (others : List Char) : occurs sigil others text = false := by
      rw [← Bool.not_eq_true, occurs_iff_isInfix]
      exact fun hin => hsigil (hin.subset (List.mem_cons_self ..))
    have hself (entry : Entry) : replaceVariable sigil text entry = text := by
      rw [replaceVariable_eq, replace_eq_self_of_not_occurs _ (hno _),
        replace_eq_self_of_not_occurs _ (hno _)]
    induction vars.entries with
    | nil => rfl
    | cons entry rest ih => rw [List.foldl_cons, hself, ← ih]

theorem mem_of_mem_replace {c : Char} {text : List Char}
    (h : c ∈ replace first others new text) : c ∈ text ∨ c ∈ new := by
  fun_induction replace first others new text with
  | case1 => exact .inl h
  | case2 d rest hd ih =>
    rcases List.mem_append.1 h with hnew | hrest
    · exact .inr hnew
    · rcases ih hrest with hin | hnew
      · exact .inl (List.mem_cons_of_mem _ (List.mem_of_mem_drop hin))
      · exact .inr hnew
  | case3 d rest hd ih =>
    rcases List.mem_cons.1 h with rfl | hrest
    · exact .inl (List.mem_cons_self ..)
    · exact (ih hrest).imp_left (List.mem_cons_of_mem _)

/-- What is shown comes from the text or from a value. -/
theorem mem_of_mem_substitute {c : Char} {vars : Variables} {text : List Char}
    (h : c ∈ substitute sigil vars text) :
    c ∈ text ∨ ∃ entry ∈ vars.entries, c ∈ entry.2.text.toList := by
  rw [substitute_eq_foldl] at h
  generalize vars.entries = entries at h ⊢
  induction entries generalizing text with
  | nil => exact .inl h
  | cons entry rest ih =>
    rw [List.foldl_cons, replaceVariable_eq] at h
    rcases ih h with hin | ⟨other, hother, hin⟩
    · rcases mem_of_mem_replace hin with hin | hvalue
      · exact (mem_of_mem_replace hin).imp_right fun hvalue =>
          ⟨entry, List.mem_cons_self .., hvalue⟩
      · exact .inr ⟨entry, List.mem_cons_self .., hvalue⟩
    · exact .inr ⟨other, List.mem_cons_of_mem _ hother, hin⟩

/-- What no token reaches is kept at the end of a text. -/
theorem substitute_append {vars : Variables}
    (hbare : ∀ name ∈ vars.keys, ¬Reaches sigil name.toList tail)
    (hbraced : ∀ name ∈ vars.keys, ¬Reaches sigil (braced name.toList) tail) (text : List Char) :
    substitute sigil vars (text ++ tail) = substitute sigil vars text ++ tail := by
  rw [substitute_eq_foldl, substitute_eq_foldl]
  rw [Variables.keys] at hbare hbraced
  generalize vars.entries = entries at hbare hbraced ⊢
  induction entries generalizing text with
  | nil => rfl
  | cons entry rest ih =>
    rw [List.map_cons, List.forall_mem_cons] at hbare hbraced
    rw [List.foldl_cons, List.foldl_cons, replaceVariable_append hbare.1 hbraced.1]
    exact ih _ hbare.2 hbraced.2

/-- A braced token does not reach blanks: it ends in a brace. -/
theorem not_reaches_braced (h : ∀ c ∈ tail, Text.isBlank c = true) :
    ¬Reaches sigil (braced name) tail := by
  have hbrace : ∀ {part : List Char}, part ⊆ tail → '}' ∉ part := fun hsub hin =>
    absurd (h _ (hsub hin)) (by decide)
  rintro (hin | ⟨part, hne, ⟨front, hsuffix⟩, hfront⟩)
  · exact hbrace hin.subset (by simp [braced])
  · refine hbrace hfront.subset (List.mem_of_getLast? ?_)
    have hlast := congrArg List.getLast? hsuffix
    rw [List.getLast?_append, List.getLast?_eq_some_getLast hne, Option.some_or] at hlast
    rw [List.getLast?_eq_some_getLast hne, hlast, braced, List.getLast?_concat]

end Stencil.Template
