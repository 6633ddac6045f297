/-
What is left of a text that is trimmed.

A text trimmed at its end is the text up to its last character that is kept (`trimmed_dropEnd`). One
that ends in such a character stays as it is (`dropEnd_eq_self`), and a text trimmed at both ends is
what stands between the characters that are taken off (`strip_eq`).
-/
import Mathlib.Data.List.TakeDrop
import Stencil.Text.Blank

namespace Stencil.Text

variable {p : Char → Bool}

/-- Whether a text is what another leaves when the characters at its end are taken off that satisfy
`p`, and no others. -/
structure Trimmed (p : Char → Bool) (text kept : List Char) : Prop where
  tail : ∃ tail, text = kept ++ tail ∧ ∀ c ∈ tail, p c = true
  last : ∀ c, kept.getLast? = some c → p c = false

theorem trimmed_dropEnd (p : Char → Bool) (text : List Char) : Trimmed p text (dropEnd p text) := by
  induction text with
  | nil => exact ⟨⟨[], rfl, fun _ hc => absurd hc List.not_mem_nil⟩, fun _ hc => by cases hc⟩
  | cons c rest ih =>
    obtain ⟨tail, htail, hp⟩ := ih.tail
    rw [dropEnd_cons]
    split
    · rename_i hall
      refine ⟨⟨c :: rest, rfl, List.forall_mem_cons.2 ⟨hall.2, ?_⟩⟩, fun _ hc => by cases hc⟩
      exact dropEnd_eq_nil_iff.1 hall.1
    · rename_i hkept
      refine ⟨⟨tail, congrArg (c :: ·) htail, hp⟩, fun d hd => ?_⟩
      cases hrest : dropEnd p rest with
      | nil =>
        rw [hrest] at hd
        cases hd
        exact Bool.eq_false_iff.2 fun hc => hkept ⟨hrest, hc⟩
      | cons k kept =>
        rw [hrest, List.getLast?_cons_cons, ← hrest] at hd
        exact ih.last d hd

theorem dropEnd_eq_self {text : List Char} (h : ∀ c, text.getLast? = some c → p c = false) :
    dropEnd p text = text := by
  rcases List.eq_nil_or_concat text with rfl | ⟨init, c, rfl⟩
  · rfl
  · rw [List.concat_eq_append] at *
    have hc : dropEnd p [c] = [c] := by simp [dropEnd, h c (by simp)]
    rw [dropEnd_append (by simp [hc]), hc]

/-- What is stripped off a text is what stands around it. -/
theorem strip_eq {front text back : List Char} (hfront : ∀ c ∈ front, p c = true)
    (hback : ∀ c ∈ back, p c = true) (hfirst : ∀ c, text.head? = some c → p c = false)
    (hlast : ∀ c, text.getLast? = some c → p c = false) :
    strip p (front ++ text ++ back) = text := by
  cases text with
  | nil =>
    rw [strip, dropEnd_eq_nil_iff]
    intro c hc
    have hmem := (List.dropWhile_sublist p).subset hc
    simp only [List.append_nil, List.mem_append] at hmem
    exact hmem.elim (hfront c) (hback c)
  | cons d rest =>
    have hd : p d = false := hfirst d rfl
    rw [strip, List.append_assoc, List.dropWhile_append_of_pos hfront, List.cons_append,
      List.dropWhile_cons_of_neg (by simp [hd]), ← List.cons_append, dropEnd_append_of_all hback,
      dropEnd_eq_self hlast]

end Stencil.Text
