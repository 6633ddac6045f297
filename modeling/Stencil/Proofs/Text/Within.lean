/-
Spans within a text.

A span is within a text if it covers a part of it. Then its ends are in order, neither is behind the
end of the text, and each is between two characters (`within_iff`), which is all that a cut asks
for. The smallest span around two that are within a text is so too (`Within.join`), and so is, in
what is left of a text that is cut off at its end, what is left of a span (`Within.clip`).
-/
import Stencil.Proofs.Checked.Hazard

namespace Stencil

open Text Checked

namespace Text

theorem eq_nil_of_byteSize {text : List Char} (h : byteSize text = 0) : text = [] := by
  cases text with
  | nil => rfl
  | cons c rest =>
    have hpos := c.utf8Size_pos
    rw [byteSize_cons] at h
    omega

/-- Of two texts that a text starts with, the one with no more bytes starts the other. -/
theorem prefix_of_byteSize_le {a b text : List Char} (ha : a <+: text) (hb : b <+: text)
    (hle : byteSize a ≤ byteSize b) : a <+: b := by
  rcases List.prefix_or_prefix_of_prefix ha hb with hab | ⟨part, rfl⟩
  · exact hab
  · rw [byteSize_append] at hle
    have hpart : part = [] := eq_nil_of_byteSize (by omega)
    simp [hpart]

/-- What ends between two characters ends so in the front of the text, or behind it. -/
theorem isBoundary_min {n : Nat} {front back : List Char} (h : isBoundary n (front ++ back) = true) :
    isBoundary (min n (byteSize front)) front = true := by
  obtain ⟨before, after, htext, hbefore⟩ := isBoundary_iff.1 h
  rw [isBoundary_iff]
  rcases Nat.le_total n (byteSize front) with hle | hle
  · obtain ⟨rest, hrest⟩ := prefix_of_byteSize_le ⟨after, htext.symm⟩ (List.prefix_append front back)
      (hbefore.symm ▸ hle)
    exact ⟨before, rest, hrest.symm, by rw [Nat.min_eq_left hle, hbefore]⟩
  · exact ⟨front, [], (List.append_nil _).symm, (Nat.min_eq_right hle).symm⟩

end Text

namespace Span

/-- Whether a span covers a part of a text. -/
def Within (span : Span) (text : List Char) : Prop :=
  ∃ before part after, text = before ++ part ++ after ∧ span = .after before part

variable {span other : Span} {text front back : List Char}

/-- The ends are in order, and the byte positions of places between characters. -/
theorem within_iff :
    span.Within text ↔ span.start ≤ span.stop ∧ isBoundary span.start text = true ∧
      isBoundary span.stop text = true := by
  constructor
  · rintro ⟨before, part, after, rfl, rfl⟩
    refine ⟨Nat.le_add_right _ _, isBoundary_iff.2 ⟨before, part ++ after, ?_, rfl⟩,
      isBoundary_iff.2 ⟨before ++ part, after, rfl, byteSize_append ..⟩⟩
    exact List.append_assoc ..
  · rintro ⟨hle, hstart, hstop⟩
    obtain ⟨before, rest, htext, hbefore⟩ := isBoundary_iff.1 hstart
    obtain ⟨upto, after, rfl, hupto⟩ := isBoundary_iff.1 hstop
    obtain ⟨part, rfl⟩ := prefix_of_byteSize_le ⟨rest, htext.symm⟩ (List.prefix_append upto after)
      (by omega)
    rw [byteSize_append] at hupto
    exact ⟨before, part, after, rfl, by rw [Span.after, hupto, hbefore]⟩

namespace Within

theorem start_le_stop (h : span.Within text) : span.start ≤ span.stop := (within_iff.1 h).1

theorem stop_le (h : span.Within text) : span.stop ≤ byteSize text := by
  obtain ⟨before, part, after, rfl, rfl⟩ := h
  simp only [Span.after, byteSize_append]
  omega

theorem join (h : span.Within text) (h' : other.Within text) : (span.join other).Within text := by
  obtain ⟨hle, hstart, hstop⟩ := within_iff.1 h
  obtain ⟨-, hstart', hstop'⟩ := within_iff.1 h'
  refine within_iff.2 ⟨?_, ?_, ?_⟩
  · exact Nat.le_trans (Nat.min_le_left _ _) (Nat.le_trans hle (Nat.le_max_left _ _))
  · rw [Span.join, Nat.min_def]
    split <;> assumption
  · rw [Span.join, Nat.max_def]
    split <;> assumption

/-- What is left of a span is within what is left of the text. -/
theorem clip (h : span.Within (front ++ back)) :
    (⟨min span.start (byteSize front), min span.stop (byteSize front)⟩ : Span).Within front := by
  obtain ⟨hle, hstart, hstop⟩ := within_iff.1 h
  refine within_iff.2 ⟨?_, isBoundary_min hstart, isBoundary_min hstop⟩
  simp only
  omega

end Within

/-- A part of a text that stands behind a byte position is within the text. -/
theorem within_of_leaves {start : Nat} {part rest : List Char}
    (h : Leaves text start (part ++ rest)) : (⟨start, start + byteSize part⟩ : Span).Within text := by
  obtain ⟨before, rfl, rfl⟩ := h
  exact ⟨before, part, rest, (List.append_assoc ..).symm, rfl⟩

end Span

end Stencil
