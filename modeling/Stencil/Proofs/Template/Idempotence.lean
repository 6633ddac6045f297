/-
Normalizing the lines of a source once more.

The lines, joined, are the source with a terminator for each line feed. A second pass meets these
terminators again, so it changes nothing just if it leaves the terminator itself as it is
(`normalize_normalize_iff`). How long a normal form is says which terminators these are: one with two
line feeds grows, and so does one with a line feed and something that is kept beside it.

Where the terminator is read off the source, the second pass may read another one: the first has
dropped all carriage returns if there was no line feed. But then there is nothing left to replace.
-/
import Stencil.Template.Line

namespace Stencil.Template

/-- The lines of a source, joined. -/
def joined (override? : Option (List Char)) (source : List Char) : List Char :=
  (lines override? source).flatten

theorem joined_eq_normalize (override? : Option (List Char)) (source : List Char) :
    joined override? source = normalize (terminator override? source) source :=
  flatten_lines override? source

/-! ## Normal forms -/

variable {newline source : List Char}

theorem normalize_cons (newline : List Char) (c : Char) (rest : List Char) :
    normalize newline (c :: rest) =
      (if c = '\n' then newline else if c = '\r' then [] else [c]) ++ normalize newline rest := rfl

theorem normalize_append (newline first rest : List Char) :
    normalize newline (first ++ rest) = normalize newline first ++ normalize newline rest := by
  simp [normalize]

/-- What has neither a carriage return nor a line feed is normal. -/
theorem normalize_of_not_mem (hreturn : '\r' ∉ source) (hfeed : '\n' ∉ source) :
    normalize newline source = source := by
  induction source with
  | nil => rfl
  | cons c rest ih =>
    simp only [List.mem_cons, not_or] at hreturn hfeed
    rw [normalize_cons, if_neg (Ne.symm hfeed.1), if_neg (Ne.symm hreturn.1),
      ih hreturn.2 hfeed.2, List.singleton_append]

/-- Carriage returns are dropped. -/
theorem normalize_replicate (newline : List Char) (n : Nat) :
    normalize newline (List.replicate n '\r') = [] := by
  induction n with
  | zero => rfl
  | succ n ih => rw [List.replicate_succ, normalize_cons, ih]; simp

/-- A carriage return or a line feed in a normal form comes from the terminator. -/
theorem mem_of_mem_normalize {c : Char} (hc : c = '\r' ∨ c = '\n')
    (h : c ∈ normalize newline source) : c ∈ newline ∧ '\n' ∈ source := by
  simp only [normalize, List.mem_flatMap] at h
  obtain ⟨d, hd, hin⟩ := h
  by_cases hfeed : d = '\n'
  · subst hfeed
    exact ⟨by simpa using hin, hd⟩
  · by_cases hreturn : d = '\r'
    · simp [hreturn] at hin
    · simp only [if_neg hfeed, if_neg hreturn, List.mem_singleton] at hin
      subst hin
      exact absurd hc (by simp [hfeed, hreturn])

/-- **A second pass changes nothing just if it leaves the terminator as it is.** -/
theorem normalize_normalize_iff (newline : List Char) :
    (∀ source, normalize newline (normalize newline source) = normalize newline source) ↔
      normalize newline newline = newline := by
  constructor
  · intro h
    have hfeed := h ['\n']
    simpa [normalize_cons, normalize] using hfeed
  · intro h source
    induction source with
    | nil => rfl
    | cons c rest ih =>
      rw [normalize_cons, normalize_append, ih]
      congr 1
      by_cases hfeed : c = '\n'
      · simp only [if_pos hfeed, h]
      · by_cases hreturn : c = '\r'
        · simp [hreturn, normalize]
        · simp [hfeed, hreturn, normalize]

/-! ## Terminators that stay as they are -/

/-- Every line feed gives way to a terminator, every carriage return to nothing. -/
theorem length_normalize (newline source : List Char) :
    (normalize newline source).length + source.count '\n' + source.count '\r' =
      source.length + source.count '\n' * newline.length := by
  induction source with
  | nil => simp [normalize]
  | cons c rest ih =>
    rw [normalize_cons, List.length_append]
    by_cases hfeed : c = '\n'
    · subst hfeed
      simp only [if_true, List.count_cons_self, List.count_cons_of_ne (show '\n' ≠ '\r' by decide),
        List.length_cons, Nat.succ_mul]
      omega
    · by_cases hreturn : c = '\r'
      · subst hreturn
        simp only [if_neg hfeed, if_true, List.count_cons_self, List.count_cons_of_ne hfeed,
          List.length_cons, List.length_nil]
        omega
      · simp only [if_neg hfeed, if_neg hreturn, List.count_cons_of_ne hfeed,
          List.count_cons_of_ne hreturn, List.length_cons, List.length_nil]
        omega

/-- As many line feeds and carriage returns as characters leave no room for others. -/
theorem eq_replicate_of_count {text : List Char} (h : text.length ≤ text.count '\r') :
    text = List.replicate text.length '\r' := by
  have hcount : text.count '\r' = text.length := Nat.le_antisymm List.count_le_length h
  exact List.eq_replicate_iff.2 ⟨rfl, fun c hc => (List.count_eq_length.1 hcount c hc).symm⟩

theorem normalize_self_iff (newline : List Char) :
    normalize newline newline = newline ↔
      ('\r' ∉ newline ∧ '\n' ∉ newline) ∨
      ∃ before after, newline = List.replicate before '\r' ++ '\n' :: List.replicate after '\r' := by
  constructor
  · intro h
    have hlength := length_normalize newline newline
    rw [h] at hlength
    by_cases hfeed : '\n' ∈ newline
    · refine .inr ?_
      -- With the first line feed taken out, the length leaves room for carriage returns only.
      obtain ⟨before, after, rfl⟩ := List.append_of_mem hfeed
      have hbefore := List.count_le_length (a := '\r') (l := before)
      have hafter := List.count_le_length (a := '\r') (l := after)
      simp only [List.count_append, List.count_cons_self, List.length_append, List.length_cons,
        List.count_cons_of_ne (show '\n' ≠ '\r' by decide)] at hlength
      have hfeeds := Nat.mul_le_mul_right (before.length + after.length)
        (show 1 ≤ before.count '\n' + (after.count '\n' + 1) by omega)
      rw [← Nat.add_assoc before.length, Nat.mul_succ] at hlength
      have hfront : before = List.replicate before.length '\r' := eq_replicate_of_count (by omega)
      have hback : after = List.replicate after.length '\r' := eq_replicate_of_count (by omega)
      exact ⟨before.length, after.length, by rw [← hfront, ← hback]⟩
    · refine .inl ⟨?_, hfeed⟩
      rw [List.count_eq_zero.2 hfeed] at hlength
      exact List.count_eq_zero.1 (by omega)
  · rintro (⟨hreturn, hfeed⟩ | ⟨before, after, rfl⟩)
    · exact normalize_of_not_mem hreturn hfeed
    · rw [normalize_append, normalize_cons, normalize_replicate, normalize_replicate]
      simp

/-! ## Sources -/

/-- Where the source decides, the second pass leaves what the first has made. -/
theorem joined_none_joined (source : List Char) :
    joined none (joined none source) = joined none source := by
  simp only [joined_eq_normalize, terminator, Option.getD_none]
  by_cases hreturn : '\r' ∈ source
  · simp only [if_pos hreturn]
    by_cases hagain : '\r' ∈ normalize ['\r', '\n'] source
    · rw [if_pos hagain]
      exact (normalize_normalize_iff _).2 rfl source
    · -- Without a carriage return there is no terminator, so there was no line feed.
      refine normalize_of_not_mem hagain fun hfeed => hagain ?_
      have hsource := (mem_of_mem_normalize (.inr rfl) hfeed).2
      exact List.mem_flatMap.2 ⟨'\n', hsource, by simp⟩
  · have hagain : '\r' ∉ normalize ['\n'] source := by
      intro h
      simpa using (mem_of_mem_normalize (.inl rfl) h).1
    simp only [if_neg hreturn, if_neg hagain]
    exact (normalize_normalize_iff _).2 rfl source

/-- **When normalizing is idempotent.** It is where the terminator is not asked for. With one that is
asked for it is, for all sources, just if this has neither a carriage return nor a line feed, or has
exactly one line feed and nothing but carriage returns around it. -/
theorem normalization_idempotent_iff :
    (∀ source, joined none (joined none source) = joined none source) ∧
    ∀ newline,
      (∀ source, joined (some newline) (joined (some newline) source) =
        joined (some newline) source) ↔
      ('\r' ∉ newline ∧ '\n' ∉ newline) ∨
      ∃ before after, newline = List.replicate before '\r' ++ '\n' :: List.replicate after '\r' := by
  refine ⟨joined_none_joined, fun newline => ?_⟩
  rw [← normalize_self_iff, ← normalize_normalize_iff]
  simp only [joined_eq_normalize]
  exact Iff.rfl

/-- A terminator that keeps something beside its line feed grows. -/
example :
    let newline := "<br>\n".toList
    joined (some newline) (joined (some newline) "a\n".toList) = "a<br><br>\n".toList := by decide

end Stencil.Template
