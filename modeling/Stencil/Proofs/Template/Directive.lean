/-
What decides what a line asks for: its front and its last character, and for an assignment the
number of equals signs. What a line assigns is part of it (`Directive.subset_of_ofCode_set`,
`Assignment.subset_of_ofArgument?`).
-/
import Mathlib.Data.List.TakeDrop
import Mathlib.Data.List.TakeWhile
import Stencil.Template.Directive

namespace Stencil.Template

/-- A line that starts as an if-marker is one if it ends as one. -/
theorem Directive.ofCode_ifOpening (rest : List Char) :
    Directive.ofCode (ifOpening.toList ++ rest) =
      if rest.getLast? = some ')' then .marker (.ifHolds rest.dropLast) else .content := by
  have hset : argument? setOpening (ifOpening.toList ++ rest) = none := rfl
  have helseIf : argument? elseIfOpening (ifOpening.toList ++ rest) = none := rfl
  have hotherwise : startsWith Marker.otherwise.keyword (ifOpening.toList ++ rest) = false := rfl
  have hclose : startsWith Marker.close.keyword (ifOpening.toList ++ rest) = false := rfl
  have hnames : unsupportedNames.find? (startsWith · (ifOpening.toList ++ rest)) = none := rfl
  have hlast : (ifOpening.toList ++ rest).getLast? = some ')' ↔ rest.getLast? = some ')' := by
    cases h : rest.getLast? with
    | none => rw [List.getLast?_eq_none_iff.1 h]; decide +kernel
    | some c => rw [List.getLast?_append, h, Option.some_or]
  have hif : argument? ifOpening (ifOpening.toList ++ rest) =
      if rest.getLast? = some ')' then some rest.dropLast else none := by
    have hopening : startsWith ifOpening (ifOpening.toList ++ rest) = true := rfl
    have hdrop : (ifOpening.toList ++ rest).drop ifOpening.length = rest := rfl
    simp only [argument?, hopening, hdrop, Bool.true_and, beq_iff_eq, hlast]
  rw [ofCode, hset, hif, helseIf, hotherwise, hclose, hnames]
  by_cases h : rest.getLast? = some ')'
  · rw [if_pos h, if_pos h]
  · rw [if_neg h, if_neg h]
    rfl

/-- The argument of an assignment is part of its line. -/
theorem Directive.subset_of_ofCode_set {code argument : List Char}
    (h : Directive.ofCode code = .set argument) : argument ⊆ code := by
  unfold ofCode at h
  split at h
  · rename_i found harg
    cases h
    unfold argument? at harg
    split at harg
    · cases harg
      exact List.Subset.trans (List.dropLast_subset _) (List.drop_subset _ _)
    · cases harg
  · repeat' split at h
    all_goals cases h

theorem dropFront_subset (c : Char) (text : List Char) : dropFront c text ⊆ text := by
  cases text with
  | nil => exact List.Subset.refl _
  | cons d rest =>
    rw [dropFront]
    split
    · exact List.subset_cons_self d rest
    · exact List.Subset.refl _

theorem dropBack_subset (c : Char) (text : List Char) : dropBack c text ⊆ text := by
  rw [dropBack]
  split
  · exact List.dropLast_subset text
  · exact List.Subset.refl _

/-- The name and the text of an assignment are parts of its argument. -/
theorem Assignment.subset_of_ofArgument? {sigil : Char} {argument : List Char} {a : Assignment}
    (h : ofArgument? sigil argument = some a) : a.name ⊆ argument ∧ a.text ⊆ argument := by
  rw [ofArgument?, List.span_eq_takeWhile_dropWhile] at h
  cases htext : argument.dropWhile (· != '=') with
  | nil => simp [htext] at h
  | cons c text =>
    simp only [htext] at h
    split at h
    · cases h
    · cases h
      have hname := (List.takeWhile_sublist (· != '=') (l := argument)).subset
      have hrest : text ⊆ argument := fun d hd =>
        (List.dropWhile_sublist (· != '=')).subset (htext ▸ List.mem_cons_of_mem c hd)
      refine ⟨List.Subset.trans (dropFront_subset _ _) (List.Subset.trans (Text.strip_subset _ _)
        hname), ?_⟩
      exact List.Subset.trans (dropBack_subset _ _) (List.Subset.trans (dropFront_subset _ _)
        (List.Subset.trans (Text.strip_subset _ _) hrest))

/-- What decides whether an argument spells an assignment is the number of its `=` alone. -/
theorem Assignment.isSome_ofArgument?_iff (sigil : Char) (argument : List Char) :
    (ofArgument? sigil argument).isSome = true ↔ argument.count '=' = 1 := by
  have hname : (argument.takeWhile (· != '=')).count '=' = 0 :=
    List.count_eq_zero.2 fun h => by simpa using List.mem_takeWhile_imp h
  have hcount := congrArg (List.count '=')
    (List.takeWhile_append_dropWhile (p := (· != '=')) (l := argument))
  rw [List.count_append, hname, Nat.zero_add] at hcount
  rw [ofArgument?, List.span_eq_takeWhile_dropWhile]
  cases h : argument.dropWhile (· != '=') with
  | nil =>
    rw [h, List.count_nil] at hcount
    simp [← hcount]
  | cons c text =>
    have hc : c = '=' := by
      have hhead := List.head?_dropWhile_not (· != '=') argument
      rw [h] at hhead
      simpa using hhead
    subst hc
    rw [h, List.count_cons_self] at hcount
    rw [← hcount]
    by_cases ht : '=' ∈ text
    · have hpos := List.count_pos_iff.2 ht
      simp only [if_pos ht, Option.isSome_none, Bool.false_eq_true, false_iff]
      omega
    · simp [if_neg ht, List.count_eq_zero.2 ht]

end Stencil.Template
