/-
The lines of a source, told in two steps and asked for one by one.

In two steps, the carriage returns are dropped and what is left is split at the line feeds
(`pieces_eq_splitOn`). One by one, each request looks for the line at a cursor. It may cut the line
out of the source as it stands there where nothing in it would change, which comes to the same as
building it anew wherever the cursor is (`nextLine_eq_rewrittenLine`); and every request is answered
by the line of its number, if there is one (`requests_eq`).
-/
import Stencil.Proofs.Checked.Line

namespace Stencil

open Text

namespace Template

/-! ## Two steps -/

/-- The pieces of a text, each but the last with the terminator behind it. -/
def ended (newline : List Char) (pieces : List (List Char)) : List (List Char) :=
  pieces.dropLast.map (· ++ newline) ++ pieces.getLast?.toList

variable {newline piece : List Char} {parts : List (List Char)}

theorem ended_cons (h : parts ≠ []) :
    ended newline (piece :: parts) = (piece ++ newline) :: ended newline parts := by
  obtain ⟨next, others, rfl⟩ := List.exists_cons_of_ne_nil h
  simp [ended]

/-- A character in front of all pieces is in front of the first line. -/
theorem ended_modifyHead (c : Char) (h : parts ≠ []) :
    ended newline (parts.modifyHead (c :: ·)) = (ended newline parts).modifyHead (c :: ·) := by
  obtain ⟨first, others, rfl⟩ := List.exists_cons_of_ne_nil h
  cases others with
  | nil => rfl
  | cons next others =>
    have hne : next :: others ≠ [] := List.cons_ne_nil _ _
    rw [List.modifyHead_cons, ended_cons hne, ended_cons hne, List.modifyHead_cons,
      List.cons_append]

theorem pieces_eq_splitOn (newline source : List Char) :
    pieces newline source = ended newline ((source.filter (· != '\r')).splitOn '\n') := by
  induction source with
  | nil => rfl
  | cons c rest ih =>
    have hne : (rest.filter (· != '\r')).splitOn '\n' ≠ [] := List.splitOn_ne_nil _ _
    rw [pieces, ih]
    by_cases hfeed : c = '\n'
    · rw [if_pos hfeed, hfeed, List.filter_cons_of_pos (by decide),
        List.splitOn_cons_eq_if_modifyHead, if_pos (by decide), ended_cons hne, List.nil_append]
    · rw [if_neg hfeed]
      by_cases hreturn : c = '\r'
      · rw [if_pos hreturn, List.filter_cons_of_neg (by simp [hreturn])]
      · rw [if_neg hreturn, List.filter_cons_of_pos (by simp [hreturn]),
          List.splitOn_cons_eq_if_modifyHead, if_neg (by simp [hfeed]), ended_modifyHead c hne]
        cases h : ended newline ((rest.filter (· != '\r')).splitOn '\n') with
        | nil => exact absurd (ih.trans h) (pieces_ne_nil newline rest)
        | cons first others => rfl

theorem length_pieces (newline source : List Char) :
    (pieces newline source).length = source.count '\n' + 1 := by
  fun_induction pieces newline source <;> simp_all

theorem normalize_eq_flatMap (newline source : List Char) :
    normalize newline source =
      (source.filter (· != '\r')).flatMap fun c => if c = '\n' then newline else [c] := by
  induction source with
  | nil => rfl
  | cons c rest ih =>
    rw [normalize] at ih ⊢
    rw [List.flatMap_cons, ih]
    by_cases hreturn : c = '\r'
    · simp [hreturn]
    · simp [hreturn]

end Template

namespace Checked

open Template

/-! ## One by one -/

/-- The line at a cursor, always built anew, and the cursor for the next one. -/
def rewrittenLine (source newline : List Char) (cursor : Option Nat) :
    Checked (Option (List Char × Option Nat)) := do
  match cursor with
  | none => return none
  | some start =>
    let rest ← cutFrom source start
    if '\n' ∈ rest then
      let stop := start + byteSize (rest.takeWhile (· != '\n'))
      let raw ← cut source start stop
      return some (raw.filter (· != '\r') ++ newline, some (stop + 1))
    else
      let raw ← cutFrom source start
      return some (raw.filter (· != '\r'), none)

/-- The cursor in front of the first line. -/
def lineStart (source : List Char) : Option Nat := if source = [] then none else some 0

/-- The answers to so many requests for a line, the first one at a cursor. -/
def requests (source newline : List Char) :
    Nat → Option Nat → Checked (List (Option (List Char)))
  | 0, _ => return []
  | n + 1, cursor => do
    match ← nextLine source newline cursor with
    | none => return none :: (← requests source newline n cursor)
    | some (text, next) => return some text :: (← requests source newline n next)

variable {source newline : List Char} {cursor : Option Nat} {left : List (List Char)}

/-- What can be cut off at a position is what the position leaves. -/
theorem leaves_of_cutFrom {start : Nat} {rest : List Char} (h : cutFrom source start = pure rest) :
    Leaves source start rest := by
  rw [cutFrom, cut] at h
  split at h
  · rename_i hcut
    obtain ⟨before, after, rfl, rfl⟩ := isBoundary_iff.1 hcut.2.1
    have hleaves : Leaves (before ++ after) (byteSize before) after := ⟨before, rfl, rfl⟩
    have hafter := hleaves.cutFrom_eq
    rw [cutFrom, cut, if_pos hcut, pure_inj] at hafter
    rw [pure_inj, hafter] at h
    exact h ▸ hleaves
  · cases h

/-- Cutting a line out as it stands gives what building it anew gives, at any cursor. -/
theorem nextLine_eq_rewrittenLine (source newline : List Char) (cursor : Option Nat) :
    nextLine source newline cursor = rewrittenLine source newline cursor := by
  cases cursor with
  | none => rfl
  | some start =>
    cases h : cutFrom source start with
    | error hazard => rw [nextLine, rewrittenLine, h]; rfl
    | ok rest =>
      have hrest := leaves_of_cutFrom h
      by_cases hfeed : '\n' ∈ rest
      · obtain ⟨raw, tail, rfl, hraw⟩ := List.eq_append_cons_of_mem hfeed
        have htake : (raw ++ '\n' :: tail).takeWhile (· != '\n') = raw := by
          rw [List.takeWhile_append_of_pos (by simpa using fun c hc => ne_of_mem_of_not_mem hc hraw),
            List.takeWhile_cons_of_neg (by simp), List.append_nil]
        rw [nextLine_of_feed hrest hraw]
        simp only [rewrittenLine, hrest.cutFrom_eq, pure_bind, if_pos hfeed, htake,
          hrest.cut_eq rfl]
      · rw [nextLine_of_last hrest hfeed]
        simp only [rewrittenLine, hrest.cutFrom_eq, pure_bind, if_neg hfeed]

/-- Each request is answered by the line of its number among those that are left. -/
theorem requests_eq (h : Stands source newline cursor left) (n : Nat) :
    requests source newline n cursor = pure ((List.range n).map (left[·]?)) := by
  induction n generalizing cursor left with
  | zero => rfl
  | succ n ih =>
    rw [requests, List.range_succ_eq_map, List.map_cons, List.map_map]
    cases left with
    | nil =>
      rw [nextLine_nil h, pure_bind, ih h]
      rfl
    | cons text left =>
      obtain ⟨next, hnext, hstands, -⟩ := nextLine_cons h
      rw [hnext, pure_bind]
      simp only [ih hstands, pure_bind]
      rfl

end Checked

namespace Template

/-- **Nothing of a source is lost in its lines, and nothing comes in.** It is of no account where a
line is cut out of the source as it stands there. The lines are the source without its carriage
returns, split at the line feeds, each but the last with the terminator that is asked for or that the
source shows; an empty source has none. So there is one more than line feeds, and joined they are the
source without carriage returns and with the terminator for every line feed. Asked for one by one
these lines come and then no more. -/
theorem lines_of_source (override? : Option (List Char)) (source : List Char) :
    (∀ newline cursor, Checked.nextLine source newline cursor =
      Checked.rewrittenLine source newline cursor) ∧
    let newline := override?.getD (if '\r' ∈ source then ['\r', '\n'] else ['\n'])
    let kept := source.filter (· != '\r')
    let lines := lines override? source
    lines = (if source = [] then [] else ended newline (kept.splitOn '\n')) ∧
    lines.length = (if source = [] then 0 else source.count '\n' + 1) ∧
    lines.flatten = kept.flatMap (fun c => if c = '\n' then newline else [c]) ∧
    ∀ n, Checked.requests source newline n (Checked.lineStart source) =
      pure ((List.range n).map (lines[·]?)) := by
  refine ⟨Checked.nextLine_eq_rewrittenLine source, ?_⟩
  intro newline kept lines
  refine ⟨?_, ?_, ?_, fun n => ?_⟩
  · simp only [lines, Template.lines, pieces_eq_splitOn]
    rfl
  · simp only [lines, Template.lines]
    split
    · rfl
    · exact length_pieces _ source
  · rw [← normalize_eq_flatMap]
    exact flatten_lines override? source
  · exact Checked.requests_eq (Checked.stands_start source newline override? rfl) n

/-- A carriage return anywhere is left out, and makes all terminators pairs. -/
example : lines none "lo\rrem\n\nipsum\r".toList =
    ["lorem\r\n".toList, "\r\n".toList, "ipsum".toList] := by decide

end Template

end Stencil
