/-
Two runs of the same lines.

Lines that differ in the blanks at their ends do the same, but for what they show: under any two
terminators of blanks the runs of the same lines stay alike, that is, differ in their outputs alone
(`Alike.run`). The output of a run is the lines that it shows, each with the terminator as it is, as
long as no token reaches into the terminator (`output_run`).
-/
import Stencil.Proofs.Template.SourceLine
import Stencil.Proofs.Template.Step
import Stencil.Proofs.Template.Substitution

namespace Stencil.Template

open Text

/-- A line feed by itself is a terminator of blanks. -/
theorem isBlank_of_mem_feed : ∀ c ∈ ['\n'], isBlank c = true :=
  List.forall_mem_singleton.2 (by decide)

/-! ## Two runs -/

namespace Progress

/-- Whether two progresses differ in their outputs and events at most. -/
structure Alike (p q : Progress) : Prop where
  vars : p.vars = q.vars
  blocks : p.blocks = q.blocks
  count : p.count = q.count
  calls : p.calls = q.calls

variable {e : Engine} {p q : Progress}

theorem Alike.refl (p : Progress) : p.Alike p := ⟨rfl, rfl, rfl, rfl⟩

theorem alike_record (p : Progress) (event : Event) : (p.record event).Alike p :=
  ⟨rfl, rfl, rfl, rfl⟩

/-- Lines that look the same without the blanks at their ends do the same, but for what they
show. -/
theorem Alike.step {line other : List Char} (h : p.Alike q)
    (hcode : dropEnd isBlank line = dropEnd isBlank other) :
    (p.step e line).1.Alike (q.step e other).1 ∧ (p.step e line).2 = (q.step e other).2 := by
  have hstep := stepsTo_step e p line
  generalize p.step e line = r at hstep ⊢
  obtain ⟨hvars, hblocks, hcount, hcalls⟩ := h
  cases hstep with
  | shown hd =>
    obtain ⟨_, hs⟩ := step_shown (e := e) (p := q) (hcode ▸ hd)
    rw [hs]
    exact ⟨⟨hvars, hblocks, congrArg (· + 1) hcount, hcalls⟩, rfl⟩
  | set hd ha =>
    obtain ⟨_, hs⟩ := step_set (e := e) (p := q) (hcode ▸ hd) ha
    rw [hs, ← hvars]
    exact ⟨⟨rfl, hblocks, congrArg (· + 1) hcount, hcalls⟩, rfl⟩
  | malformed hd ha =>
    obtain ⟨_, hs⟩ := step_malformed (e := e) (p := q) (hcode ▸ hd) ha
    rw [hs, ← hcode, ← hcount]
    exact ⟨⟨hvars, hblocks, rfl, hcalls⟩, rfl⟩
  | go hd hm =>
    obtain ⟨_, hs⟩ := step_go (e := e) (p := q) (hcode ▸ hd) (hblocks ▸ hm)
    rw [hs]
    exact ⟨⟨hvars, rfl, congrArg (· + 1) hcount, hcalls⟩, rfl⟩
  | misplaced hd hm =>
    obtain ⟨_, hs⟩ := step_misplaced (e := e) (p := q) (hcode ▸ hd) (hblocks ▸ hm)
    rw [hs, ← hcode, ← hcount]
    exact ⟨⟨hvars, hblocks, rfl, hcalls⟩, rfl⟩
  | ask hd hm hj =>
    obtain ⟨_, hs⟩ := step_ask (e := e) (p := q) (hcode ▸ hd) (hblocks ▸ hm) (hvars ▸ hj)
    rw [hs, ← hvars, ← hcalls]
    exact ⟨⟨rfl, rfl, congrArg (· + 1) hcount, rfl⟩, rfl⟩
  | undecided hd hm hj =>
    obtain ⟨_, hs⟩ := step_undecided (e := e) (p := q) (hcode ▸ hd) (hblocks ▸ hm) (hvars ▸ hj)
    rw [hs, ← hvars, ← hcalls, ← hcode, ← hcount]
    exact ⟨⟨rfl, hblocks, rfl, rfl⟩, rfl⟩

/-- Names come and never go. -/
theorem keys_step (e : Engine) (p : Progress) (line : List Char) :
    p.vars.keys ⊆ (p.step e line).1.vars.keys := by
  have hstep := stepsTo_step e p line
  generalize p.step e line = r at hstep ⊢
  cases hstep with
  | set hd ha =>
    intro name hname
    rw [Variables.keys_insert]
    split
    · exact hname
    · exact List.mem_append_left _ hname
  | _ => exact List.Subset.refl _

theorem keys_run (e : Engine) (p : Progress) (lines : List (List Char)) :
    p.vars.keys ⊆ (p.run e lines).1.vars.keys := by
  induction lines generalizing p with
  | nil => exact List.Subset.refl _
  | cons line rest ih =>
    have hline := keys_step e p line
    rw [run]
    split
    · rename_i next hstep
      rw [hstep] at hline
      exact List.Subset.trans hline (ih next)
    · rename_i next error hstep
      rw [hstep] at hline
      exact hline

/-- What a line adds to the output. -/
theorem output_step {line : List Char} (h : p.step e line = (q, none)) :
    q.output = p.output ++
      if (Directive.ofCode (dropEnd isBlank line)).isShown then p.shown e line else "" := by
  have hstep := stepsTo_step e p line
  rw [h] at hstep
  cases hstep with
  | shown hd => rw [if_pos hd]
  | set hd ha => simp [hd, Directive.isShown]
  | go hd hm => simp [hd, Directive.isShown]
  | ask hd hm hj => simp [hd, Directive.isShown]

section

variable {a b : List Char} (ha : ∀ c ∈ a, isBlank c = true) (hb : ∀ c ∈ b, isBlank c = true)
include ha hb

/-- Under two terminators of blanks the same lines do the same, but for what they show. -/
theorem Alike.run (h : p.Alike q) (lines : List SourceLine) :
    (p.run e (lines.map (·.withTerminator a))).1.Alike
        (q.run e (lines.map (·.withTerminator b))).1 ∧
      (p.run e (lines.map (·.withTerminator a))).2 =
        (q.run e (lines.map (·.withTerminator b))).2 := by
  induction lines generalizing p q with
  | nil => exact ⟨h, rfl⟩
  | cons l rest ih =>
    have hcode := (l.code_withTerminator ha).trans (l.code_withTerminator hb).symm
    obtain ⟨halike, herror⟩ := h.step (e := e) hcode
    rw [List.map_cons, List.map_cons, Progress.run, Progress.run]
    rcases hp : p.step e (l.withTerminator a) with ⟨p', error?⟩
    rcases hq : q.step e (l.withTerminator b) with ⟨q', error'?⟩
    rw [hp, hq] at halike herror
    obtain rfl : error? = error'? := herror
    cases error? with
    | none => exact ih halike
    | some error => exact ⟨halike, rfl⟩

end

/-! ## The output -/

/-- A line as it is shown, its variables put in and its terminator left out, if it is shown. -/
def shownLine (e : Engine) (p : Progress) (l : SourceLine) : List SourceLine :=
  if l.directive.isShown && isLive p.blocks then
    [{ l with text := substitute e.dialect.sigil p.vars l.visible }]
  else []

/-- The lines that a run shows, line feeds being the terminators. -/
def shownLines (e : Engine) (p : Progress) : List SourceLine → List SourceLine
  | [] => []
  | l :: rest =>
    p.shownLine e l ++
      match p.step e (l.withTerminator ['\n']) with
      | (q, none) => q.shownLines e rest
      | (_, some _) => []

variable {terminator : List Char}

theorem shown_withTerminator (h : p.Alike q)
    (hclear : ∀ name ∈ p.vars.keys, ¬Reaches e.dialect.sigil name.toList terminator)
    (hblank : ∀ c ∈ terminator, isBlank c = true) (l : SourceLine) :
    (if l.directive.isShown then p.shown e (l.withTerminator terminator) else "") =
      String.ofList ((q.shownLine e l).flatMap (·.endedBy terminator)) := by
  have hsub (text : List Char) : substitute e.dialect.sigil p.vars (text ++ terminator) =
      substitute e.dialect.sigil p.vars text ++ terminator :=
    substitute_append hclear (fun name _ => not_reaches_braced hblank) text
  rw [shownLine, shown, ← h.blocks, ← h.vars, SourceLine.withTerminator]
  cases l.directive.isShown with
  | false => rfl
  | true =>
    cases isLive p.blocks with
    | false => rfl
    | true =>
      cases hend : l.isTerminated with
      | false => simp [SourceLine.endedBy]
      | true => simp [SourceLine.endedBy, hsub]

/-- The output of a run is the lines that it shows, each with the terminator as it is, where no
token of a variable reaches into the terminator. -/
theorem output_run (hblank : ∀ c ∈ terminator, isBlank c = true) {lines : List SourceLine}
    {last : Progress} (h : p.Alike q)
    (hrun : p.run e (lines.map (·.withTerminator terminator)) = (last, none))
    (hclear : ∀ name ∈ last.vars.keys, ¬Reaches e.dialect.sigil name.toList terminator) :
    last.output =
      p.output ++ String.ofList ((q.shownLines e lines).flatMap (·.endedBy terminator)) := by
  induction lines generalizing p q with
  | nil =>
    cases hrun
    simp [shownLines]
  | cons l rest ih =>
    have hcode := l.code_withTerminator hblank
    have hsame := hcode.trans (l.code_withTerminator isBlank_of_mem_feed).symm
    obtain ⟨halike, herror⟩ := h.step (e := e) hsame
    rw [List.map_cons, Progress.run] at hrun
    rcases hp : p.step e (l.withTerminator terminator) with ⟨p', _ | error⟩
    · rcases hq : q.step e (l.withTerminator ['\n']) with ⟨q', error?⟩
      rw [hp, hq] at halike herror
      obtain rfl : none = error? := herror
      simp only [hp] at hrun
      have hkeys : p.vars.keys ⊆ last.vars.keys := by
        have hline := keys_step e p (l.withTerminator terminator)
        have hrest := keys_run e p' (rest.map (·.withTerminator terminator))
        rw [hp] at hline
        rw [hrun] at hrest
        exact List.Subset.trans hline hrest
      have hline := output_step hp
      rw [hcode] at hline
      have hshown := shown_withTerminator h (fun name hname => hclear name (hkeys hname)) hblank l
      rw [shownLines, hq, List.flatMap_append, String.ofList_append, ← String.append_assoc,
        ← hshown, ih halike hrun, hline]
      rfl
    · rw [hp] at hrun
      cases hrun

end Progress

end Stencil.Template
