/-
What a terminator that is asked for changes.

A terminator of blanks is trimmed off before a line is looked at, so all sources do the same under
it as under a line feed. A terminator with another character takes part in what a line asks for, and
some line shows it (`exists_not_agrees_withNewline`). The output is the lines that are shown, each
with the terminator as it is, unless a token reaches into the terminator; and a variable can have
the terminator as its name (`exists_ne_shownWith`).
-/
import Mathlib.Tactic.ByContra
import Stencil.Proofs.Template.Alike
import Stencil.Proofs.Template.Directive

namespace Stencil

open Template Text

/-- Whether two outcomes differ in their outputs and events at most. -/
structure Outcome.Agrees (a b : Outcome String) : Prop where
  failure : a.failure? = b.failure?
  vars : a.vars = b.vars
  calls : a.calls = b.calls

namespace Engine

/-! ## Terminators of blanks -/

/-- The engine with a terminator asked for. -/
def withNewline (e : Engine) (newline : String) : Engine :=
  { e with dialect := { e.dialect with newline? := some newline } }

/-- The lines that a source shows, line feeds being the terminators. -/
def shownLines (e : Engine) (vars : Variables) (source : String) : List SourceLine :=
  ({ vars } : Progress).shownLines e (SourceLine.ofSource source.toList)

/-- The lines that a source shows, each with the terminator as it is. -/
def shownWith (e : Engine) (newline : String) (vars : Variables) (source : String) : String :=
  String.ofList ((e.shownLines vars source).flatMap (·.endedBy newline.toList))

variable {e : Engine} {newline : String} {vars : Variables} {source : String}

theorem run_withNewline (e : Engine) (newline : String) (p : Progress) (lines : List (List Char)) :
    p.run (e.withNewline newline) lines = p.run e lines := by
  induction lines generalizing p with
  | nil => rfl
  | cons line rest ih =>
    have hstep : p.step (e.withNewline newline) line = p.step e line := rfl
    rw [Progress.run, Progress.run, hstep]
    split
    · exact ih _
    · rfl

theorem process_withNewline (e : Engine) (newline : String) (vars : Variables) (source : String) :
    (e.withNewline newline).process vars source =
      (({ vars } : Progress).record (.processing source.utf8ByteSize vars.size)).run e
        ((SourceLine.ofSource source.toList).map (·.withTerminator newline.toList)) := by
  rw [process, run_withNewline, SourceLine.lines_eq_map]
  rfl

theorem agrees_withNewline (hblank : ∀ c ∈ newline.toList, isBlank c = true) (e : Engine)
    (vars : Variables) (source : String) :
    ((e.withNewline newline).render vars source).Agrees
      ((e.withNewline "\n").render vars source) := by
  have hfeed : ∀ c ∈ "\n".toList, isBlank c = true := List.forall_mem_singleton.2 (by decide)
  obtain ⟨halike, herror⟩ := (Progress.Alike.refl
    (({ vars } : Progress).record (.processing source.utf8ByteSize vars.size))).run (e := e)
      hblank hfeed (SourceLine.ofSource source.toList)
  rw [← process_withNewline, ← process_withNewline] at halike herror
  refine ⟨?_, ?_, ?_⟩
  · rw [failure?_render, failure?_render, herror]
  · rw [render_vars, render_vars, halike.vars]
  · rw [render_calls, render_calls, halike.calls]

theorem output_withNewline (hblank : ∀ c ∈ newline.toList, isBlank c = true) {output : String}
    (hok : ((e.withNewline newline).render vars source).result = .ok output)
    (hclear : ∀ name ∈ ((e.withNewline newline).render vars source).vars.keys,
      ¬Reaches e.dialect.sigil name.toList newline.toList) :
    output = e.shownWith newline vars source := by
  rcases hp : (e.withNewline newline).process vars source with ⟨p, _ | error⟩
  · obtain ⟨hresult, hvars, -⟩ := render_of_ok hp
    rw [hresult] at hok
    rw [hvars] at hclear
    rw [process_withNewline] at hp
    have hrun := Progress.output_run hblank (Progress.alike_record _ _) hp hclear
    rw [← Except.ok.inj hok, hrun]
    exact String.empty_append
  · rw [(render_of_fail hp).1] at hok
    cases hok

/-! ## Other terminators -/

/-- The empty line after the last line feed asks for no condition. -/
theorem calls_render_line {l : SourceLine}
    (hlines : SourceLine.ofSource source.toList = [l, ⟨[], false⟩]) :
    ((e.withNewline newline).render vars source).calls =
      ((({ vars } : Progress).record (.processing source.utf8ByteSize vars.size)).step e
        (l.withTerminator newline.toList)).1.calls := by
  rw [render_calls, process_withNewline, hlines, List.map_cons, Progress.run]
  split
  · rename_i p hstep
    have hshown : (Directive.ofCode (dropEnd isBlank [])).isShown = true := by decide
    obtain ⟨events, hempty⟩ := Progress.step_shown (e := e) (p := p) hshown
    rw [hstep]
    exact congrArg (·.1.calls) ((Progress.run_singleton e p []).trans hempty)
  · rename_i hstep
    rw [hstep]

/-- An engine whose conditions all hold. -/
def lenient : Engine := { evaluator := fun _ => .ok (.bool true) }

/-- A line that the terminator completes is an if-marker only with it, a complete one only
without it. -/
theorem exists_not_agrees_withNewline (h : ∃ c ∈ newline.toList, isBlank c = false) :
    ∃ source, ¬((lenient.withNewline newline).render {} source).Agrees
      ((lenient.withNewline "\n").render {} source) := by
  have htail : dropEnd isBlank newline.toList ≠ [] := by
    obtain ⟨c, hc, hblank⟩ := h
    intro hnil
    rw [dropEnd_eq_nil_iff.1 hnil c hc] at hblank
    cases hblank
  have hcode (front : List Char) : Directive.ofCode (dropEnd isBlank
      ((ifOpening.toList ++ front) ++ newline.toList)) =
        if (dropEnd isBlank newline.toList).getLast? = some ')' then
          .marker (.ifHolds (front ++ dropEnd isBlank newline.toList).dropLast)
        else .content := by
    rw [dropEnd_append htail, List.append_assoc, Directive.ofCode_ifOpening,
      List.getLast?_append, List.getLast?_eq_some_getLast htail, Option.some_or]
  by_cases hlast : (dropEnd isBlank newline.toList).getLast? = some ')'
  · refine ⟨"#if (\n", fun hagrees => ?_⟩
    have hcalls := hagrees.calls
    have hfeed : ((lenient.withNewline "\n").render {} "#if (\n").calls = [] := by
      decide +kernel
    have hlines : SourceLine.ofSource "#if (\n".toList =
        [⟨ifOpening.toList, true⟩, ⟨[], false⟩] := by decide +kernel
    have hif := hcode []
    rw [if_pos hlast] at hif
    rw [hfeed, calls_render_line hlines] at hcalls
    obtain ⟨events, hstep⟩ := Progress.step_ask (e := lenient) (b := true)
      (p := ({} : Progress).record (.processing _ _)) hif rfl rfl
    exact List.append_ne_nil_of_right_ne_nil _ (List.cons_ne_nil _ _)
      ((congrArg (·.1.calls) hstep).symm.trans hcalls)
  · refine ⟨"#if ()\n", fun hagrees => ?_⟩
    have hcalls := hagrees.calls
    have hfeed : ((lenient.withNewline "\n").render {} "#if ()\n").calls = [""] := by
      decide +kernel
    have hlines : SourceLine.ofSource "#if ()\n".toList =
        [⟨ifOpening.toList ++ [')'], true⟩, ⟨[], false⟩] := by decide +kernel
    have hcontent := hcode [')']
    rw [if_neg hlast] at hcontent
    have hshown : (Directive.ofCode (dropEnd isBlank
        ((ifOpening.toList ++ [')']) ++ newline.toList))).isShown = true := by
      rw [hcontent]
      rfl
    rw [hfeed, calls_render_line hlines] at hcalls
    obtain ⟨events, hstep⟩ := Progress.step_shown (e := lenient)
      (p := ({} : Progress).record (.processing _ _)) hshown
    exact List.cons_ne_nil _ _ (hcalls.symm.trans (congrArg (·.1.calls) hstep))

/-- A variable with the name of the terminator takes it away where a sigil stands in front. -/
theorem exists_ne_shownWith (hblank : ∀ c ∈ newline.toList, isBlank c = true)
    (hne : newline ≠ "") :
    ∃ vars, ((lenient.withNewline newline).render vars "$\n").result = .ok "" ∧
      lenient.shownWith newline vars "$\n" ≠ "" := by
  let vars : Variables := Variables.ofList [(newline, .string "")]
  have hlines : SourceLine.ofSource "$\n".toList = [⟨['$'], true⟩, ⟨[], false⟩] := by
    decide +kernel
  have hlines_map : (SourceLine.ofSource "$\n".toList).map (·.withTerminator newline.toList) =
      ['$' :: newline.toList, []] := by
    rw [hlines]
    rfl
  have htoken : substitute '$' vars ('$' :: newline.toList) = [] := by
    have hfront : newline.toList.isPrefixOf newline.toList = true :=
      List.isPrefixOf_iff_prefix.2 (List.prefix_refl _)
    have hentries : vars.entries = [(newline, .string "")] := rfl
    rw [substitute_eq_foldl, hentries, List.foldl_cons, List.foldl_nil, replaceVariable_eq,
      replace, if_pos ⟨rfl, hfront⟩, List.drop_length]
    simp [replace, Value.text]
  have hsigil : (Directive.ofCode (dropEnd isBlank ('$' :: newline.toList))).isShown = true := by
    have hcode := SourceLine.code_withTerminator hblank ⟨['$'], true⟩
    change dropEnd isBlank ('$' :: newline.toList) = ['$'] at hcode
    rw [hcode]
    decide +kernel
  have hempty : (Directive.ofCode (dropEnd isBlank [])).isShown = true := by decide
  refine ⟨vars, ?_, fun hnone => hne ?_⟩
  · obtain ⟨events, hfirst⟩ := Progress.step_shown (e := lenient)
      (p := ({ vars } : Progress).record (.processing _ _)) hsigil
    obtain ⟨events', hsecond⟩ := Progress.step_shown (e := lenient) hempty
    have hrun := (Progress.run_cons_of_step hfirst).trans
      ((Progress.run_singleton lenient _ []).trans hsecond)
    rw [← hlines_map, ← process_withNewline] at hrun
    rw [(render_of_ok hrun).1]
    change Except.ok ("" ++ String.ofList (substitute '$' vars ('$' :: newline.toList)) ++
      String.ofList (substitute '$' vars [])) = Except.ok ""
    rw [htoken]
    rfl
  · have hline : (⟨substitute '$' vars ['$'], true⟩ : SourceLine) ∈ lenient.shownLines vars "$\n" := by
      rw [shownLines, hlines]
      exact List.mem_append_left _ (List.mem_singleton.2 rfl)
    have hnil : (lenient.shownLines vars "$\n").flatMap (·.endedBy newline.toList) = [] := by
      simpa [shownWith] using hnone
    have hended := List.flatMap_eq_nil_iff.1 hnil _ hline
    have hnewline := (List.append_eq_nil_iff.1 hended).2
    rw [if_pos rfl] at hnewline
    exact String.toList_eq_nil_iff.1 hnewline

/-- **What a terminator that is asked for changes.** Under it and under a line feed all sources fail
alike, with the same variables and the same conditions asked for, just if it is of blanks. Then the
output is the lines that are shown, each with the terminator as it is, where no token reaches into
it; all outputs are so just if it is empty. -/
theorem newline_changes_terminators_iff (newline : String) :
    ((∀ (e : Engine) (vars : Variables) (source : String),
        ((e.withNewline newline).render vars source).Agrees
          ((e.withNewline "\n").render vars source)) ↔
      ∀ c ∈ newline.toList, isBlank c = true) ∧
    (∀ (e : Engine) (vars : Variables) (source output : String),
      (∀ c ∈ newline.toList, isBlank c = true) →
      ((e.withNewline newline).render vars source).result = .ok output →
      (∀ name ∈ ((e.withNewline newline).render vars source).vars.keys,
        ¬Reaches e.dialect.sigil name.toList newline.toList) →
      output = e.shownWith newline vars source) ∧
    ((∀ (e : Engine) (vars : Variables) (source : String),
        ((e.withNewline newline).render vars source).Agrees
          ((e.withNewline "\n").render vars source) ∧
        ∀ output, ((e.withNewline newline).render vars source).result = .ok output →
          output = e.shownWith newline vars source) ↔
      newline = "") := by
  have hagrees : (∀ (e : Engine) (vars : Variables) (source : String),
      ((e.withNewline newline).render vars source).Agrees
        ((e.withNewline "\n").render vars source)) ↔ ∀ c ∈ newline.toList, isBlank c = true := by
    refine ⟨fun h => ?_, fun hblank e vars source => agrees_withNewline hblank e vars source⟩
    by_contra hblank
    simp only [not_forall, Bool.not_eq_true] at hblank
    obtain ⟨c, hc, hsolid⟩ := hblank
    obtain ⟨source, hsource⟩ := exists_not_agrees_withNewline ⟨c, hc, hsolid⟩
    exact hsource (h lenient {} source)
  refine ⟨hagrees, fun e vars source output hblank hok hclear =>
    output_withNewline hblank hok hclear, fun h => ?_, ?_⟩
  · by_contra hne
    have hblank := hagrees.1 fun e vars source => (h e vars source).1
    obtain ⟨vars, hresult, houtput⟩ := exists_ne_shownWith hblank hne
    exact houtput ((h lenient vars _).2 "" hresult).symm
  · rintro rfl e vars source
    have hblank : ∀ c ∈ "".toList, isBlank c = true := by simp
    refine ⟨agrees_withNewline hblank e vars source, fun output hok => ?_⟩
    exact output_withNewline hblank hok fun name _ => not_reaches_nil

/-- Under blanks, a carriage return and a line feed: neither the sigil nor the name is blank. -/
theorem output_crlf :
    let e : Engine := lenient.withNewline " \r\n"
    let vars : Variables := .ofList [("x", .string "1")]
    let source := "#if ($x)\n$x$y\n#end\nz"
    (e.render vars source).result = .ok "1$y \r\nz" ∧
      "1$y \r\nz" = lenient.shownWith " \r\n" vars source := by
  intro e vars source
  have hoption : (e.render vars source).result.toOption = some "1$y \r\nz" := by decide +kernel
  have hok : (e.render vars source).result = .ok "1$y \r\nz" := by
    cases h : (e.render vars source).result with
    | ok output => rw [h] at hoption; exact congrArg _ (Option.some.inj hoption)
    | error error => rw [h] at hoption; cases hoption
  have hkeys : (e.render vars source).vars.keys = ["x"] := by decide +kernel
  have hblank : " \r\n".toList.all isBlank = true := by decide +kernel
  refine ⟨hok, (newline_changes_terminators_iff " \r\n").2.1 lenient vars source _
    (List.all_eq_true.1 hblank) hok fun name hname => ?_⟩
  rw [show (lenient.withNewline " \r\n").render vars source = e.render vars source from rfl,
    hkeys] at hname
  obtain rfl := List.mem_singleton.1 hname
  exact not_reaches_of_disjoint (by decide +kernel)
    (List.forall_mem_singleton.2 (by decide +kernel))

end Engine

end Stencil
