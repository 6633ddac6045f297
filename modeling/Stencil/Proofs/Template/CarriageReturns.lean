/-
Carriage returns of a source.

They choose the terminator and do nothing else. The lines of a source and of the source without
them are the same but for their terminators, both of blanks, so the two runs stay alike
(`Alike.run`). What they show is the same lines under two terminators, and none of these lines has
a line feed in it if no value that was given has one (`not_mem_shownLines`): so the outputs differ
in the terminators alone (`returns_choose_terminator`).
-/
import Mathlib.Data.List.Basic
import Stencil.Proofs.Template.Alike
import Stencil.Proofs.Template.Assignments

namespace Stencil.Template

open Text

/-! ## Lines -/

theorem pieces_filter (terminator source : List Char) :
    pieces terminator (source.filter (· != '\r')) = pieces terminator source := by
  induction source with
  | nil => rfl
  | cons c rest ih =>
    by_cases hreturn : c = '\r'
    · simp [hreturn, pieces, ih]
    · simp [hreturn, pieces, ih]

namespace SourceLine

variable {source : List Char} {l : SourceLine}

theorem not_mem_visible (h : l ∈ ofSource source) : '\r' ∉ l.visible ∧ '\n' ∉ l.visible := by
  have hfeed := not_mem_of_mem_ofSource h
  exact ⟨by simp [visible], fun hin => hfeed (List.mem_filter.1 hin).1⟩

/-- A source that has lines has the same ones without its carriage returns. -/
theorem lines_filter (h : source.filter (· != '\r') ≠ []) :
    lines none (source.filter (· != '\r')) =
      (ofSource source).map (withTerminator ['\n']) := by
  have hsource : source ≠ [] := by
    rintro rfl
    exact h rfl
  have hterm : terminator none (source.filter (· != '\r')) = ['\n'] := by
    simp [terminator]
  rw [lines, if_neg h, hterm, pieces_filter, pieces_eq_map, ofSource, if_neg hsource]

/-- A source of carriage returns alone has an empty line, or none. -/
theorem map_ofSource_of_filter_eq_nil (h : source.filter (· != '\r') = []) (term : List Char) :
    (ofSource source).map (·.withTerminator term) = [] ∨
      (ofSource source).map (·.withTerminator term) = [[]] := by
  by_cases hsource : source = []
  · left
    rw [hsource]
    rfl
  · right
    rw [ofSource, if_neg hsource, ← pieces_eq_map, ← pieces_filter, h]
    rfl

end SourceLine

/-! ## What is shown -/

/-- The text with a carriage return in front of every line feed. -/
def withReturns (text : List Char) : List Char :=
  text.flatMap fun c => if c = '\n' then ['\r', '\n'] else [c]

theorem withReturns_of_not_mem {text : List Char} (h : '\n' ∉ text) : withReturns text = text := by
  induction text with
  | nil => rfl
  | cons c rest ih =>
    simp only [List.mem_cons, not_or] at h
    have hrest := ih h.2
    rw [withReturns] at hrest ⊢
    rw [List.flatMap_cons, if_neg (Ne.symm h.1), hrest]
    rfl

theorem withReturns_flatMap_endedBy {lines : List SourceLine} (h : ∀ l ∈ lines, '\n' ∉ l.text) :
    withReturns (lines.flatMap (·.endedBy ['\n'])) = lines.flatMap (·.endedBy ['\r', '\n']) := by
  have hline (l : SourceLine) (hl : l ∈ lines) :
      withReturns (l.endedBy ['\n']) = l.endedBy ['\r', '\n'] := by
    have htext := withReturns_of_not_mem (h l hl)
    simp only [withReturns, SourceLine.endedBy, List.flatMap_append] at htext ⊢
    rw [htext]
    cases l.isTerminated <;> rfl
  rw [withReturns, List.flatMap_assoc]
  exact List.flatMap_congr hline

namespace Progress

variable {e : Engine} {p q : Progress} {ls : List SourceLine}

/-- No line that is shown has a line feed in it, if no value has one at the start. -/
theorem not_mem_shownLines (hls : ∀ l ∈ ls, '\n' ∉ l.visible)
    (hvalues : ∀ entry ∈ p.vars.entries, '\n' ∉ entry.2.text.toList) :
    ∀ l ∈ p.shownLines e ls, '\n' ∉ l.text := by
  induction ls generalizing p with
  | nil => simp [shownLines]
  | cons l rest ih =>
    obtain ⟨hl, hrest⟩ := List.forall_mem_cons.1 hls
    intro shown hshown
    rw [shownLines] at hshown
    rcases List.mem_append.1 hshown with hfirst | hothers
    · rw [shownLine] at hfirst
      split at hfirst
      · cases List.mem_singleton.1 hfirst
        intro hin
        rcases mem_of_mem_substitute hin with htext | ⟨entry, hentry, htext⟩
        · exact hl htext
        · exact hvalues entry hentry htext
      · cases hfirst
    · split at hothers
      · rename_i next hs
        refine ih hrest (fun entry hentry => ?_) shown hothers
        rw [(vars_of_step hs).1] at hentry
        rcases Variables.mem_of_mem_extend hentry with hold | hnew
        · exact hvalues entry hold
        · have hassigned := subset_of_assigned? (Option.mem_toList.1 hnew)
          rw [l.code_withTerminator isBlank_of_mem_feed] at hassigned
          exact fun hin => hl (dropEnd_subset _ _ (hassigned.2 hin))
      · cases hothers

/-- A name of a run is one that was given, or has the characters of a line only. -/
theorem keys_of_run {terminator : List Char} (hblank : ∀ c ∈ terminator, isBlank c = true)
    (h : p.run e (ls.map (·.withTerminator terminator)) = (q, none)) :
    ∀ name ∈ q.vars.keys, name ∈ p.vars.keys ∨ ∃ l ∈ ls, name.toList ⊆ l.visible := by
  intro name hname
  rw [(vars_of_run h).1, Variables.keys] at hname
  obtain ⟨entry, hentry, rfl⟩ := List.mem_map.1 hname
  rcases Variables.mem_of_mem_extend hentry with hold | hnew
  · exact .inl (List.mem_map_of_mem hold)
  · obtain ⟨line, hline, hassigned⟩ := List.mem_filterMap.1 hnew
    obtain ⟨l, hl, rfl⟩ := List.mem_map.1 hline
    have hsubset := (subset_of_assigned? hassigned).1
    rw [l.code_withTerminator hblank] at hsubset
    exact .inr ⟨l, hl, List.Subset.trans hsubset (dropEnd_subset _ _)⟩

/-- No token of a run reaches into a terminator, if none did at the start. -/
theorem not_reaches_of_run {terminator : List Char} (hterm : terminator ⊆ ['\r', '\n'])
    (h : p.run e (ls.map (·.withTerminator terminator)) = (q, none))
    (hsigil : e.dialect.sigil ≠ '\r' ∧ e.dialect.sigil ≠ '\n')
    (hls : ∀ l ∈ ls, '\r' ∉ l.visible ∧ '\n' ∉ l.visible)
    (hnames : ∀ name ∈ p.vars.keys, '\r' ∉ name.toList ∧ '\n' ∉ name.toList) :
    ∀ name ∈ q.vars.keys, ¬Reaches e.dialect.sigil name.toList terminator := by
  intro name hname
  have hends {c : Char} (hc : c ∈ terminator) : c = '\r' ∨ c = '\n' := by simpa using hterm hc
  have hblank : ∀ c ∈ terminator, isBlank c = true := by
    intro c hc
    rcases hends hc with rfl | rfl <;> decide
  have hclean : '\r' ∉ name.toList ∧ '\n' ∉ name.toList := by
    rcases keys_of_run hblank h name hname with hold | ⟨l, hl, hsubset⟩
    · exact hnames name hold
    · exact ⟨fun hin => (hls l hl).1 (hsubset hin), fun hin => (hls l hl).2 (hsubset hin)⟩
  refine not_reaches_of_disjoint (fun hin => ?_) fun c hc hin => ?_
  · rcases hends hin with hreturn | hfeed
    · exact hsigil.1 hreturn
    · exact hsigil.2 hfeed
  · rcases hends hin with rfl | rfl
    · exact hclean.1 hc
    · exact hclean.2 hc

/-- Under the two terminators that a source can choose, the outputs of a run differ in these
alone. -/
theorem output_withReturns {start p' q' : Progress} (hp : p.Alike start) (hq : q.Alike start)
    (hpoutput : p.output = "") (hqoutput : q.output = "")
    (hp' : p.run e (ls.map (·.withTerminator ['\r', '\n'])) = (p', none))
    (hq' : q.run e (ls.map (·.withTerminator ['\n'])) = (q', none))
    (hsigil : e.dialect.sigil ≠ '\r' ∧ e.dialect.sigil ≠ '\n')
    (hls : ∀ l ∈ ls, '\r' ∉ l.visible ∧ '\n' ∉ l.visible)
    (hnames : ∀ name ∈ start.vars.keys, '\r' ∉ name.toList ∧ '\n' ∉ name.toList)
    (hvalues : ∀ entry ∈ start.vars.entries, '\n' ∉ entry.2.text.toList) :
    p'.output = String.ofList (withReturns q'.output.toList) := by
  have hblank : ∀ c ∈ ['\r', '\n'], isBlank c = true := List.all_eq_true.1 (by decide)
  have hlong := output_run hblank hp hp'
    (not_reaches_of_run (List.Subset.refl _) hp' hsigil hls (hp.vars ▸ hnames))
  have hshort := output_run isBlank_of_mem_feed hq hq'
    (not_reaches_of_run (by simp) hq' hsigil hls (hq.vars ▸ hnames))
  have hshown := not_mem_shownLines (e := e) (fun l hl => (hls l hl).2) hvalues
  rw [hlong, hshort, hpoutput, hqoutput, String.empty_append, String.empty_append,
    String.toList_ofList, withReturns_flatMap_endedBy hshown]

end Progress

end Stencil.Template

namespace Stencil

open Template Text

/-- The source without its carriage returns. -/
def withoutReturns (source : String) : String := String.ofList (source.toList.filter (· != '\r'))

theorem withoutReturns_of_not_mem {source : String} (h : '\r' ∉ source.toList) :
    withoutReturns source = source := by
  have hkept : ∀ c ∈ source.toList, (c != '\r') = true := by
    intro c hc
    have hne : c ≠ '\r' := fun heq => h (heq ▸ hc)
    simpa using hne
  rw [withoutReturns, List.filter_eq_self.2 hkept, String.ofList_toList]

namespace Engine

variable {e : Engine} {vars : Variables} {source : String}

theorem process_eq_run (hnewline : e.dialect.newline? = none) (vars : Variables)
    (source : String) :
    e.process vars source =
      (({ vars } : Progress).record (.processing source.utf8ByteSize vars.size)).run e
        ((SourceLine.ofSource source.toList).map
          (·.withTerminator (terminator none source.toList))) := by
  rw [process, hnewline, Option.map_none, SourceLine.lines_eq_map]

/-- Without its carriage returns a source does what its lines do under line feeds. The source may
be left with no line where it had an empty one, which does nothing. -/
theorem exists_run_withoutReturns (hnewline : e.dialect.newline? = none) (vars : Variables)
    (source : String) :
    ∃ start q : Progress, start.Alike { vars } ∧ start.output = "" ∧
      start.run e ((SourceLine.ofSource source.toList).map (·.withTerminator ['\n'])) =
        (q, (e.process vars (withoutReturns source)).2) ∧
      q.vars = (e.process vars (withoutReturns source)).1.vars ∧
      q.calls = (e.process vars (withoutReturns source)).1.calls ∧
      q.output = (e.process vars (withoutReturns source)).1.output := by
  let start : Progress :=
    ({ vars } : Progress).record (.processing (withoutReturns source).utf8ByteSize vars.size)
  have hprocess : e.process vars (withoutReturns source) =
      start.run e (lines none (source.toList.filter (· != '\r'))) := by
    rw [process, hnewline, Option.map_none, withoutReturns, String.toList_ofList]
    rfl
  refine ⟨start, ?_⟩
  by_cases h : source.toList.filter (· != '\r') = []
  · have hnone : e.process vars (withoutReturns source) = (start, none) := by
      rw [hprocess, h]
      rfl
    -- What is left has no line, where the source may have an empty one: it shows nothing.
    rw [hnone]
    rcases SourceLine.map_ofSource_of_filter_eq_nil h ['\n'] with hlines | hlines
    · rw [hlines]
      exact ⟨start, Progress.alike_record _ _, rfl, rfl, rfl, rfl, rfl⟩
    · have hshown : (Directive.ofCode (dropEnd isBlank [])).isShown = true := by decide
      obtain ⟨events, hs⟩ := Progress.step_shown (e := e) (p := start) hshown
      rw [hlines, Progress.run_singleton, hs]
      refine ⟨_, Progress.alike_record _ _, rfl, rfl, rfl, rfl, ?_⟩
      change "" ++ start.shown e [] = ""
      rw [Progress.shown]
      split <;> rfl
  · rw [hprocess, SourceLine.lines_filter h]
    exact ⟨_, Progress.alike_record _ _, rfl, rfl, rfl, rfl, rfl⟩

/-- **Carriage returns choose the terminator and do nothing else.** Where no terminator is asked
for, a source and the source without its carriage returns fail alike, at the same place in the same
code, or both do not, and ask for the same conditions and leave the same variables. And their
outputs differ in the terminators alone, if the sigil and the names are free of the characters of a
terminator and the values of line feeds. -/
theorem returns_choose_terminator (hnewline : e.dialect.newline? = none) (vars : Variables)
    (source : String) :
    let full := e.render vars source
    let plain := e.render vars (withoutReturns source)
    (∀ error, full.result = .error error ↔ plain.result = .error error) ∧
    full.vars = plain.vars ∧ full.calls = plain.calls ∧
    (e.dialect.sigil ≠ '\r' → e.dialect.sigil ≠ '\n' →
      (∀ name ∈ vars.keys, '\r' ∉ name.toList ∧ '\n' ∉ name.toList) →
      (∀ entry ∈ vars.entries, '\n' ∉ entry.2.text.toList) →
      ∀ output, plain.result = .ok output → full.result = .ok
        (if '\r' ∈ source.toList then String.ofList (withReturns output.toList) else output)) := by
  intro full plain
  have hterm : ∀ c ∈ terminator none source.toList, isBlank c = true :=
    isBlank_of_mem_terminator (by rintro _ ⟨⟩)
  obtain ⟨start, q, hstart, hempty, hrun, hqvars, hqcalls, hqoutput⟩ :=
    exists_run_withoutReturns hnewline vars source
  have hfull := process_eq_run hnewline vars source
  have hbegin : (({ vars } : Progress).record (.processing source.utf8ByteSize vars.size)).Alike
      start :=
    ⟨hstart.vars.symm, hstart.blocks.symm, hstart.count.symm, hstart.calls.symm⟩
  obtain ⟨halike, herror⟩ := hbegin.run (e := e) hterm isBlank_of_mem_feed
    (SourceLine.ofSource source.toList)
  rw [← hfull, hrun] at halike herror
  refine ⟨fun error => ?_, ?_, ?_, fun hreturn hfeeds hnames hvalues output hok => ?_⟩
  · rw [render_eq_error_iff, render_eq_error_iff, herror]
  · rw [render_vars, render_vars, halike.vars, hqvars]
  · rw [render_calls, render_calls, halike.calls, hqcalls]
  · by_cases hin : '\r' ∈ source.toList
    · obtain ⟨hnone, houtput⟩ := render_eq_ok_iff.1 hok
      have hterminator : terminator none source.toList = ['\r', '\n'] := by simp [terminator, hin]
      rw [if_pos hin, render_eq_ok_iff]
      refine ⟨herror.trans hnone, ?_⟩
      rw [← houtput, ← hqoutput]
      rw [hnone] at hrun
      rw [hterminator] at hfull
      exact Progress.output_withReturns (Progress.alike_record _ _) hstart rfl hempty
        (hfull.symm.trans (Prod.ext rfl (herror.trans hnone))) hrun ⟨hreturn, hfeeds⟩
        (fun l hl => SourceLine.not_mem_visible hl) hnames hvalues
    · have hplain : plain = full := congrArg (e.render vars) (withoutReturns_of_not_mem hin)
      rw [if_neg hin, ← hplain, hok]

/-- Carriage returns in a keyword, in a token and in a value. -/
theorem render_stray_returns :
    let e : Engine := { evaluator := fun condition => .ok (.bool (condition == "a")) }
    let vars : Variables := .ofList [("x", .string "a"), ("y", .string "c\rd")]
    let source := "#i\rf ($x)\nx$\rx$y\n#end\nz"
    withoutReturns source = "#if ($x)\nx$x$y\n#end\nz" ∧
      (e.render vars source).result = .ok "xac\rd\r\nz" ∧
      (e.render vars source).calls = ["a"] := by
  intro e vars source
  have hplain : (e.render vars (withoutReturns source)).result = .ok "xac\rd\nz" := by
    have hoption : (e.render vars (withoutReturns source)).result.toOption = some "xac\rd\nz" := by
      decide +kernel
    cases h : (e.render vars (withoutReturns source)).result with
    | ok output => rw [h] at hoption; exact congrArg _ (Option.some.inj hoption)
    | error error => rw [h] at hoption; cases hoption
  have hin : '\r' ∈ source.toList := by decide +kernel
  have hreturns : String.ofList (withReturns "xac\rd\nz".toList) = "xac\rd\r\nz" := by
    decide +kernel
  obtain ⟨-, -, hcalls, houtput⟩ := returns_choose_terminator (e := e) rfl vars source
  have hfull := houtput (by decide) (by decide) (by decide +kernel) (by decide +kernel) _ hplain
  rw [if_pos hin, hreturns] at hfull
  refine ⟨by decide +kernel, hfull, ?_⟩
  rw [show (e.render vars source).calls = _ from hcalls]
  decide +kernel

end Engine

end Stencil
