/-
Lines that store a name and a text as they are.

`setLine` writes an assignment with its sigil in front and its text in quotes. To read such a line,
blanks and a parenthesis are taken off its end, the argument is split at its `=`, spaces are trimmed
off both sides, and a sigil and a quote at either end are dropped. Each of these steps takes away
what was put around the name and the text and stops at the character behind it
(`Assignment.ofArgument?_spelled`). What the line asks for has nothing to do with where it stands,
so it stores the same in every template and in every block, taken or not
(`set_line_stores_verbatim`).
-/
import Stencil.Proofs.Template.SourceLine
import Stencil.Proofs.Template.Step
import Stencil.Proofs.Text.Trimming

namespace Stencil

open Text

namespace Template

/-! ## How an assignment is written -/

namespace Assignment

/-- The argument that spells an assignment, its text in quotes. -/
def spelled (sigil : Char) (a : Assignment) : List Char :=
  sigil :: a.name ++ " = ".toList ++ '"' :: (a.text ++ ['"'])

/-- The line that spells an assignment. -/
def setLine (sigil : Char) (a : Assignment) : List Char :=
  setOpening.toList ++ a.spelled sigil ++ [')']

/-- Whether a line can spell an assignment: nothing in it is taken for the `=` or for the end of the
line, and neither the sigil nor the end of the name is a space, which would be trimmed off. -/
structure Spellable (sigil : Char) (a : Assignment) : Prop where
  sigil : sigil ∉ [' ', '=', '\r', '\n']
  name : '=' ∉ a.name ∧ '\r' ∉ a.name ∧ '\n' ∉ a.name
  name_end : a.name.getLast? ≠ some ' '
  text : '=' ∉ a.text ∧ '\r' ∉ a.text ∧ '\n' ∉ a.text

instance (sigil : Char) (a : Assignment) : Decidable (a.Spellable sigil) :=
  decidable_of_iff (sigil ∉ [' ', '=', '\r', '\n'] ∧
      ('=' ∉ a.name ∧ '\r' ∉ a.name ∧ '\n' ∉ a.name) ∧ a.name.getLast? ≠ some ' ' ∧
      '=' ∉ a.text ∧ '\r' ∉ a.text ∧ '\n' ∉ a.text)
    ⟨fun ⟨hsigil, hname, hend, htext⟩ => ⟨hsigil, hname, hend, htext⟩,
      fun h => ⟨h.sigil, h.name, h.name_end, h.text⟩⟩

variable {sigil : Char} {a : Assignment}

/-- What is read off an argument is what it spells. -/
theorem ofArgument?_spelled (h : a.Spellable sigil) :
    ofArgument? sigil (a.spelled sigil) = some a := by
  have hsigil := h.sigil
  simp only [List.mem_cons, List.not_mem_nil, or_false, not_or] at hsigil
  have hspan : (a.spelled sigil).span (· != '=') =
      (sigil :: a.name ++ [' '], '=' :: ' ' :: '"' :: (a.text ++ ['"'])) := by
    have hfront : ∀ c ∈ sigil :: a.name ++ [' '], (c != '=') = true := by
      intro c hc
      simp only [List.cons_append, List.mem_cons, List.mem_append, List.not_mem_nil, or_false] at hc
      rcases hc with rfl | hc | rfl
      · simp [hsigil.2.1]
      · simpa using ne_of_mem_of_not_mem hc h.name.1
      · decide
    have hsplit : a.spelled sigil =
        (sigil :: a.name ++ [' ']) ++ '=' :: ' ' :: '"' :: (a.text ++ ['"']) := by
      simp [spelled]
    rw [hsplit, List.span_eq_takeWhile_dropWhile, List.takeWhile_append_of_pos hfront,
      List.dropWhile_append_of_pos hfront]
    simp
  have hname : strip (· == ' ') (sigil :: a.name ++ [' ']) = sigil :: a.name := by
    show strip (· == ' ') ([] ++ sigil :: a.name ++ [' ']) = sigil :: a.name
    refine strip_eq (by simp) (by simp) (by simp [hsigil.1]) fun c hc => ?_
    rw [List.getLast?_cons, Option.some.injEq] at hc
    subst hc
    cases hlast : a.name.getLast? with
    | none => simp [hsigil.1]
    | some c =>
      have hc : c ≠ ' ' := fun hc => h.name_end (hlast.trans (congrArg some hc))
      simp [hc]
  have hvalue : strip (· == ' ') (' ' :: '"' :: (a.text ++ ['"'])) = '"' :: (a.text ++ ['"']) := by
    have hstrip : strip (· == ' ') ([' '] ++ '"' :: (a.text ++ ['"']) ++ []) =
        '"' :: (a.text ++ ['"']) := by
      refine strip_eq (by simp) (by simp) (by simp) ?_
      rw [← List.cons_append, List.getLast?_concat]
      simp
    simpa using hstrip
  have hequals : '=' ∉ ' ' :: '"' :: (a.text ++ ['"']) := by
    simpa using h.text.1
  simp only [ofArgument?, hspan, if_neg hequals, hname, hvalue]
  simp [dropFront, dropBack]

theorem ofCode_setLine (sigil : Char) (a : Assignment) :
    Directive.ofCode (a.setLine sigil) = .set (a.spelled sigil) := by
  have hopening : startsWith setOpening (a.setLine sigil) = true := rfl
  have hlast : (a.setLine sigil).getLast? = some ')' := List.getLast?_concat
  have hargument : ((a.setLine sigil).drop setOpening.length).dropLast = a.spelled sigil := by
    have hdrop : (a.setLine sigil).drop setOpening.length = a.spelled sigil ++ [')'] := rfl
    rw [hdrop, List.dropLast_concat]
  have hset : argument? setOpening (a.setLine sigil) = some (a.spelled sigil) := by
    rw [argument?, hopening, hlast, if_pos (by decide), hargument]
  rw [Directive.ofCode, hset]

/-- There is no carriage return in a line that spells an assignment. -/
theorem filter_setLine (h : a.Spellable sigil) :
    (a.setLine sigil).filter (· != '\r') = a.setLine sigil := by
  rw [List.filter_eq_self]
  intro c hc
  have hsigil := h.sigil
  have hname := h.name.2.1
  have htext := h.text.2.1
  simp only [List.mem_cons, List.not_mem_nil, or_false, not_or] at hsigil
  simp only [setLine, spelled, setOpening, String.reduceToList, List.cons_append, List.nil_append,
    List.append_assoc, List.mem_cons, List.mem_append, List.not_mem_nil, or_false] at hc
  rw [bne_iff_ne]
  intro hreturn
  subst hreturn
  simp [hname, htext, Ne.symm hsigil.2.2.1] at hc

/-- Blanks behind the line and its terminator are no part of what the line asks for. -/
theorem code_eq_setLine (h : a.Spellable sigil) {blanks : List Char}
    (hblanks : ∀ c ∈ blanks, isBlank c = true) {l : SourceLine}
    (hl : l.text = a.setLine sigil ++ blanks) : l.code = a.setLine sigil := by
  have hrest : ∀ c ∈ blanks.filter (· != '\r'), isBlank c = true :=
    fun c hc => hblanks c (List.mem_filter.1 hc).1
  rw [SourceLine.code, SourceLine.visible, hl, List.filter_append, filter_setLine h,
    dropEnd_append_of_all hrest]
  refine dropEnd_eq_self fun c hc => ?_
  rw [setLine, List.getLast?_concat, Option.some.injEq] at hc
  subst hc
  decide

end Assignment

/-! ## The line in a template -/

/-- **An assignment stores what it spells.** Let a name and a text be written with the sigil, ` = `
and quotes in a line of their own, which may end in blanks. Wherever the line stands in a template
and whatever has been done before it, taken or skipped the blocks around it, it is passed: the text
is stored as it is, other variables keep their values, and neither the output nor the open blocks
change. The template goes on behind it from there. -/
theorem set_line_stores_verbatim {e : Engine} (hnewline : e.dialect.newline? = none)
    {a : Assignment} (ha : a.Spellable e.dialect.sigil) {blanks : List Char}
    (hblanks : ∀ c ∈ blanks, isBlank c = true) {source : String} {front back : List SourceLine}
    {l : SourceLine} (hsource : SourceLine.ofSource source.toList = front ++ l :: back)
    (hl : l.text = a.setLine e.dialect.sigil ++ blanks) :
    ∃ before line after,
      lines (e.dialect.newline?.map (·.toList)) source.toList = before ++ line :: after ∧
      before.length = front.length ∧
      ∀ p : Progress, ∃ q : Progress, p.step e line = (q, none) ∧
        (∀ start : Progress, start.run e before = (p, none) →
          start.run e (before ++ line :: after) = q.run e after) ∧
        q.output = p.output ∧ q.blocks = p.blocks ∧ q.calls = p.calls ∧
        q.vars.get? (String.ofList a.name) = some (.string (String.ofList a.text)) ∧
        ∀ other, other ≠ String.ofList a.name → q.vars.get? other = p.vars.get? other := by
  let newline := terminator (e.dialect.newline?.map (·.toList)) source.toList
  let line := l.withTerminator newline
  have hlines : lines (e.dialect.newline?.map (·.toList)) source.toList =
      front.map (·.withTerminator newline) ++ line :: back.map (·.withTerminator newline) := by
    rw [SourceLine.lines_eq_map, hsource, List.map_append, List.map_cons]
  have hblank : ∀ c ∈ newline, isBlank c = true :=
    isBlank_of_mem_terminator fun override hoverride => by simp [hnewline] at hoverride
  have hdirective : Directive.ofCode (dropEnd isBlank line) = .set (a.spelled e.dialect.sigil) := by
    rw [SourceLine.code_withTerminator hblank, a.code_eq_setLine ha hblanks hl,
      Assignment.ofCode_setLine]
  refine ⟨_, line, _, hlines, List.length_map _, fun p => ?_⟩
  obtain ⟨events, hstep⟩ :=
    Progress.step_set (p := p) hdirective (Assignment.ofArgument?_spelled ha)
  refine ⟨_, hstep, fun start hstart => ?_, rfl, rfl, rfl, ?_, fun other hother => ?_⟩
  · rw [Progress.run_append_of_ok hstart, Progress.run_cons_of_step hstep]
  · rw [Variables.get?_insert, if_pos rfl]
  · rw [Variables.get?_insert, if_neg hother]

/-- In a block that is skipped: a name that starts with a space and the sigil, and a text with
quotes, a parenthesis and a token of a variable; a tab and the end of the template behind them. -/
theorem set_line_stores_in_skipped_block :
    let e : Engine := { evaluator := fun _ => .ok (.bool false) }
    let a : Assignment := ⟨" $(x".toList, "\"$y)\" ".toList⟩
    let source := "#if (1 > 2)\n#set ($ $(x = \"\"$y)\" \")\t"
    let p : Progress := { blocks := [.ifSkipped], count := 1 }
    a.Spellable e.dialect.sigil ∧
      ∃ line ∈ lines none source.toList, ∃ q, p.step e line = (q, none) ∧
        q.blocks = [.ifSkipped] ∧ q.output = "" ∧
        q.vars.get? " $(x" = some (.string "\"$y)\" ") := by
  intro e a source p
  have ha : a.Spellable e.dialect.sigil := by decide +kernel
  have hblanks : ∀ c ∈ ['\t'], isBlank c = true := List.forall_mem_singleton.2 (by decide)
  have hsource : SourceLine.ofSource source.toList =
      [⟨"#if (1 > 2)".toList, true⟩] ++ ⟨a.setLine e.dialect.sigil ++ ['\t'], false⟩ :: [] := by
    decide +kernel
  obtain ⟨before, line, after, hlines, -, hstep⟩ :=
    set_line_stores_verbatim (e := e) rfl ha hblanks hsource rfl
  obtain ⟨q, hq, -, houtput, hblocks, -, hget, -⟩ := hstep p
  have hmem : line ∈ lines none source.toList := by
    show line ∈ lines (e.dialect.newline?.map (·.toList)) source.toList
    rw [hlines]
    simp
  exact ⟨ha, line, hmem, q, hq, hblocks, houtput, hget⟩

end Template

end Stencil
