/-
What a template does to the variables.

A line that is behind has done one thing to the variables, if anything: the assignment that it
spells (`vars_of_step`). Neither the open blocks nor the conditions have a say in it. A line that
fails has done nothing, and it is the last one looked at. So the variables of a run are those it
started from with the assignments of the lines behind, in their order, and of an outcome nothing
else need be known than which lines these are (`render_assigns`).
-/
import Stencil.Proofs.Template.Directive
import Stencil.Proofs.Template.Step

namespace Stencil.Template

/-! ## Lines that assign -/

/-- What an assignment puts into the variables. -/
def Assignment.entry (a : Assignment) : Entry :=
  (String.ofList a.name, .string (String.ofList a.text))

/-- The entry that a line assigns, if it spells an assignment. -/
def assigned? (sigil : Char) (line : List Char) : Option Entry :=
  match Directive.ofCode (Text.dropEnd Text.isBlank line) with
  | .set argument => (Assignment.ofArgument? sigil argument).map (·.entry)
  | _ => none

/-- What a line assigns is part of it. -/
theorem subset_of_assigned? {sigil : Char} {line : List Char} {entry : Entry}
    (h : assigned? sigil line = some entry) :
    entry.1.toList ⊆ Text.dropEnd Text.isBlank line ∧
      entry.2.text.toList ⊆ Text.dropEnd Text.isBlank line := by
  unfold assigned? at h
  split at h
  · rename_i argument hd
    obtain ⟨a, ha, rfl⟩ := Option.map_eq_some_iff.1 h
    obtain ⟨hname, htext⟩ := Assignment.subset_of_ofArgument? ha
    have hargument := Directive.subset_of_ofCode_set hd
    simp only [Assignment.entry, Value.text, String.toList_ofList]
    exact ⟨List.Subset.trans hname hargument, List.Subset.trans htext hargument⟩
  · cases h

/-- Whether a line, if it is to assign, has exactly one `=`. -/
def SetsOnce (line : List Char) : Prop :=
  ∀ argument, Directive.ofCode (Text.dropEnd Text.isBlank line) = .set argument →
    argument.count '=' = 1

namespace Progress

variable {e : Engine} {p q : Progress} {line : List Char}

/-- A line that is passed assigns what it spells, wherever it stands. -/
theorem vars_of_step (h : p.step e line = (q, none)) :
    q.vars = p.vars.extend (assigned? e.dialect.sigil line).toList ∧ SetsOnce line := by
  have hstep := stepsTo_step e p line
  rw [h] at hstep
  cases hstep with
  | shown hd =>
    have hset : ∀ argument, Directive.ofCode (Text.dropEnd Text.isBlank line) ≠ .set argument := by
      intro argument hset
      rw [hset] at hd
      cases hd
    refine ⟨?_, fun argument hargument => absurd hargument (hset argument)⟩
    unfold assigned?
    split
    · rename_i argument hargument
      exact absurd hargument (hset argument)
    · rfl
  | @set argument a events hd ha =>
    refine ⟨by simp only [assigned?, hd, ha]; rfl, fun other hother => ?_⟩
    cases hd.symm.trans hother
    exact (Assignment.isSome_ofArgument?_iff e.dialect.sigil argument).1 (by rw [ha]; rfl)
  | go hd hm => exact ⟨by simp only [assigned?, hd]; rfl, by simp [SetsOnce, hd]⟩
  | ask hd hm hj => exact ⟨by simp only [assigned?, hd]; rfl, by simp [SetsOnce, hd]⟩

theorem vars_of_run {lines : List (List Char)} (h : p.run e lines = (q, none)) :
    q.vars = p.vars.extend (lines.filterMap (assigned? e.dialect.sigil)) ∧
      ∀ line ∈ lines, SetsOnce line := by
  induction lines generalizing p with
  | nil =>
    cases h
    exact ⟨rfl, by simp⟩
  | cons line rest ih =>
    obtain ⟨next, hs, hnext⟩ := exists_of_run_cons h
    obtain ⟨hvars, honce⟩ := vars_of_step hs
    obtain ⟨hrest, hall⟩ := ih hnext
    refine ⟨?_, List.forall_mem_cons.2 ⟨honce, hall⟩⟩
    rw [hrest, hvars, List.filterMap_cons]
    cases assigned? e.dialect.sigil line <;> rfl

end Progress

end Stencil.Template

namespace Stencil

open Template

/-- The lines that were passed when a result was reached: all, or those before the one that
failed. -/
def linesBehind (lines : List (List Char)) : Except Error String → List (List Char)
  | .ok _ => lines
  | .error error => lines.take (error.line?.getD 1 - 1)

namespace Engine

variable {e : Engine} {vars : Variables} {source : String}

/-- What fails is a line of the template, in what it asks for or in its condition. -/
theorem error_of_render {error : Error} (h : (e.render vars source).result = .error error) :
    ∃ before line rest,
      lines (e.dialect.newline?.map (·.toList)) source.toList = before ++ line :: rest ∧
      (error.kind = .directive ∨ error.kind = .condition) ∧
      error.line? = some (before.length + 1) ∧
      (e.render vars source).vars =
        vars.extend (before.filterMap (assigned? e.dialect.sigil)) ∧
      ∀ line ∈ before, SetsOnce line := by
  obtain ⟨before, line, rest, last, q, hlines, hnumber, hbefore, hline, hvars⟩ :=
    exists_step_of_render h
  obtain ⟨hkind, -, hlast⟩ := Progress.error_of_step hline
  obtain ⟨hassigned, honce⟩ := Progress.vars_of_run hbefore
  refine ⟨before, line, rest, hlines, hkind, hnumber, ?_, honce⟩
  rw [hvars, hlast, hassigned]
  rfl

theorem vars_of_render_ok {output : String} (h : (e.render vars source).result = .ok output) :
    (e.render vars source).vars = vars.extend
        ((lines (e.dialect.newline?.map (·.toList)) source.toList).filterMap
          (assigned? e.dialect.sigil)) ∧
      ∀ line ∈ lines (e.dialect.newline?.map (·.toList)) source.toList, SetsOnce line := by
  rcases hprocess : e.process vars source with ⟨p, _ | error⟩
  · rw [(render_of_ok hprocess).2.1]
    exact Progress.vars_of_run hprocess
  · rw [(render_of_fail hprocess).1] at h
    cases h

/-- Whether or not a line fails, the lines behind have assigned what they spell. -/
theorem vars_of_linesBehind (e : Engine) (vars : Variables) (source : String) :
    let behind := linesBehind (lines (e.dialect.newline?.map (·.toList)) source.toList)
      (e.render vars source).result
    (e.render vars source).vars =
        vars.extend (behind.filterMap (assigned? e.dialect.sigil)) ∧
      ∀ line ∈ behind, SetsOnce line := by
  cases hresult : (e.render vars source).result with
  | ok output => exact vars_of_render_ok hresult
  | error error =>
    obtain ⟨before, line, rest, hlines, -, hline, hvars, honce⟩ := error_of_render hresult
    -- The error names the line after those behind.
    have hbehind : linesBehind (lines (e.dialect.newline?.map (·.toList)) source.toList)
        (.error error) = before := by
      simp only [linesBehind, hline, hlines, Option.getD_some, Nat.add_sub_cancel, List.take_left]
    simp only [hbehind]
    exact ⟨hvars, honce⟩

/-- **What a template does to the variables.** It fails in a directive or a condition only, on one
of its lines. The variables are then those it was given with the assignments of the lines before
it, else of all lines, inserted in their order: the names that were there are in their places, the
new ones follow as they first come, and under a name is the last text assigned to it, else what
there was. Engines that differ in their evaluators alone and do not fail leave the same. -/
theorem render_assigns (e : Engine) (vars : Variables) (source : String) :
    let lines := lines (e.dialect.newline?.map (·.toList)) source.toList
    let outcome := e.render vars source
    let behind := linesBehind lines outcome.result
    let entries := behind.filterMap (assigned? e.dialect.sigil)
    (∀ error, outcome.result = .error error →
      (error.kind = .directive ∨ error.kind = .condition) ∧
        ∃ n, error.line? = some n ∧ 1 ≤ n ∧ n ≤ lines.length) ∧
    (∀ line ∈ behind, SetsOnce line) ∧
    outcome.vars = vars.extend entries ∧
    outcome.vars.keys =
      vars.keys ++ ((entries.map (·.1)).filter (· ∉ vars.keys)).eraseDups ∧
    (∀ name, outcome.vars.get? name =
      (Entry.find? name entries.reverse).or (vars.get? name)) ∧
    ∀ (evaluator : String → Except Error Value) (output output' : String),
      outcome.result = .ok output →
      (Engine.render ⟨e.dialect, evaluator⟩ vars source).result = .ok output' →
      (Engine.render ⟨e.dialect, evaluator⟩ vars source).vars = outcome.vars := by
  intro lines outcome behind entries
  have hassigned : outcome.vars = vars.extend entries ∧ ∀ line ∈ behind, SetsOnce line :=
    vars_of_linesBehind e vars source
  refine ⟨fun error herror => ?_, hassigned.2, hassigned.1, ?_, fun name => ?_, ?_⟩
  · obtain ⟨before, line, rest, hlines, hkind, hline, -⟩ := error_of_render herror
    refine ⟨hkind, before.length + 1, hline, by omega, ?_⟩
    simp only [lines, hlines, List.length_append, List.length_cons]
    omega
  · rw [hassigned.1, Variables.keys_extend]
  · rw [hassigned.1, Variables.get?_extend]
  · intro evaluator output output' hok hok'
    rw [(vars_of_render_ok hok').1]
    exact (vars_of_render_ok hok).1.symm

/-- Assignments in a branch that is skipped, one of them to a variable that is there, in front of a
line that fails and of one that would assign. -/
theorem render_assigns_skipped :
    let e : Engine := { evaluator := fun _ => .ok (.bool false) }
    let vars : Variables := .ofList [("x", .bool true), ("w", .integer 5)]
    let source := "#if ($x)\n#set ($y = 2)\n#set ($x = \"1\")\n#end\n#else\n#set ($z = 3)\n"
    let outcome := e.render vars source
    outcome.failure? = some (.directive, "unexpected `#else`", some 5) ∧
      outcome.vars.entries.map (fun entry => (entry.1, entry.2.inspect)) =
        [("x", "String(\"1\")"), ("w", "Integer(5)"), ("y", "String(\"2\")")] := by
  intro e vars source outcome
  have hvars := (render_assigns e vars source).2.2.1
  refine ⟨by decide +kernel, ?_⟩
  rw [show outcome.vars = _ from hvars]
  decide +kernel

end Engine

end Stencil
