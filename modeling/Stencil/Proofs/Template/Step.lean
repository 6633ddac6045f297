/-
What one line does to the progress of a template, and what lines do one after the other.

There is one statement for each kind of line: content, an assignment, and a marker by the move it
makes. Each says all that the line changes; of the record of events it says only that there is one.
`stepsTo_step` puts them together: a line does one of seven things. `run_append` takes a run apart
at any line, and `exists_step_of_run_fail` at the line that fails; `exists_step_of_render` says which
line of a template that is.
-/
import Stencil.Render

namespace Stencil.Template

/-- Whether a line is shown as it is, directives that are not supported among them. -/
def Directive.isShown : Directive → Bool
  | .content | .unsupported _ => true
  | .set _ | .marker _ => false

namespace Progress

variable {e : Engine} {p : Progress} {line : List Char}

/-- What a line of content adds to the output. -/
def shown (e : Engine) (p : Progress) (line : List Char) : String :=
  if isLive p.blocks then String.ofList (substitute e.dialect.sigil p.vars line) else ""

theorem emit_eq (e : Engine) (p : Progress) (line : List Char) :
    p.emit e line = { p with output := p.output ++ p.shown e line } := by
  rw [emit, shown]
  split
  · rfl
  · rw [String.append_empty]

/-! ## One line -/

theorem step_shown (h : (Directive.ofCode (Text.dropEnd Text.isBlank line)).isShown = true) :
    ∃ events, p.step e line =
      ({ p with output := p.output ++ p.shown e line, count := p.count + 1, events }, none) := by
  cases hd : Directive.ofCode (Text.dropEnd Text.isBlank line) with
  | content => exact ⟨_, by simp only [step, hd, emit_eq]; rfl⟩
  | unsupported name => exact ⟨_, by simp only [step, hd, emit_eq]; rfl⟩
  | set argument => rw [hd] at h; cases h
  | marker m => rw [hd] at h; cases h

theorem step_set {argument : List Char} {a : Assignment}
    (h : Directive.ofCode (Text.dropEnd Text.isBlank line) = .set argument)
    (ha : Assignment.ofArgument? e.dialect.sigil argument = some a) :
    ∃ events, p.step e line =
      ({ p with
          vars := p.vars.insert (String.ofList a.name) (.string (String.ofList a.text))
          count := p.count + 1, events }, none) :=
  ⟨_, by simp only [step, h, assign, ha]; rfl⟩

theorem step_malformed {argument : List Char}
    (h : Directive.ofCode (Text.dropEnd Text.isBlank line) = .set argument)
    (ha : Assignment.ofArgument? e.dialect.sigil argument = none) :
    ∃ events, p.step e line =
      ({ p with events }, some (.directive .malformedSet (p.count + 1)
        (.of (Text.dropEnd Text.isBlank line) (argumentSpan setOpening argument)))) :=
  ⟨_, by simp only [step, h, assign, ha]; rfl⟩

variable {m : Marker} {opening : String} {argument : List Char} {ifSo ifNot : List Branch}

theorem step_marker (h : Directive.ofCode (Text.dropEnd Text.isBlank line) = .marker m) :
    ∃ events, p.step e line =
      match mark e { p with events } (Text.dropEnd Text.isBlank line) m with
      | (q, none) => (q.next, none)
      | (q, some error) => (q, some error) := by
  refine ⟨p.events ++ [.line p.number m.keyword], ?_⟩
  have hline : ({ p with events := p.events ++ [.line p.number m.keyword] } : Progress) =
      p.record (.line p.number (Directive.marker m).name) := rfl
  rw [hline]
  simp only [step, h]
  rcases mark e (p.record (.line p.number (Directive.marker m).name)) _ m with
    ⟨q, _ | error⟩ <;> rfl

theorem step_go {blocks : List Branch}
    (h : Directive.ofCode (Text.dropEnd Text.isBlank line) = .marker m)
    (hm : m.move p.blocks = .go blocks) :
    ∃ events, p.step e line = ({ p with blocks, count := p.count + 1, events }, none) := by
  obtain ⟨events, hs⟩ := step_marker (e := e) (p := p) h
  exact ⟨events, by rw [hs]; simp only [mark, hm]; rfl⟩

theorem step_misplaced (h : Directive.ofCode (Text.dropEnd Text.isBlank line) = .marker m)
    (hm : m.move p.blocks = .misplaced) :
    ∃ events, p.step e line =
      ({ p with events }, some (.directive (.misplaced m) (p.count + 1)
        (.of (Text.dropEnd Text.isBlank line) m.keywordSpan))) := by
  obtain ⟨events, hs⟩ := step_marker (e := e) (p := p) h
  exact ⟨events, by rw [hs]; simp only [mark, hm]; rfl⟩

/-- The text of a condition that the evaluator is given. -/
def call (e : Engine) (vars : Variables) (opening : String) (argument : List Char) : String :=
  String.ofList (substitute e.dialect.sigil vars (conditionAt opening argument).1)

theorem step_ask {b : Bool} (h : Directive.ofCode (Text.dropEnd Text.isBlank line) = .marker m)
    (hm : m.move p.blocks = .ask opening argument ifSo ifNot)
    (hj : e.judge (call e p.vars opening argument) = .ok b) :
    ∃ events, p.step e line =
      ({ p with
          blocks := if b then ifSo else ifNot
          calls := p.calls ++ [call e p.vars opening argument]
          count := p.count + 1, events }, none) := by
  obtain ⟨events, hs⟩ := step_marker (e := e) (p := p) h
  rw [call] at hj
  exact ⟨events, by rw [hs]; simp only [mark, hm, hj]; rfl⟩

theorem step_undecided {fault : ConditionFault}
    (h : Directive.ofCode (Text.dropEnd Text.isBlank line) = .marker m)
    (hm : m.move p.blocks = .ask opening argument ifSo ifNot)
    (hj : e.judge (call e p.vars opening argument) = .error fault) :
    ∃ events, p.step e line =
      ({ p with calls := p.calls ++ [call e p.vars opening argument], events },
        some (.condition fault (p.count + 1)
          (.of (Text.dropEnd Text.isBlank line) (conditionAt opening argument).2))) := by
  obtain ⟨events, hs⟩ := step_marker (e := e) (p := p) h
  rw [call] at hj
  exact ⟨events, by rw [hs]; simp only [mark, hm, hj]; rfl⟩

/-- What a line can lead to. -/
inductive StepsTo (e : Engine) (p : Progress) (line : List Char) : Progress × Option Error → Prop
  | shown {events : List Event}
      (h : (Directive.ofCode (Text.dropEnd Text.isBlank line)).isShown = true) :
      StepsTo e p line
        ({ p with output := p.output ++ p.shown e line, count := p.count + 1, events }, none)
  | set {argument : List Char} {a : Assignment} {events : List Event}
      (h : Directive.ofCode (Text.dropEnd Text.isBlank line) = .set argument)
      (ha : Assignment.ofArgument? e.dialect.sigil argument = some a) :
      StepsTo e p line
        ({ p with
            vars := p.vars.insert (String.ofList a.name) (.string (String.ofList a.text))
            count := p.count + 1, events }, none)
  | malformed {argument : List Char} {events : List Event}
      (h : Directive.ofCode (Text.dropEnd Text.isBlank line) = .set argument)
      (ha : Assignment.ofArgument? e.dialect.sigil argument = none) :
      StepsTo e p line
        ({ p with events }, some (.directive .malformedSet (p.count + 1)
          (.of (Text.dropEnd Text.isBlank line) (argumentSpan setOpening argument))))
  | go {m : Marker} {blocks : List Branch} {events : List Event}
      (h : Directive.ofCode (Text.dropEnd Text.isBlank line) = .marker m)
      (hm : m.move p.blocks = .go blocks) :
      StepsTo e p line ({ p with blocks, count := p.count + 1, events }, none)
  | misplaced {m : Marker} {events : List Event}
      (h : Directive.ofCode (Text.dropEnd Text.isBlank line) = .marker m)
      (hm : m.move p.blocks = .misplaced) :
      StepsTo e p line
        ({ p with events }, some (.directive (.misplaced m) (p.count + 1)
          (.of (Text.dropEnd Text.isBlank line) m.keywordSpan)))
  | ask {m : Marker} {opening : String} {argument : List Char} {ifSo ifNot : List Branch}
      {b : Bool} {events : List Event}
      (h : Directive.ofCode (Text.dropEnd Text.isBlank line) = .marker m)
      (hm : m.move p.blocks = .ask opening argument ifSo ifNot)
      (hj : e.judge (call e p.vars opening argument) = .ok b) :
      StepsTo e p line
        ({ p with
            blocks := if b then ifSo else ifNot
            calls := p.calls ++ [call e p.vars opening argument]
            count := p.count + 1, events }, none)
  | undecided {m : Marker} {opening : String} {argument : List Char} {ifSo ifNot : List Branch}
      {fault : ConditionFault} {events : List Event}
      (h : Directive.ofCode (Text.dropEnd Text.isBlank line) = .marker m)
      (hm : m.move p.blocks = .ask opening argument ifSo ifNot)
      (hj : e.judge (call e p.vars opening argument) = .error fault) :
      StepsTo e p line
        ({ p with calls := p.calls ++ [call e p.vars opening argument], events },
          some (.condition fault (p.count + 1)
            (.of (Text.dropEnd Text.isBlank line) (conditionAt opening argument).2)))

theorem stepsTo_step (e : Engine) (p : Progress) (line : List Char) :
    StepsTo e p line (p.step e line) := by
  cases hd : Directive.ofCode (Text.dropEnd Text.isBlank line) with
  | content =>
    have hshown : (Directive.ofCode (Text.dropEnd Text.isBlank line)).isShown = true := by
      rw [hd]; rfl
    obtain ⟨events, hs⟩ := step_shown (e := e) (p := p) hshown
    exact hs ▸ .shown hshown
  | unsupported name =>
    have hshown : (Directive.ofCode (Text.dropEnd Text.isBlank line)).isShown = true := by
      rw [hd]; rfl
    obtain ⟨events, hs⟩ := step_shown (e := e) (p := p) hshown
    exact hs ▸ .shown hshown
  | set argument =>
    cases ha : Assignment.ofArgument? e.dialect.sigil argument with
    | some a =>
      obtain ⟨events, hs⟩ := step_set (e := e) (p := p) hd ha
      exact hs ▸ .set hd ha
    | none =>
      obtain ⟨events, hs⟩ := step_malformed (e := e) (p := p) hd ha
      exact hs ▸ .malformed hd ha
  | marker m =>
    cases hm : m.move p.blocks with
    | go blocks =>
      obtain ⟨events, hs⟩ := step_go (e := e) hd hm
      exact hs ▸ .go hd hm
    | misplaced =>
      obtain ⟨events, hs⟩ := step_misplaced (e := e) hd hm
      exact hs ▸ .misplaced hd hm
    | ask opening argument ifSo ifNot =>
      cases hj : e.judge (call e p.vars opening argument) with
      | ok b =>
        obtain ⟨events, hs⟩ := step_ask hd hm hj
        exact hs ▸ .ask hd hm hj
      | error fault =>
        obtain ⟨events, hs⟩ := step_undecided hd hm hj
        exact hs ▸ .undecided hd hm hj

/-! ## Several lines -/

theorem run_cons_of_step {rest : List (List Char)} {q : Progress}
    (h : p.step e line = (q, none)) : p.run e (line :: rest) = q.run e rest := by
  rw [run, h]

theorem run_cons_of_fail {rest : List (List Char)} {q : Progress} {error : Error}
    (h : p.step e line = (q, some error)) : p.run e (line :: rest) = (q, some error) := by
  rw [run, h]

/-- A run in which nothing fails passes its first line, and then the others. -/
theorem exists_of_run_cons {rest : List (List Char)} {q : Progress}
    (h : p.run e (line :: rest) = (q, none)) :
    ∃ next, p.step e line = (next, none) ∧ next.run e rest = (q, none) := by
  rcases hs : p.step e line with ⟨next, _ | error⟩
  · exact ⟨next, rfl, (run_cons_of_step hs).symm.trans h⟩
  · cases (run_cons_of_fail hs).symm.trans h

theorem run_singleton (e : Engine) (p : Progress) (line : List Char) :
    p.run e [line] = p.step e line := by
  rw [run]
  rcases p.step e line with ⟨q, _ | error⟩ <;> rfl

theorem run_append (e : Engine) (p : Progress) (first rest : List (List Char)) :
    p.run e (first ++ rest) =
      match p.run e first with
      | (q, none) => q.run e rest
      | (q, some error) => (q, some error) := by
  induction first generalizing p with
  | nil => rfl
  | cons line first ih =>
    rw [List.cons_append, run, run]
    split
    · exact ih _
    · rfl

theorem run_append_of_ok {first rest : List (List Char)} {q : Progress}
    (h : p.run e first = (q, none)) : p.run e (first ++ rest) = q.run e rest := by
  rw [run_append, h]

theorem run_append_of_fail {first rest : List (List Char)} {q : Progress} {error : Error}
    (h : p.run e first = (q, some error)) : p.run e (first ++ rest) = (q, some error) := by
  rw [run_append, h]

/-! ## Lines behind and lines that fail -/

theorem count_of_step {q : Progress} (h : p.step e line = (q, none)) : q.count = p.count + 1 := by
  have hstep := stepsTo_step e p line
  rw [h] at hstep
  cases hstep <;> rfl

theorem count_of_run {lines : List (List Char)} {q : Progress} (h : p.run e lines = (q, none)) :
    q.count = p.count + lines.length := by
  induction lines generalizing p with
  | nil => cases h; rfl
  | cons line rest ih =>
    obtain ⟨next, hs, hrest⟩ := exists_of_run_cons h
    rw [ih hrest, count_of_step hs, List.length_cons]
    omega

/-- An error of a line is about a directive or a condition and names the line, which has assigned
nothing. -/
theorem error_of_step {q : Progress} {error : Error} (h : p.step e line = (q, some error)) :
    (error.kind = .directive ∨ error.kind = .condition) ∧ error.line? = some p.number ∧
      q.vars = p.vars := by
  have hstep := stepsTo_step e p line
  rw [h] at hstep
  cases hstep with
  | malformed hd ha => exact ⟨.inl rfl, rfl, rfl⟩
  | misplaced hd hm => exact ⟨.inl rfl, rfl, rfl⟩
  | undecided hd hm hj => exact ⟨.inr rfl, rfl, rfl⟩

/-- A run that fails does so at one of its lines, the lines before it being behind. -/
theorem exists_step_of_run_fail {lines : List (List Char)} {q : Progress} {error : Error}
    (h : p.run e lines = (q, some error)) :
    ∃ before line rest last, lines = before ++ line :: rest ∧ p.run e before = (last, none) ∧
      last.step e line = (q, some error) := by
  induction lines generalizing p with
  | nil => cases h
  | cons line rest ih =>
    rcases hs : p.step e line with ⟨next, _ | error'⟩
    · rw [run_cons_of_step hs] at h
      obtain ⟨before, bad, rest, last, rfl, hbefore, hbad⟩ := ih h
      exact ⟨line :: before, bad, rest, last, rfl, by rw [run_cons_of_step hs, hbefore], hbad⟩
    · rw [run_cons_of_fail hs] at h
      exact ⟨[], line, rest, p, rfl, rfl, hs.trans h⟩

end Progress

end Stencil.Template

namespace Stencil

/-! ## A whole template -/

/-- What failed and where, the code that shows it left out. -/
def Error.gist (error : Error) : Error.Kind × String × Option Nat :=
  (error.kind, error.message, error.line?)

/-- What failed, if anything did. -/
def Outcome.failure? {α : Type} (o : Outcome α) : Option (Error.Kind × String × Option Nat) :=
  match o.result with
  | .ok _ => none
  | .error error => some error.gist

namespace Engine

variable {e : Engine} {vars : Variables} {source : String} {p : Template.Progress}

theorem render_of_ok (h : e.process vars source = (p, none)) :
    (e.render vars source).result = .ok p.output ∧ (e.render vars source).vars = p.vars ∧
      (e.render vars source).calls = p.calls := by
  simp only [render, h]
  cases p.blocks.isEmpty <;> exact ⟨rfl, rfl, rfl⟩

theorem render_of_fail {error : Error} (h : e.process vars source = (p, some error)) :
    (e.render vars source).result = .error error ∧ (e.render vars source).vars = p.vars ∧
      (e.render vars source).calls = p.calls := by
  rw [render, h]
  exact ⟨rfl, rfl, rfl⟩

theorem render_eq_error_iff {error : Error} :
    (e.render vars source).result = .error error ↔ (e.process vars source).2 = some error := by
  rcases h : e.process vars source with ⟨p, _ | error'⟩
  · simp [(render_of_ok h).1]
  · simp [(render_of_fail h).1]

theorem render_eq_ok_iff {output : String} :
    (e.render vars source).result = .ok output ↔
      (e.process vars source).2 = none ∧ (e.process vars source).1.output = output := by
  rcases h : e.process vars source with ⟨p, _ | error⟩
  · simp [(render_of_ok h).1]
  · simp [(render_of_fail h).1]

theorem render_vars (e : Engine) (vars : Variables) (source : String) :
    (e.render vars source).vars = (e.process vars source).1.vars := by
  rcases h : e.process vars source with ⟨p, _ | error⟩
  · exact (render_of_ok h).2.1
  · exact (render_of_fail h).2.1

theorem render_calls (e : Engine) (vars : Variables) (source : String) :
    (e.render vars source).calls = (e.process vars source).1.calls := by
  rcases h : e.process vars source with ⟨p, _ | error⟩
  · exact (render_of_ok h).2.2
  · exact (render_of_fail h).2.2

/-- A template that fails does so at one of its lines, the lines before it being behind, and leaves
the variables as they are then. -/
theorem exists_step_of_render {error : Error} (h : (e.render vars source).result = .error error) :
    ∃ before line rest last q,
      Template.lines (e.dialect.newline?.map (·.toList)) source.toList = before ++ line :: rest ∧
      error.line? = some (before.length + 1) ∧
      (({ vars } : Template.Progress).record (.processing source.utf8ByteSize vars.size)).run e
        before = (last, none) ∧
      last.step e line = (q, some error) ∧
      (e.render vars source).vars = q.vars := by
  rcases hprocess : e.process vars source with ⟨q, _ | error'⟩
  · rw [(render_of_ok hprocess).1] at h
    cases h
  · obtain ⟨hresult, hvars, -⟩ := render_of_fail hprocess
    rw [hresult] at h
    cases h
    obtain ⟨before, line, rest, last, hlines, hbefore, hline⟩ :=
      Template.Progress.exists_step_of_run_fail hprocess
    have hnumber := (Template.Progress.error_of_step hline).2.1
    refine ⟨before, line, rest, last, q, hlines, ?_, hbefore, hline, hvars⟩
    rw [hnumber, Template.Progress.number, Template.Progress.count_of_run hbefore]
    exact congrArg (some <| · + 1) (Nat.zero_add _)

theorem failure?_render (e : Engine) (vars : Variables) (source : String) :
    (e.render vars source).failure? = (e.process vars source).2.map Error.gist := by
  rcases h : e.process vars source with ⟨p, _ | error⟩
  · rw [Outcome.failure?, (render_of_ok h).1]
    rfl
  · rw [Outcome.failure?, (render_of_fail h).1]
    rfl

end Engine

end Stencil
