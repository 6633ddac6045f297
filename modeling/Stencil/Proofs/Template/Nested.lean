/-
Templates as trees, and what a tree means.

A template is a list of items: lines of content, assignments, and chains of branches, whose bodies
are such lists again. Its meaning is read off the tree, with no stack of open blocks: items take
their turns; a body is live if its branch is the one that is taken; a line of content is shown if
the body that it stands in is live; a condition is decided only if no branch of its chain was taken
before.

Rendering the lines of a tree gives what the tree means (`render_eq_meaning`). The work is done by
`Items.agrees`: whatever blocks are open, the lines of a list of items leave them as they were,
and the liveness of the innermost is all that the items see of them.
-/
import Stencil.Proofs.Template.Directive
import Stencil.Proofs.Template.SourceLine
import Stencil.Proofs.Template.Step
import Stencil.Render

namespace Stencil.Template

/-! ## Trees -/

/-- A line that is shown, by what it asks for. -/
structure ContentLine extends SourceLine where
  isShown : toSourceLine.directive.isShown = true

/-- An assignment with exactly one `=`. -/
structure AssignmentLine extends SourceLine where
  argument : List Char
  directive_eq : toSourceLine.directive = .set argument
  count_eq : argument.count '=' = 1

/-- A marker with a condition. -/
structure ConditionLine (marker : List Char → Marker) extends SourceLine where
  condition : List Char
  directive_eq : toSourceLine.directive = .marker (marker condition)

/-- A marker without one. -/
structure MarkerLine (marker : Marker) extends SourceLine where
  directive_eq : toSourceLine.directive = .marker marker

mutual

/-- Items one after the other. -/
inductive Items where
  | nil
  | content (line : ContentLine) (rest : Items)
  | assignment (line : AssignmentLine) (rest : Items)
  | chain (line : ConditionLine .ifHolds) (body : Items) (others : Branches) (rest : Items)

/-- The branches of a chain after the first one, and its end. -/
inductive Branches where
  | elseIf (line : ConditionLine .elseIf) (body : Items) (others : Branches)
  | otherwise (line : MarkerLine .otherwise) (body : Items) (closing : MarkerLine .close)
  | close (closing : MarkerLine .close)

end

mutual

/-- The lines of the items, in their order. -/
def Items.lines : Items → List SourceLine
  | .nil => []
  | .content line rest => line.toSourceLine :: rest.lines
  | .assignment line rest => line.toSourceLine :: rest.lines
  | .chain line body others rest =>
    line.toSourceLine :: (body.lines ++ (others.lines ++ rest.lines))

def Branches.lines : Branches → List SourceLine
  | .elseIf line body others => line.toSourceLine :: (body.lines ++ others.lines)
  | .otherwise line body closing =>
    line.toSourceLine :: (body.lines ++ [closing.toSourceLine])
  | .close closing => [closing.toSourceLine]

end

/-! ## Their meaning -/

/-- What there is after some items. -/
structure State where
  vars : Variables
  output : String := ""
  /-- The conditions that the evaluator was given. -/
  calls : List String := []
  /-- The number of lines behind. -/
  count : Nat := 0

/-- What changes the state and may fail, the state being kept. -/
abbrev Action := EStateM Error State

namespace Action

/-- A line that changes nothing. -/
def pass : Action Unit := modify fun s => { s with count := s.count + 1 }

/-- A line of content, with its variables put in. -/
def emit (e : Engine) (isLive : Bool) (line : List Char) : Action Unit := do
  if isLive then
    modify fun s =>
      { s with output := s.output ++ String.ofList (substitute e.dialect.sigil s.vars line) }
  pass

/-- An assignment. -/
def assign (e : Engine) (argument : List Char) : Action Unit := do
  if let some a := Assignment.ofArgument? e.dialect.sigil argument then
    modify fun s =>
      { s with vars := s.vars.insert (String.ofList a.name) (.string (String.ofList a.text)) }
  pass

/-- Has the condition of a line decided, with the variables as they are. -/
def ask (e : Engine) (opening : String) (code argument : List Char) : Action Bool := do
  let s ← get
  let (condition, span) := conditionAt opening argument
  let call := String.ofList (substitute e.dialect.sigil s.vars condition)
  set { s with calls := s.calls ++ [call] }
  match e.judge call with
  | .error fault => throw (.condition fault (s.count + 1) (.of code span))
  | .ok holds =>
    pass
    return holds

end Action

mutual

/-- What the items of a body do, given whether the body is live. -/
def Items.run (e : Engine) (terminator : List Char) (isLive : Bool) : Items → Action Unit
  | .nil => pure ()
  | .content line rest => do
    Action.emit e isLive (line.withTerminator terminator)
    rest.run e terminator isLive
  | .assignment line rest => do
    Action.assign e line.argument
    rest.run e terminator isLive
  | .chain line body others rest => do
    let holds ← Action.ask e ifOpening line.code line.condition
    body.run e terminator holds
    others.run e terminator holds
    rest.run e terminator isLive

/-- What the branches after the first one do, given whether one in front of them was taken. -/
def Branches.run (e : Engine) (terminator : List Char) (isTaken : Bool) : Branches → Action Unit
  | .elseIf line body others => do
    let holds ←
      if isTaken then do
        Action.pass
        pure false
      else Action.ask e elseIfOpening line.code line.condition
    body.run e terminator holds
    others.run e terminator (isTaken || holds)
  | .otherwise _ body _ => do
    Action.pass
    body.run e terminator (!isTaken)
    Action.pass
  | .close _ => Action.pass

end
/-! ## Actions and steps -/

/-- What there is apart from the open blocks. -/
def Progress.state (p : Progress) : State := ⟨p.vars, p.output, p.calls, p.count⟩

/-- An action does what a run of lines does; `after` says which blocks are open then. -/
def Agrees {α : Type} (after : α → List Branch) :
    EStateM.Result Error State α → Progress × Option Error → Prop
  | .ok a s, r => r.2 = none ∧ r.1.state = s ∧ r.1.blocks = after a
  | .error error s, r => r.2 = some error ∧ r.1.state = s ∧ error.kind = .condition

variable {e : Engine} {terminator : List Char} {p : Progress} {blocks : List Branch}

/-- Actions one after the other do what the lines of both do. -/
theorem Agrees.bind {α β : Type} {between : α → List Branch} {after : β → List Branch}
    {first : Action α} {next : α → Action β} {before rest : List (List Char)}
    (hfirst : Agrees between (first.run p.state) (p.run e before))
    (hnext : ∀ a (q : Progress), q.blocks = between a →
      Agrees after ((next a).run q.state) (q.run e rest)) :
    Agrees after ((first >>= next).run p.state) (p.run e (before ++ rest)) := by
  rw [Progress.run_append, EStateM.run_bind]
  rcases hbefore : p.run e before with ⟨q, error?⟩
  rw [hbefore] at hfirst
  cases hrun : first.run p.state with
  | error error s =>
    rw [hrun] at hfirst
    obtain ⟨rfl, hrest⟩ := hfirst
    exact ⟨rfl, hrest⟩
  | ok a s =>
    rw [hrun] at hfirst
    obtain ⟨rfl, rfl, hq⟩ := hfirst
    exact hnext a q hq

theorem Agrees.cons {α β : Type} {between : α → List Branch} {after : β → List Branch}
    {first : Action α} {next : α → Action β} {line : List Char} {rest : List (List Char)}
    (hfirst : Agrees between (first.run p.state) (p.step e line))
    (hnext : ∀ a (q : Progress), q.blocks = between a →
      Agrees after ((next a).run q.state) (q.run e rest)) :
    Agrees after ((first >>= next).run p.state) (p.run e (line :: rest)) := by
  rw [← Progress.run_singleton] at hfirst
  exact hfirst.bind hnext

/-- What becomes of a condition, by what the evaluator makes of it. -/
theorem Action.run_ask (opening : String) (code argument : List Char) :
    (Action.ask e opening code argument).run p.state =
      match e.judge (Progress.call e p.vars opening argument) with
      | .ok holds => .ok holds ⟨p.vars, p.output,
          p.calls ++ [Progress.call e p.vars opening argument], p.count + 1⟩
      | .error fault => .error (.condition fault (p.count + 1)
          (.of code (conditionAt opening argument).2)) ⟨p.vars, p.output,
          p.calls ++ [Progress.call e p.vars opening argument], p.count⟩ := by
  rw [Action.ask, Progress.call]
  simp only [EStateM.run_bind, EStateM.run_get, EStateM.run_set]
  rw [Progress.state]
  cases e.judge _ <;> rfl

section

variable (hterm : ∀ c ∈ terminator, Text.isBlank c = true)
include hterm

theorem agrees_emit {l : SourceLine} (hl : l.directive.isShown = true) :
    Agrees (fun _ => p.blocks)
      ((Action.emit e (isLive p.blocks) (l.withTerminator terminator)).run p.state)
      (p.step e (l.withTerminator terminator)) := by
  rw [SourceLine.directive, ← SourceLine.code_withTerminator hterm] at hl
  obtain ⟨events, hstep⟩ := Progress.step_shown (e := e) (p := p) hl
  rw [hstep, Action.emit, Progress.shown]
  cases isLive p.blocks with
  | true => exact ⟨rfl, rfl, rfl⟩
  | false => exact ⟨rfl, by simp [Progress.state], rfl⟩

theorem agrees_assign (l : AssignmentLine) :
    Agrees (fun _ => p.blocks) ((Action.assign e l.argument).run p.state)
      (p.step e (l.withTerminator terminator)) := by
  have hl := l.directive_eq
  rw [SourceLine.directive, ← SourceLine.code_withTerminator hterm] at hl
  obtain ⟨a, ha⟩ := Option.isSome_iff_exists.1
    ((Assignment.isSome_ofArgument?_iff e.dialect.sigil l.argument).2 l.count_eq)
  obtain ⟨events, hstep⟩ := Progress.step_set (e := e) (p := p) hl ha
  rw [hstep, Action.assign, ha]
  exact ⟨rfl, rfl, rfl⟩

variable {l : SourceLine} {m : Marker} {opening : String} {argument : List Char}
  {ifSo ifNot : List Branch}

theorem agrees_pass (hl : l.directive = .marker m) (hm : m.move p.blocks = .go blocks) :
    Agrees (fun _ => blocks) (Action.pass.run p.state)
      (p.step e (l.withTerminator terminator)) := by
  rw [SourceLine.directive, ← SourceLine.code_withTerminator hterm] at hl
  obtain ⟨events, hstep⟩ := Progress.step_go (e := e) hl hm
  rw [hstep]
  exact ⟨rfl, rfl, rfl⟩

theorem agrees_ask (hl : l.directive = .marker m)
    (hm : m.move p.blocks = .ask opening argument ifSo ifNot) :
    Agrees (fun holds => if holds then ifSo else ifNot)
      ((Action.ask e opening l.code argument).run p.state)
      (p.step e (l.withTerminator terminator)) := by
  have hcode := SourceLine.code_withTerminator hterm l
  rw [SourceLine.directive, ← hcode] at hl
  rw [Action.run_ask]
  cases hj : e.judge (Progress.call e p.vars opening argument) with
  | ok holds =>
    obtain ⟨events, hstep⟩ := Progress.step_ask hl hm hj
    rw [hstep]
    exact ⟨rfl, rfl, rfl⟩
  | error fault =>
    obtain ⟨events, hstep⟩ := Progress.step_undecided hl hm hj
    rw [hstep, hcode]
    exact ⟨rfl, rfl, rfl⟩

end

/-! ## Trees and lines -/

/-- Whether a branch of the chain was taken so far; none where no further branch may follow. -/
def Branch.taken? : Branch → Option Bool
  | .ifTaken | .elseIfTaken | .handled => some true
  | .ifSkipped | .elseIfSkipped => some false
  | .elseTaken => none

mutual

/-- The items see of the open blocks only whether the innermost is live, and leave all of them as
they are. -/
theorem Items.agrees (hterm : ∀ c ∈ terminator, Text.isBlank c = true) (isLive : Bool) :
    ∀ (items : Items) (p : Progress), Template.isLive p.blocks = isLive →
      Agrees (fun _ => p.blocks) ((items.run e terminator isLive).run p.state)
        (p.run e (items.lines.map (·.withTerminator terminator)))
  | .nil, p, _ => ⟨rfl, rfl, rfl⟩
  | .content line rest, p, hlive => by
    rw [Items.run, Items.lines, List.map_cons]
    refine Agrees.cons (hlive ▸ agrees_emit hterm line.isShown) fun _ q hq => ?_
    rw [← hq]
    exact rest.agrees hterm isLive q (hq ▸ hlive)
  | .assignment line rest, p, hlive => by
    rw [Items.run, Items.lines, List.map_cons]
    refine Agrees.cons (agrees_assign hterm line) fun _ q hq => ?_
    rw [← hq]
    exact rest.agrees hterm isLive q (hq ▸ hlive)
  | .chain line body others rest, p, hlive => by
    rw [Items.run, Items.lines, List.map_cons, List.map_append, List.map_append]
    refine Agrees.cons (agrees_ask hterm line.directive_eq rfl) fun holds q hq => ?_
    have hopen : q.blocks = (if holds then .ifTaken else .ifSkipped) :: p.blocks := by
      rw [hq]; cases holds <;> rfl
    have hbody := body.agrees hterm holds q (by rw [hopen]; cases holds <;> rfl)
    refine Agrees.bind hbody fun _ q hq => ?_
    rw [hopen] at hq
    have hothers := others.agrees hterm holds q _ _ hq (by cases holds <;> rfl)
    refine Agrees.bind hothers fun _ q hq => ?_
    rw [← hq]
    exact rest.agrees hterm isLive q (hq ▸ hlive)

/-- The branches after the first see only whether one was taken so far, and close their block. -/
theorem Branches.agrees (hterm : ∀ c ∈ terminator, Text.isBlank c = true) (isTaken : Bool) :
    ∀ (branches : Branches) (p : Progress) (innermost : Branch) (outer : List Branch),
      p.blocks = innermost :: outer → innermost.taken? = some isTaken →
      Agrees (fun _ => outer) ((branches.run e terminator isTaken).run p.state)
        (p.run e (branches.lines.map (·.withTerminator terminator)))
  | .elseIf line body others, p, innermost, outer, hp, htaken => by
    rw [Branches.run, Branches.lines, List.map_cons, List.map_append]
    cases isTaken with
    | true =>
      have hmove : (Marker.elseIf line.condition).move p.blocks = .go (.handled :: outer) := by
        rw [hp]; cases innermost <;> first | rfl | cases htaken
      simp only [if_true, pure_bind, Bool.true_or]
      refine Agrees.cons (agrees_pass hterm line.directive_eq hmove) fun _ q hq => ?_
      refine Agrees.bind (body.agrees hterm false q (by rw [hq]; rfl)) fun _ q' hq' => ?_
      exact others.agrees hterm true q' _ _ (hq'.trans hq) rfl
    | false =>
      have hmove : (Marker.elseIf line.condition).move p.blocks =
          .ask elseIfOpening line.condition (.elseIfTaken :: outer) (.elseIfSkipped :: outer) := by
        rw [hp]; cases innermost <;> first | rfl | cases htaken
      simp only [Bool.false_eq_true, if_false, Bool.false_or]
      refine Agrees.cons (agrees_ask hterm line.directive_eq hmove) fun holds q hq => ?_
      have hopen : q.blocks = (if holds then .elseIfTaken else .elseIfSkipped) :: outer := by
        rw [hq]; cases holds <;> rfl
      have hbody := body.agrees hterm holds q (by rw [hopen]; cases holds <;> rfl)
      refine Agrees.bind hbody fun _ q' hq' => ?_
      exact others.agrees hterm holds q' _ _ (hq'.trans hopen) (by cases holds <;> rfl)
  | .otherwise line body closing, p, innermost, outer, hp, htaken => by
    rw [Branches.run, Branches.lines, List.map_cons, List.map_append, List.map_singleton]
    have hmove : Marker.otherwise.move p.blocks =
        .go ((if isTaken then .handled else .elseTaken) :: outer) := by
      rw [hp]; cases innermost <;> cases isTaken <;> first | rfl | cases htaken
    refine Agrees.cons (agrees_pass hterm line.directive_eq hmove) fun _ q hq => ?_
    have hbody := body.agrees hterm (!isTaken) q (by rw [hq]; cases isTaken <;> rfl)
    refine Agrees.bind hbody fun _ q' hq' => ?_
    rw [Progress.run_singleton]
    exact agrees_pass hterm closing.directive_eq (by rw [hq', hq]; rfl)
  | .close closing, p, innermost, outer, hp, htaken => by
    rw [Branches.run, Branches.lines, List.map_singleton, Progress.run_singleton]
    exact agrees_pass hterm closing.directive_eq (by rw [hp]; rfl)

end

/-! ## Rendering -/

/-- The result of a template, the variables after it and the conditions that the evaluator was
given: what its items do, the outermost body being live. -/
def Items.meaning (e : Engine) (terminator : List Char) (vars : Variables) (items : Items) :
    Except Error String × Variables × List String :=
  match (items.run e terminator true).run { vars } with
  | .ok _ s => (.ok s.output, s.vars, s.calls)
  | .error error s => (.error error, s.vars, s.calls)

/-- End-markers change nothing but the open blocks, and fail only where none is open. -/
theorem run_closings (hterm : ∀ c ∈ terminator, Text.isBlank c = true) {closings : List SourceLine}
    (h : ∀ l ∈ closings, l.directive = .marker .close) (p : Progress) :
    ∃ q error?, p.run e (closings.map (·.withTerminator terminator)) = (q, error?) ∧
      q.vars = p.vars ∧ q.output = p.output ∧ q.calls = p.calls ∧
      ∀ error, error? = some error → error.kind = .directive := by
  induction closings generalizing p with
  | nil => exact ⟨p, none, rfl, rfl, rfl, rfl, by simp⟩
  | cons l closings ih =>
    obtain ⟨hl, hrest⟩ := List.forall_mem_cons.1 h
    rw [SourceLine.directive, ← SourceLine.code_withTerminator hterm] at hl
    rw [List.map_cons]
    cases hp : p.blocks with
    | nil =>
      obtain ⟨events, hstep⟩ := Progress.step_misplaced (e := e) (p := p) hl (by rw [hp]; rfl)
      rw [Progress.run_cons_of_fail hstep]
      exact ⟨_, _, rfl, rfl, rfl, rfl, by rintro error ⟨⟩; rfl⟩
    | cons innermost outer =>
      obtain ⟨events, hstep⟩ := Progress.step_go (e := e) (p := p) hl (by rw [hp]; rfl)
      rw [Progress.run_cons_of_step hstep]
      exact ih hrest _

/-- **A template means what its tree means.** The lines of a source, with the end-markers that it
lacks, being those of a tree, and its terminator being of blanks, rendering the source gives the
result, the variables and the calls of the evaluator that are read off the tree. -/
theorem render_eq_meaning (e : Engine) (vars : Variables) (source : String) (items : Items)
    (closings : List SourceLine)
    (hnewline : ∀ newline, e.dialect.newline? = some newline →
      ∀ c ∈ newline.toList, Text.isBlank c = true)
    (hclosings : ∀ l ∈ closings, l.directive = .marker .close)
    (hlines : SourceLine.ofSource source.toList ++ closings = items.lines) :
    ((e.render vars source).result, (e.render vars source).vars, (e.render vars source).calls) =
      items.meaning e (Template.terminator (e.dialect.newline?.map (·.toList)) source.toList)
        vars := by
  have hterm : ∀ c ∈ Template.terminator (e.dialect.newline?.map (·.toList)) source.toList,
      Text.isBlank c = true := by
    refine isBlank_of_mem_terminator fun newline h => ?_
    obtain ⟨s, hs, rfl⟩ := Option.map_eq_some_iff.1 h
    exact hnewline s hs
  have hagrees := items.agrees (e := e) hterm true
    (({ vars } : Progress).record (.processing source.utf8ByteSize vars.size)) rfl
  rw [← hlines, List.map_append, ← SourceLine.lines_eq_map] at hagrees
  -- The meaning starts from the state that the progress has after its first event.
  change Agrees _ ((items.run e _ true).run { vars }) _ at hagrees
  rw [Items.meaning]
  rcases hprocess : e.process vars source with ⟨q, _ | error⟩
  · obtain ⟨hresult, hvars, hcalls⟩ := Engine.render_of_ok hprocess
    obtain ⟨q', error?, hclose, hvars', houtput', hcalls', hkind⟩ :=
      run_closings (e := e) hterm hclosings q
    rw [Progress.run_append_of_ok hprocess, hclose] at hagrees
    rw [hresult, hvars, hcalls]
    cases hrun : (items.run e _ true).run { vars } with
    | ok u s =>
      rw [hrun] at hagrees
      obtain ⟨-, rfl, -⟩ := hagrees
      simp only [Progress.state, hvars', houtput', hcalls']
    | error error' s =>
      -- A tree fails at a condition only, an end-marker at its place.
      rw [hrun] at hagrees
      have hdirective := hkind error' hagrees.1
      rw [hagrees.2.2] at hdirective
      cases hdirective
  · obtain ⟨hresult, hvars, hcalls⟩ := Engine.render_of_fail hprocess
    rw [Progress.run_append_of_fail hprocess] at hagrees
    rw [hresult, hvars, hcalls]
    cases hrun : (items.run e _ true).run { vars } with
    | ok u s => rw [hrun] at hagrees; cases hagrees.1
    | error error' s =>
      rw [hrun] at hagrees
      obtain ⟨herror, rfl, -⟩ := hagrees
      cases herror
      rfl

/-- A chain in a branch that is not taken: its first branch is, the others are not, and the last
but one of them assigns. -/
def innerChain : Items :=
  .content ⟨⟨['A'], true⟩, by decide +kernel⟩ <|
  .chain ⟨⟨"#if (yes)".toList, true⟩, "yes".toList, by decide +kernel⟩
    (.content ⟨⟨"B $c".toList, true⟩, by decide +kernel⟩ .nil)
    (.elseIf ⟨⟨"#elseif (no)".toList, true⟩, "no".toList, by decide +kernel⟩
      (.assignment ⟨⟨"#set ($c = \"z\")".toList, true⟩, "$c = \"z\"".toList, by decide +kernel,
        by decide +kernel⟩ .nil)
      (.otherwise ⟨⟨"#else".toList, true⟩, by decide +kernel⟩
        (.content ⟨⟨['C'], true⟩, by decide +kernel⟩ .nil)
        ⟨⟨"#end".toList, true⟩, by decide +kernel⟩))
    .nil

/-- The same with the chain around it, whose end-marker the source lacks. -/
def outerChain : Items :=
  .chain ⟨⟨"#if ($c)".toList, true⟩, "$c".toList, by decide +kernel⟩ innerChain
    (.otherwise ⟨⟨"#else".toList, true⟩, by decide +kernel⟩
      (.content ⟨⟨"D $c".toList, false⟩, by decide +kernel⟩ .nil)
      ⟨⟨"#end".toList, false⟩, by decide +kernel⟩)
    .nil

theorem render_outerChain :
    let e : Engine := { evaluator := fun condition => .ok (.bool (condition == "yes")) }
    let source := "#if ($c)\nA\n#if (yes)\nB $c\n#elseif (no)\n#set ($c = \"z\")\n"
      ++ "#else\nC\n#end\n#else\nD $c"
    let outcome := e.render (.ofList [("c", .string "no")]) source
    SourceLine.ofSource source.toList ++ [⟨"#end".toList, false⟩] = outerChain.lines ∧
      outcome.result.toOption = some "B no\nD z" ∧ outcome.calls = ["no", "yes"] ∧
      (outcome.vars.get? "c").bind Value.text? = some "z" := by
  intro e source outcome
  have hlines :
      SourceLine.ofSource source.toList ++ [⟨"#end".toList, false⟩] = outerChain.lines := by
    decide +kernel
  have h := render_eq_meaning e (.ofList [("c", .string "no")]) source outerChain
    [⟨"#end".toList, false⟩] (by rintro newline ⟨⟩) (by decide +kernel) hlines
  simp only [Prod.ext_iff] at h
  refine ⟨hlines, ?_, ?_, ?_⟩
  · rw [h.1]; decide +kernel
  · rw [h.2.2]; decide +kernel
  · rw [h.2.1]; decide +kernel

end Stencil.Template
