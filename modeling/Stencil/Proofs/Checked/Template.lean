/-
A template processed in place: from a cursor in the source, by spans of its lines, and with a stack
of states.

Whatever may go wrong with these is a hazard, and none is ever met: where the cursor stands in front
of the lines that are left and the stack is that of the open blocks, a line does what
`Progress.step` does (`run_line`) and keeps it so. Hence the whole does what `Engine.render` does
(`render_eq`).
-/
import Stencil.Proofs.Checked.Stack
import Stencil.Proofs.Template.History

namespace Stencil.Checked

open Template Text

/-! ## Processing -/

/-- What there is at any time of processing. -/
structure Renderer where
  /-- Where the next line starts. -/
  cursor : Option Nat
  stack : List State
  vars : Variables
  output : String := ""
  count : Nat := 0
  calls : List String := []
  events : List Event := []

/-- A part of processing, which may fail. What it has changed by then stays changed. -/
abbrev Rendering (α : Type) : Type := ExceptT Error (StateT Renderer Checked) α

/-- Puts the value under the name: in its place, or at the end. -/
def insert (vars : Variables) (name : String) (value : Value) : Checked Variables :=
  match vars.keys.findIdx? (· == name) with
  | some i => if i < vars.entries.length then return vars.insert name value else throw .missing
  | none => return vars.insert name value

def record (event : Event) : Rendering Unit :=
  modify fun r => { r with events := r.events ++ [event] }

/-- Whether the condition in a span of a line holds. -/
def condition (e : Engine) (number : Nat) (code : List Char) (span : Span) : Rendering Bool := do
  let span ← trimmed code span
  let text ← cut code span.start span.stop
  let call := String.ofList (substitute e.dialect.sigil (← get).vars text)
  modify fun r => { r with calls := r.calls ++ [call] }
  match e.judge call with
  | .ok b => return b
  | .error fault => throw (.condition fault number (.of code span))

/-- A line of content. -/
def emit (e : Engine) (text : List Char) : Rendering Unit := do
  let r ← get
  if (← top r.stack).isLive then
    let shown := substitute e.dialect.sigil r.vars text
    set { r with output := r.output ++ String.ofList shown }

/-- An assignment, its argument being in a span of the line. -/
def assign (e : Engine) (number : Nat) (code : List Char) (span : Span) : Rendering Unit := do
  let argument ← cut code span.start span.stop
  match Assignment.ofArgument? e.dialect.sigil argument with
  | none => throw (.directive .malformedSet number (.of code span))
  | some a =>
    let name := String.ofList a.name
    record (.setting number name)
    let vars ← insert (← get).vars name (.string (String.ofList a.text))
    modify ({ · with vars })

/-- A marker, its condition being in a span of the line. -/
def mark (e : Engine) (number : Nat) (code : List Char) (m : Marker) (span : Span) :
    Rendering Unit := do
  let top ← top (← get).stack
  let t ← transition top m (condition e number code span)
  if t = .unexpected then
    throw (.directive (.misplaced m) number (.of code m.keywordSpan))
  let stack ← t.apply (← get).stack
  modify ({ · with stack })

/-- What a line asks for. -/
def act (e : Engine) (number : Nat) (code text : List Char) : Line → Rendering Unit
  | .content => emit e text
  | .unsupported name => do
    record (.unsupported number name)
    emit e text
  | .set span => assign e number code span
  | .marker m span => mark e number code m span

/-- One line. -/
def line (e : Engine) (text : List Char) : Rendering Unit := do
  let number := (← get).count + 1
  let code := dropEnd isBlank text
  let line ← classify code
  record (.line number line.name)
  act e number code text line
  modify ({ · with count := number })

/-- One turn: the next line, if there is one, is processed. -/
def turn (e : Engine) (source : List Char) : Rendering Bool := do
  let newline := terminator (e.dialect.newline?.map (·.toList)) source
  match ← nextLine source newline (← get).cursor with
  | none => return false
  | some (text, cursor) =>
    modify ({ · with cursor })
    line e text
    return true

/-- Turns, as long as there is a line. -/
def turns (e : Engine) (source : List Char) (r : Renderer) :
    Checked (Except Error Unit × Renderer) := do
  match ← (turn e source).run.run r with
  | (.error error, r') => return (.error error, r')
  | (.ok false, r') => return (.ok (), r')
  | (.ok true, r') =>
    if ahead source r'.cursor < ahead source r.cursor then turns e source r' else throw .endless
termination_by ahead source r.cursor

/-- What there is at the start of a source. -/
def Renderer.start (vars : Variables) (source : String) : Renderer where
  cursor := if source.toList = [] then none else some 0
  stack := [.root]
  vars := vars
  events := [.processing source.utf8ByteSize vars.size]

def render (e : Engine) (vars : Variables) (source : String) : Checked (Outcome String) := do
  let (result, r) ← turns e source.toList (.start vars source)
  match result with
  | .error error => return ⟨.error error, r.vars, r.calls, r.events⟩
  | .ok () =>
    let blocks ← depth r.stack
    let events := if 0 < blocks then r.events ++ [.stillOpen blocks] else r.events
    return ⟨.ok r.output, r.vars, r.calls,
      events ++ [.processed r.count r.output.utf8ByteSize]⟩

/-! ## How a part of processing runs -/

section Run

variable {α β : Type} {r : Renderer}

@[simp] theorem run_pure (a : α) : (pure a : Rendering α).run.run r = pure (.ok a, r) := rfl

@[simp] theorem run_get : (get : Rendering Renderer).run.run r = pure (.ok r, r) := rfl

@[simp] theorem run_set (r' : Renderer) :
    (set r' : Rendering Unit).run.run r = pure (.ok (), r') := rfl

@[simp] theorem run_modify (f : Renderer → Renderer) :
    (modify f : Rendering Unit).run.run r = pure (.ok (), f r) := rfl

@[simp] theorem run_lift (c : Checked α) :
    (liftM c : Rendering α).run.run r = c >>= fun a => pure (.ok a, r) := by
  change (ExceptT.lift (StateT.lift c)).run.run r = _
  simp [ExceptT.run_lift]

@[simp] theorem run_bind (x : Rendering α) (f : α → Rendering β) :
    (x >>= f).run.run r = x.run.run r >>= fun s =>
      match s.1 with
      | .ok a => (f a).run.run s.2
      | .error error => pure (.error error, s.2) := by
  rw [ExceptT.run_bind, StateT.run_bind]
  congr
  funext s
  cases s.1 <;> rfl

end Run

/-! ## No hazard is met -/

/-- What there is of a progress, its open blocks being on a stack. -/
def Renderer.of (cursor : Option Nat) (p : Progress) : Renderer where
  cursor := cursor
  stack := stackOf p.blocks
  vars := p.vars
  output := p.output
  count := p.count
  calls := p.calls
  events := p.events

@[simp] theorem Renderer.stack_of (cursor : Option Nat) (p : Progress) :
    (Renderer.of cursor p).stack = stackOf p.blocks := rfl

/-- How a part of processing ends that leads to a progress, or fails there. -/
def ends (cursor : Option Nat) (result : Progress × Option Error) : Except Error Unit × Renderer :=
  (match result.2 with
    | none => .ok ()
    | some error => .error error, .of cursor result.1)

@[simp] theorem insert_eq (vars : Variables) (name : String) (value : Value) :
    insert vars name value = pure (vars.insert name value) := by
  rw [insert]
  split
  · rename_i i hi
    have hlt := (List.findIdx?_eq_some_iff_findIdx_eq.1 hi).1
    rw [if_pos (by simpa [Variables.keys] using hlt)]
  · rfl

variable {e : Engine} {cursor : Option Nat} {p : Progress} {code text : List Char}

theorem run_emit :
    (emit e text).run.run (.of cursor p) = pure (ends cursor (p.emit e text, none)) := by
  cases hlive : isLive p.blocks <;>
    simp [emit, Renderer.of, ends, Progress.emit, isLive_topOf, hlive]

theorem run_record (event : Event) :
    (record event).run.run (.of cursor p) = pure (.ok (), .of cursor (p.record event)) := rfl

theorem run_assign {argument : List Char}
    (h : (Directive.ofCode code) = .set argument) :
    (assign e (p.count + 1) code (argumentSpan setOpening argument)).run.run (.of cursor p) =
      pure (ends cursor (p.assign e code argument)) := by
  have hset : (Directive.ofCode code).withArgument? = some (setOpening, argument) := by
    rw [h]
    rfl
  have hcut := cut_argument hset
  simp only [assign, run_bind, run_lift, hcut, pure_bind, Progress.assign]
  cases Assignment.ofArgument? e.dialect.sigil argument with
  | none => rfl
  | some a =>
    simp only [run_bind, run_record, pure_bind, run_get, run_lift, insert_eq]
    rfl

theorem run_condition {opening : String} {argument : List Char}
    (h : (Directive.ofCode code).withArgument? = some (opening, argument)) :
    (condition e (p.count + 1) code (argumentSpan opening argument)).run.run (.of cursor p) =
      pure ((match e.judge (Progress.call e p.vars opening argument) with
        | .ok b => .ok b
        | .error fault =>
          .error (.condition fault (p.count + 1) (.of code (conditionAt opening argument).2))),
        .of cursor { p with calls := p.calls ++ [Progress.call e p.vars opening argument] }) := by
  simp only [condition, run_bind, run_lift, trimmed_eq h, cut_condition h, pure_bind, run_get,
    run_modify]
  cases hj : e.judge (Progress.call e p.vars opening argument) with
  | ok b =>
    rw [Progress.call] at hj
    simp only [Renderer.of, hj]
    rfl
  | error fault =>
    rw [Progress.call] at hj
    simp only [Renderer.of, hj]
    rfl

/-- A marker with a condition is written with it, and its span is that of the condition. -/
theorem withArgument?_of_ask {m : Marker} {blocks ifSo ifNot : List Branch} {opening : String}
    {argument : List Char} (h : m.move blocks = .ask opening argument ifSo ifNot) :
    (Directive.marker m).withArgument? = some (opening, argument) ∧
      Line.of (.marker m) = .marker m (argumentSpan opening argument) := by
  cases m with
  | ifHolds condition =>
    cases h
    exact ⟨rfl, rfl⟩
  | elseIf condition =>
    cases blocks with
    | nil => cases h
    | cons innermost outer => cases innermost <;> cases h <;> exact ⟨rfl, rfl⟩
  | otherwise =>
    cases blocks with
    | nil => cases h
    | cons innermost outer => cases innermost <;> cases h
  | close => cases blocks <;> cases h

theorem run_mark {m : Marker} {span : Span} (h : Directive.ofCode code = .marker m)
    (hspan : Line.of (.marker m) = .marker m span) :
    (mark e (p.count + 1) code m span).run.run (.of cursor p) =
      pure (ends cursor (p.mark e code m)) := by
  simp only [mark, run_bind, run_get, pure_bind, run_lift, Renderer.stack_of, top_stackOf]
  cases hm : m.move p.blocks with
  | go next =>
    obtain ⟨t, ht, hne, happly⟩ := transition_go hm (condition e (p.count + 1) code span)
    simp only [Progress.mark, hm, ht, run_pure, pure_bind, if_neg hne, run_bind, run_get, run_lift,
      Renderer.stack_of, happly]
    rfl
  | misplaced =>
    rw [Progress.mark, hm, transition_misplaced hm]
    rfl
  | ask opening argument ifSo ifNot =>
    obtain ⟨hargument, hline⟩ := withArgument?_of_ask hm
    rw [hline, Line.marker.injEq] at hspan
    obtain ⟨-, rfl⟩ := hspan
    obtain ⟨t, ht, happly⟩ := transition_ask (m := Rendering) hm
    simp only [ht, run_bind, run_condition (h ▸ hargument), pure_bind, run_pure]
    cases hj : e.judge (Progress.call e p.vars opening argument) with
    | ok b =>
      simp only [if_neg (happly b).1, run_bind, run_get, run_lift, pure_bind,
        Renderer.stack_of, (happly b).2]
      rw [Progress.call] at hj
      simp only [Progress.mark, hm, hj]
      rfl
    | error fault =>
      rw [Progress.call] at hj
      simp only [Progress.mark, hm, hj]
      rfl

/-- What a directive does to a progress before its line is counted. -/
def acted (e : Engine) (p : Progress) (code text : List Char) : Directive → Progress × Option Error
  | .content => (p.emit e text, none)
  | .unsupported name => ((p.record (.unsupported p.number name)).emit e text, none)
  | .set argument => p.assign e code argument
  | .marker m => p.mark e code m

theorem count_acted (d : Directive) : (acted e p code text d).1.count = p.count := by
  cases d with
  | content =>
    rw [acted, Progress.emit]
    split <;> rfl
  | unsupported name =>
    rw [acted, Progress.emit]
    split <;> rfl
  | set argument =>
    rw [acted, Progress.assign]
    split <;> rfl
  | marker m =>
    rw [acted, Progress.mark]
    split
    · rfl
    · rfl
    · simp only
      split <;> rfl

theorem run_act {d : Directive} (h : Directive.ofCode code = d) :
    (act e (p.count + 1) code text (Line.of d)).run.run (.of cursor p) =
      pure (ends cursor (acted e p code text d)) := by
  cases d with
  | content => exact run_emit
  | unsupported name =>
    simp only [Line.of, act, run_bind, run_record, pure_bind, run_emit]
    rfl
  | set argument => exact run_assign h
  | marker m =>
    obtain ⟨span, hspan⟩ : ∃ span, Line.of (.marker m) = .marker m span := by
      cases m <;> exact ⟨_, rfl⟩
    rw [hspan]
    exact run_mark h hspan

theorem step_eq_acted (h : dropEnd isBlank text = code) {d : Directive}
    (hd : Directive.ofCode code = d) :
    p.step e text =
      match (acted e (p.record (.line (p.count + 1) d.name)) code text d).2 with
      | none => ((acted e (p.record (.line (p.count + 1) d.name)) code text d).1.next, none)
      | some error =>
        ((acted e (p.record (.line (p.count + 1) d.name)) code text d).1, some error) := by
  rw [Progress.step, h, hd]
  cases d <;> rfl

/-- A line does what it does to a progress. -/
theorem run_line :
    (line e text).run.run (.of cursor p) = pure (ends cursor (p.step e text)) := by
  generalize hcode : dropEnd isBlank text = code
  generalize hd : Directive.ofCode code = d
  generalize hq : p.record (.line (p.count + 1) d.name) = q
  have hcount : q.count = p.count := hq ▸ rfl
  have hact : (act e (p.count + 1) code text (Line.of d)).run.run (.of cursor q) =
      pure (ends cursor (acted e q code text d)) := hcount ▸ run_act hd
  have hkept : (acted e q code text d).1.count = p.count := hcount ▸ count_acted d
  rw [step_eq_acted hcode hd, hq]
  simp only [line, run_bind, run_get, pure_bind, run_lift, hcode, classify_eq, hd, Line.name_of]
  rw [show (Renderer.of cursor p).count = p.count from rfl, run_record, hq]
  simp only [pure_bind, hact]
  generalize acted e q code text d = result at hkept
  obtain ⟨r, error?⟩ := result
  cases error? with
  | none =>
    have hr : r.count = p.count := hkept
    simp only [ends, run_modify, ← hr]
    rfl
  | some error => rfl

/-! ## All lines -/

variable {source : List Char} {left : List (List Char)}

theorem turn_nil
    (h : Stands source (terminator (e.dialect.newline?.map (·.toList)) source) cursor []) :
    (turn e source).run.run (.of cursor p) = pure (.ok false, .of cursor p) := by
  simp only [turn, run_bind, run_get, pure_bind, run_lift]
  rw [show (Renderer.of cursor p).cursor = cursor from rfl, nextLine_nil h]
  rfl

/-- A turn does what the next line does to a progress. -/
theorem turn_cons
    (h : Stands source (terminator (e.dialect.newline?.map (·.toList)) source) cursor
      (text :: left)) :
    ∃ next, Stands source (terminator (e.dialect.newline?.map (·.toList)) source) next left ∧
      ahead source next < ahead source cursor ∧
      (turn e source).run.run (.of cursor p) =
        pure ((ends next (p.step e text)).1.map fun _ => true, .of next (p.step e text).1) := by
  obtain ⟨next, hnext, hstands, hahead⟩ := nextLine_cons h
  refine ⟨next, hstands, hahead, ?_⟩
  have hmoved : ({ Renderer.of cursor p with cursor := next } : Renderer) = .of next p := rfl
  simp only [turn, run_bind, run_get, pure_bind, run_lift]
  rw [show (Renderer.of cursor p).cursor = cursor from rfl, hnext]
  simp only [pure_bind, run_bind, run_modify, hmoved, run_line]
  cases hs : p.step e text with
  | mk q error? => cases error? <;> rfl

theorem turns_eq
    (h : Stands source (terminator (e.dialect.newline?.map (·.toList)) source) cursor left) :
    ∃ next, turns e source (.of cursor p) = pure (ends next (p.run e left)) := by
  induction left generalizing cursor p with
  | nil =>
    refine ⟨cursor, ?_⟩
    rw [turns, turn_nil h]
    rfl
  | cons text left ih =>
    obtain ⟨next, hstands, hahead, hturn⟩ := turn_cons (p := p) h
    rw [turns, hturn]
    cases hs : p.step e text with
    | mk q error? =>
      cases error? with
      | none =>
        rw [Progress.run_cons_of_step hs]
        obtain ⟨last, hlast⟩ := ih (p := q) hstands
        exact ⟨last, (if_pos hahead).trans hlast⟩
      | some error =>
        rw [Progress.run_cons_of_fail hs]
        exact ⟨next, rfl⟩

/-- Processing in place meets no hazard, comes to an end, and renders the template. -/
theorem render_eq (e : Engine) (vars : Variables) (source : String) :
    render e vars source = pure (e.render vars source) := by
  generalize hstart : (({ vars } : Progress).record (.processing source.utf8ByteSize vars.size)) = p
  have hof : Renderer.start vars source =
      .of (if source.toList = [] then none else some 0) p := hstart ▸ rfl
  obtain ⟨next, hrun⟩ := turns_eq (e := e) (p := p)
    (stands_start source.toList _ (e.dialect.newline?.map (·.toList)) rfl)
  have hprocess : e.process vars source =
    p.run e (lines (e.dialect.newline?.map (·.toList)) source.toList) := hstart ▸ rfl
  rw [← hprocess] at hrun
  rw [render, hof, hrun, pure_bind, Engine.render]
  cases e.process vars source with
  | mk q error? =>
    cases error? with
    | some error => rfl
    | none =>
      simp only [ends, Renderer.stack_of, depth_stackOf, pure_bind]
      cases hblocks : q.blocks with
      | nil => simp [Renderer.of, Progress.record]
      | cons innermost outer => simp [Renderer.of, Progress.record]

/-! ## The stack at any time -/

/-- What there may be between two lines. -/
inductive Reachable (e : Engine) (vars : Variables) (source : String) : Renderer → Prop
  | start : Reachable e vars source (.start vars source)
  | turn {r r' : Renderer} {more : Bool} (h : Reachable e vars source r)
      (hturn : (turn e source.toList).run.run r = pure (.ok more, r')) :
      Reachable e vars source r'

/-- Whether a line opens a block. -/
def opens (text : List Char) : Bool :=
  match Directive.ofCode (dropEnd isBlank text) with
  | .marker (.ifHolds _) => true
  | _ => false

/-- Whether a line closes a block. -/
def closes (text : List Char) : Bool :=
  match Directive.ofCode (dropEnd isBlank text) with
  | .marker .close => true
  | _ => false

theorem length_blocks_of_step {q : Progress} (h : p.step e text = (q, none)) :
    q.blocks.length + (closes text).toNat = p.blocks.length + (opens text).toNat := by
  have hstep := Progress.stepsTo_step e p text
  rw [h] at hstep
  cases hstep with
  | shown hd =>
    cases hdirective : Directive.ofCode (dropEnd isBlank text) with
    | marker m => rw [hdirective] at hd; cases hd
    | _ => simp [opens, closes, hdirective]
  | set hd ha => simp [opens, closes, hd]
  | @go m next _ hd hm =>
    cases hblocks : p.blocks with
    | nil => rw [hblocks] at hm; cases m <;> cases hm
    | cons innermost outer =>
      rw [hblocks] at hm
      by_cases hclose : m = .close
      · subst hclose
        cases hm
        simp [opens, closes, hd]
      · obtain ⟨branch, rfl, -⟩ := Marker.go_cases hm hclose
        cases m with
        | ifHolds condition => cases hm
        | close => exact absurd rfl hclose
        | _ => simp [opens, closes, hd]
  | @ask _ _ _ _ _ b _ hd hm hj =>
    rcases Marker.ask_cases hm with ⟨condition, rfl, rfl, rfl⟩ |
      ⟨condition, innermost, outer, rfl, hblocks, rfl, rfl, -⟩
    · cases b <;> simp [opens, closes, hd]
    · cases b <;> simp [opens, closes, hd, hblocks]

/-- The blocks that are open are those that were opened and not closed. -/
theorem length_blocks_of_run {q : Progress} (h : p.run e left = (q, none)) :
    q.blocks.length + left.countP closes = p.blocks.length + left.countP opens := by
  induction left generalizing p with
  | nil =>
    cases h
    rfl
  | cons text left ih =>
    obtain ⟨r, hstep, hrun⟩ := Progress.exists_of_run_cons h
    have hone := length_blocks_of_step hstep
    have hrest := ih hrun
    simp only [List.countP_cons]
    cases hopens : opens text <;> cases hcloses : closes text <;>
      simp [hopens, hcloses] at hone ⊢ <;> omega

/-- What is reached is what a run comes to after so many lines, the cursor being in front of the
others. -/
theorem Reachable.exists_progress {vars : Variables} {source : String} {r : Renderer}
    (h : Reachable e vars source r) :
    ∃ cursor p, r = .of cursor p ∧
      Stands source.toList (terminator (e.dialect.newline?.map (·.toList)) source.toList) cursor
        ((lines (e.dialect.newline?.map (·.toList)) source.toList).drop p.count) ∧
      (({ vars } : Progress).record (.processing source.utf8ByteSize vars.size)).run e
        ((lines (e.dialect.newline?.map (·.toList)) source.toList).take p.count) = (p, none) := by
  generalize hlines : lines (e.dialect.newline?.map (·.toList)) source.toList = lines
  induction h with
  | start =>
    refine ⟨if source.toList = [] then none else some 0,
      ({ vars } : Progress).record (.processing source.utf8ByteSize vars.size), rfl, ?_, rfl⟩
    rw [← hlines]
    exact stands_start _ _ _ rfl
  | turn h hturn ih =>
    obtain ⟨cursor, p, rfl, hstands, hrun⟩ := ih
    cases hleft : lines.drop p.count with
    | nil =>
      rw [hleft] at hstands
      rw [turn_nil hstands] at hturn
      cases pure_inj.1 hturn
      exact ⟨cursor, p, rfl, hleft ▸ hstands, hrun⟩
    | cons text left =>
      rw [hleft] at hstands
      obtain ⟨next, hnext, -, hdone⟩ := turn_cons (p := p) hstands
      rw [hdone] at hturn
      have hresult := pure_inj.1 hturn
      cases hs : p.step e text with
      | mk q error? =>
        rw [hs] at hresult
        cases error? with
        | some error => cases hresult
        | none =>
          cases hresult
          have hcount := Progress.count_of_step hs
          have htake : lines.take q.count = lines.take p.count ++ [text] := by
            rw [hcount, List.take_add, hleft]
            rfl
          have hdrop : lines.drop q.count = left := by
            rw [hcount, ← List.drop_drop, hleft]
            rfl
          refine ⟨next, q, rfl, hdrop ▸ hnext, ?_⟩
          rw [htake, Progress.run_append_of_ok hrun, Progress.run_singleton, hs]

/-- The lines that are processed by now. -/
def Renderer.processed (e : Engine) (source : String) (r : Renderer) : List (List Char) :=
  (lines (e.dialect.newline?.map (·.toList)) source.toList).take r.count

/-- At any time the stack has the root at its bottom, branches of blocks above it and nothing else,
and as many blocks are open as lines opened one more than lines closed one. -/
theorem Reachable.stack_eq {vars : Variables} {source : String} {r : Renderer}
    (h : Reachable e vars source r) :
    ∃ blocks : List Branch, r.stack = stackOf blocks ∧
      blocks.length + (r.processed e source).countP closes =
        (r.processed e source).countP opens := by
  obtain ⟨cursor, p, rfl, -, hrun⟩ := h.exists_progress
  have hlength := length_blocks_of_run hrun
  exact ⟨p.blocks, rfl, by simpa [Progress.record, Renderer.processed, Renderer.of] using hlength⟩

end Stencil.Checked
