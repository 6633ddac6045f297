/-
Templates one after the other.

A template that ends with a line feed and leaves no block open can be cut off: what follows it does
what it does alone, with the variables that the first part left, its output after that of the first
part, and its lines counted on. The lines are the same whether the parts are joined or not, as long
as they have one terminator (`exists_pieces_append`). And what a line does depends on the variables
and the open blocks alone, so nothing else that the first part leaves is seen later
(`Continues.run`).
-/
import Stencil.Proofs.Template.Step

namespace Stencil

/-- The error where so many more lines are in front of it. -/
def Error.later (lines : Nat) : Error → Error
  | .directive fault line excerpt => .directive fault (line + lines) excerpt
  | .condition fault line excerpt => .condition fault (line + lines) excerpt
  | error => error

namespace Error

variable {n : Nat} {error : Error}

@[simp] theorem kind_later : (error.later n).kind = error.kind := by cases error <;> rfl

@[simp] theorem message_later : (error.later n).message = error.message := by cases error <;> rfl

@[simp] theorem line?_later : (error.later n).line? = error.line?.map (· + n) := by
  cases error <;> rfl

end Error

namespace Template

/-- Up to its last line feed a text has the same lines whatever follows, one for each line feed. -/
theorem exists_pieces_append {source : List Char} (terminator : List Char)
    (h : source = [] ∨ source.getLast? = some '\n') :
    ∃ front, front.length = source.count '\n' ∧
      ∀ rest, pieces terminator (source ++ rest) = front ++ pieces terminator rest := by
  induction source with
  | nil => exact ⟨[], rfl, fun rest => rfl⟩
  | cons c tail ih =>
    simp only [reduceCtorEq, false_or] at h
    by_cases hfeed : c = '\n'
    · subst hfeed
      have htail : tail = [] ∨ tail.getLast? = some '\n' := by
        cases tail with
        | nil => exact .inl rfl
        | cons d tail => exact .inr (by simpa only [List.getLast?_cons_cons] using h)
      obtain ⟨front, hlength, hfront⟩ := ih htail
      refine ⟨terminator :: front, by simp [hlength], fun rest => ?_⟩
      simp only [List.cons_append, pieces, if_true, hfront]
    · -- The line feed at the end is in the tail, so the tail has a piece for `c` to join.
      have htail : tail.getLast? = some '\n' := by
        cases tail with
        | nil => simp only [List.getLast?_singleton, Option.some.injEq] at h; exact absurd h hfeed
        | cons d tail => simpa only [List.getLast?_cons_cons] using h
      obtain ⟨front, hlength, hfront⟩ := ih (.inr htail)
      have hpos : 0 < front.length := by
        rw [hlength]
        exact List.count_pos_iff.2 (List.mem_of_getLast? htail)
      rw [List.count_cons_of_ne hfeed]
      by_cases hreturn : c = '\r'
      · refine ⟨front, hlength, fun rest => ?_⟩
        simp only [List.cons_append, pieces, if_neg hfeed, if_pos hreturn, hfront]
      · obtain ⟨first, others, rfl⟩ := List.exists_cons_of_length_pos hpos
        refine ⟨(c :: first) :: others, by simpa using hlength, fun rest => ?_⟩
        simp only [List.cons_append, pieces, if_neg hfeed, if_neg hreturn, hfront]

namespace Progress

variable {e : Engine} {before p q : Progress}

/-- Whether `q` is what `p` is, but after something else; of the events nothing is said. -/
structure Continues (before p q : Progress) : Prop where
  vars : q.vars = p.vars
  blocks : q.blocks = p.blocks
  output : q.output = before.output ++ p.output
  count : q.count = p.count + before.count
  calls : q.calls = before.calls ++ p.calls

/-- A line does the same after something else, but that it is a later line. -/
theorem Continues.step (h : Continues before p q) (line : List Char) :
    Continues before (p.step e line).1 (q.step e line).1 ∧
      (q.step e line).2 = (p.step e line).2.map (·.later before.count) := by
  obtain ⟨hvars, hblocks, houtput, hcount, hcalls⟩ := h
  have hnext : q.count + 1 = p.count + 1 + before.count := by omega
  have hstep := stepsTo_step e p line
  generalize p.step e line = r at hstep ⊢
  cases hstep with
  | shown hd =>
    obtain ⟨_, hs⟩ := step_shown (e := e) (p := q) hd
    have hshown : q.shown e line = p.shown e line := by simp only [shown, hvars, hblocks]
    rw [hs]
    exact ⟨⟨hvars, hblocks, by simp only [houtput, hshown, String.append_assoc], hnext, hcalls⟩,
      rfl⟩
  | set hd ha =>
    obtain ⟨_, hs⟩ := step_set (e := e) (p := q) hd ha
    rw [hs]
    exact ⟨⟨by simp only [hvars], hblocks, houtput, hnext, hcalls⟩, rfl⟩
  | malformed hd ha =>
    obtain ⟨_, hs⟩ := step_malformed (e := e) (p := q) hd ha
    rw [hs, hnext]
    exact ⟨⟨hvars, hblocks, houtput, hcount, hcalls⟩, rfl⟩
  | go hd hm =>
    obtain ⟨_, hs⟩ := step_go (e := e) (p := q) hd (hblocks ▸ hm)
    rw [hs]
    exact ⟨⟨hvars, rfl, houtput, hnext, hcalls⟩, rfl⟩
  | misplaced hd hm =>
    obtain ⟨_, hs⟩ := step_misplaced (e := e) (p := q) hd (hblocks ▸ hm)
    rw [hs, hnext]
    exact ⟨⟨hvars, hblocks, houtput, hcount, hcalls⟩, rfl⟩
  | ask hd hm hj =>
    obtain ⟨_, hs⟩ := step_ask (e := e) (p := q) hd (hblocks ▸ hm) (hvars ▸ hj)
    rw [hs]
    exact ⟨⟨hvars, rfl, houtput, hnext, by simp only [hcalls, hvars, List.append_assoc]⟩, rfl⟩
  | undecided hd hm hj =>
    obtain ⟨_, hs⟩ := step_undecided (e := e) (p := q) hd (hblocks ▸ hm) (hvars ▸ hj)
    rw [hs, hnext]
    exact ⟨⟨hvars, hblocks, houtput, hcount, by simp only [hcalls, hvars, List.append_assoc]⟩, rfl⟩

theorem Continues.run (h : Continues before p q) (lines : List (List Char)) :
    Continues before (p.run e lines).1 (q.run e lines).1 ∧
      (q.run e lines).2 = (p.run e lines).2.map (·.later before.count) := by
  induction lines generalizing p q with
  | nil => exact ⟨h, rfl⟩
  | cons line rest ih =>
    obtain ⟨hnext, herror⟩ := h.step (e := e) line
    rw [Progress.run, Progress.run]
    rcases hp : p.step e line with ⟨p', error?⟩
    rcases hq : q.step e line with ⟨q', error'?⟩
    simp only [hp, hq] at hnext herror
    cases error? with
    | none =>
      simp only [Option.map_none] at herror
      subst herror
      exact ih hnext
    | some error =>
      simp only [Option.map_some] at herror
      subst herror
      exact ⟨hnext, rfl⟩

/-- The empty line behind the last line feed adds nothing. -/
theorem step_nil (e : Engine) (p : Progress) :
    ∃ events, p.step e [] = ({ p with count := p.count + 1, events }, none) := by
  have hshown : (Directive.ofCode (Text.dropEnd Text.isBlank [])).isShown = true := by decide
  obtain ⟨events, hs⟩ := step_shown (e := e) (p := p) hshown
  have hnothing : p.shown e [] = "" := by
    rw [shown]
    split <;> rfl
  exact ⟨events, by rw [hs, hnothing, String.append_empty]⟩

end Progress

end Template

namespace Engine

open Template

variable {e : Engine} {vars : Variables} {first second : String}

/-- Both parts of a source have the terminator of the whole. -/
theorem terminator_append
    (h : e.dialect.newline?.isSome = true ∨ ('\r' ∈ first.toList ↔ '\r' ∈ second.toList)) :
    let override? := e.dialect.newline?.map (·.toList)
    terminator override? (first ++ second).toList = terminator override? first.toList ∧
      terminator override? second.toList = terminator override? first.toList := by
  intro override?
  cases hnewline : e.dialect.newline? with
  | some newline => simp [override?, hnewline, terminator]
  | none =>
    simp only [hnewline, Option.isSome_none, Bool.false_eq_true, false_or] at h
    simp only [override?, hnewline, Option.map_none, terminator, Option.getD_none,
      String.toList_append, List.mem_append, ← h, or_self, and_self]

/-- Alone a template that succeeds has the lines that it has in front of others, and an empty one
behind them unless it is empty itself. -/
theorem exists_run_alone {output : String} {terminator : List Char} {front : List (List Char)}
    (hterm : Template.terminator (e.dialect.newline?.map (·.toList)) first.toList = terminator)
    (hlength : front.length = first.toList.count '\n')
    (hfront : pieces terminator first.toList = front ++ [[]])
    (hok : (e.render vars first).result = .ok output) :
    ∃ p, (({ vars } : Progress).record (.processing first.utf8ByteSize vars.size)).run e front =
        (p, none) ∧
      (e.process vars first).1.vars = p.vars ∧ (e.process vars first).1.blocks = p.blocks ∧
      (e.process vars first).1.output = p.output ∧ (e.process vars first).1.calls = p.calls := by
  generalize halone :
    ({ vars } : Progress).record (.processing first.utf8ByteSize vars.size) = alone
  obtain ⟨hnone, -⟩ := render_eq_ok_iff.1 hok
  by_cases hempty : first.toList = []
  · have hlines : e.process vars first = (alone, none) := by
      simp only [process, lines, if_pos hempty, Progress.run, ← halone]
    have hnil : front = [] := by
      rw [hempty, List.count_nil] at hlength
      exact List.length_eq_zero_iff.1 hlength
    rw [hlines, hnil]
    exact ⟨alone, rfl, rfl, rfl, rfl, rfl⟩
  · have hlines : e.process vars first = alone.run e (front ++ [[]]) := by
      rw [process, lines, if_neg hempty, hterm, hfront, halone]
    rw [hlines, Progress.run_append] at hnone ⊢
    rcases hrun : alone.run e front with ⟨p, _ | error⟩
    · obtain ⟨events, hnil⟩ := Progress.step_nil e p
      simp only [Progress.run_singleton, hnil]
      exact ⟨p, rfl, rfl, rfl, rfl, rfl⟩
    · simp only [hrun, reduceCtorEq] at hnone

/-- A template in front of more lines: it is passed, one line for each of its line feeds, and what
it leaves is what it leaves alone. -/
theorem exists_run_front {output : String} {terminator : List Char}
    (hterm : Template.terminator (e.dialect.newline?.map (·.toList)) first.toList = terminator)
    (hends : first = "" ∨ first.toList.getLast? = some '\n')
    (hok : (e.render vars first).result = .ok output) (start : Progress)
    (hstart : Progress.Continues {} { vars } start) :
    ∃ front q, (∀ rest, pieces terminator (first.toList ++ rest) =
        front ++ pieces terminator rest) ∧
      start.run e front = (q, none) ∧ q.vars = (e.render vars first).vars ∧
      q.blocks = (e.process vars first).1.blocks ∧ q.output = output ∧
      q.count = first.toList.count '\n' ∧ q.calls = (e.render vars first).calls := by
  have hends' : first.toList = [] ∨ first.toList.getLast? = some '\n' := by
    simpa only [String.toList_eq_nil_iff] using hends
  obtain ⟨front, hlength, hfront⟩ := exists_pieces_append terminator hends'
  have hwhole := hfront []
  rw [List.append_nil, pieces] at hwhole
  obtain ⟨p, hp, hvars, hblocks, houtput, hcalls⟩ := exists_run_alone hterm hlength hwhole hok
  have hsame : Progress.Continues {}
      (({ vars } : Progress).record (.processing first.utf8ByteSize vars.size)) start :=
    ⟨hstart.vars, hstart.blocks, hstart.output, hstart.count, hstart.calls⟩
  obtain ⟨hq, herror⟩ := hsame.run (e := e) front
  rw [hp] at hq herror
  refine ⟨front, _, hfront, Prod.ext rfl herror, ?_, ?_, ?_, ?_, ?_⟩
  · rw [hq.vars, render_vars, hvars]
  · rw [hq.blocks, hblocks]
  · rw [hq.output, String.empty_append, ← houtput, (render_eq_ok_iff.1 hok).2]
  · rw [hq.count, Progress.count_of_run hp, hlength]
    exact Nat.zero_add _
  · rw [hq.calls, List.nil_append, render_calls, hcalls]

theorem render_empty (e : Engine) (vars : Variables) :
    (e.render vars "").result = .ok "" ∧ (e.render vars "").vars = vars ∧
      (e.render vars "").calls = [] := by
  have hnothing : e.process vars "" =
      (({ vars } : Progress).record (.processing 0 vars.size), none) := rfl
  exact render_of_ok hnothing

/-- **Templates are processed one after the other.** Let a template that is empty or ends with a
line feed succeed and leave no block open, and let a terminator be asked for, or carriage returns
stand in both or in none of it and another template. Then the two joined do what the second does
alone with the variables that the first leaves: they succeed just if it does, with its output after
that of the first, and else fail with its error, so many lines later as the first has line feeds.
The variables are those that it leaves, and the conditions asked for those of both. -/
theorem render_append {output : String}
    (hends : first = "" ∨ first.toList.getLast? = some '\n')
    (hnewline : e.dialect.newline?.isSome = true ∨
      ('\r' ∈ first.toList ↔ '\r' ∈ second.toList))
    (hok : (e.render vars first).result = .ok output)
    (hclosed : (e.process vars first).1.blocks = []) :
    let before := e.render vars first
    let after := e.render before.vars second
    let whole := e.render vars (first ++ second)
    whole.result =
        (match after.result with
        | .ok more => .ok (output ++ more)
        | .error error => .error (error.later (first.toList.count '\n'))) ∧
      whole.vars = after.vars ∧ whole.calls = before.calls ++ after.calls := by
  intro before after whole
  obtain ⟨hterm, hterm'⟩ := terminator_append hnewline
  obtain ⟨front, q, hfront, hrun, hvars, hblocks, houtput, hcount, hcalls⟩ :=
    exists_run_front rfl hends hok
      (({ vars } : Progress).record (.processing (first ++ second).utf8ByteSize vars.size))
      ⟨rfl, rfl, rfl, rfl, rfl⟩
  -- With nothing behind it the first part is left with an empty line, which the second has not.
  by_cases hempty : second = ""
  · subst hempty
    obtain ⟨hresult, hafter, hnone⟩ := render_empty e before.vars
    have hwhole : whole = before := congrArg (e.render vars) String.append_empty
    rw [hwhole]
    refine ⟨?_, hafter.symm, by rw [hnone]; exact (List.append_nil _).symm⟩
    simp only [after, hresult]
    exact hok.trans (congrArg Except.ok String.append_empty.symm)
  · have hne : second.toList ≠ [] := by simpa only [ne_eq, String.toList_eq_nil_iff] using hempty
    have hwhole : e.process vars (first ++ second) =
        q.run e (lines (e.dialect.newline?.map (·.toList)) second.toList) := by
      have hne' : (first ++ second).toList ≠ [] := by simp [hempty]
      rw [process, lines, if_neg hne', hterm, String.toList_append, hfront,
        Progress.run_append_of_ok hrun, lines, if_neg hne, hterm']
    have hstart : Progress.Continues q (({ vars := before.vars } : Progress).record
        (.processing second.utf8ByteSize before.vars.size)) q := by
      refine ⟨hvars, by rw [hblocks, hclosed]; rfl, String.append_empty.symm, ?_, ?_⟩
      · exact (Nat.zero_add _).symm
      · exact (List.append_nil _).symm
    obtain ⟨hlast, herror⟩ :=
      hstart.run (e := e) (lines (e.dialect.newline?.map (·.toList)) second.toList)
    rw [← hwhole] at hlast herror
    change Progress.Continues q (e.process before.vars second).1 _ at hlast
    change _ = (e.process before.vars second).2.map _ at herror
    refine ⟨?_, ?_, ?_⟩
    · rcases hp : e.process before.vars second with ⟨p, _ | error⟩
      · rw [hp] at hlast herror
        simp only [after, (render_of_ok hp).1]
        exact render_eq_ok_iff.2 ⟨herror, by rw [hlast.output, houtput]⟩
      · rw [hp] at hlast herror
        simp only [after, (render_of_fail hp).1]
        exact render_eq_error_iff.2 (by rw [herror, hcount]; rfl)
    · rw [render_vars, render_vars, hlast.vars]
    · have hmore := render_calls e before.vars second
      rw [render_calls, hlast.calls, hcalls, ← hmore]

/-- Carriage returns and a condition in both parts; the second has an end-marker too many, and asks
for the variable that the first assigns. -/
theorem render_append_extra_end :
    let e : Engine := { evaluator := fun _ => .ok (.bool true) }
    let vars : Variables := .ofList [("x", .integer 1)]
    let first := "#set ($y = b)\r\n#if ($x)\n$y\n#end\n"
    let second := "#if ($y)\r\n$x\n#end\n#end\n"
    (e.render vars first).result = .ok "b\r\n" ∧
      (e.render vars (first ++ second)).failure? =
        some (.directive, "unexpected `#end`", some 8) ∧
      (e.render vars (first ++ second)).calls = ["1", "b"] := by
  intro e vars first second
  have hok : (e.render vars first).result = .ok "b\r\n" := by
    have hoption : (e.render vars first).result.toOption = some "b\r\n" := by decide +kernel
    cases h : (e.render vars first).result with
    | ok output => rw [h] at hoption; exact congrArg _ (Option.some.inj hoption)
    | error error => rw [h] at hoption; cases hoption
  have hends : first = "" ∨ first.toList.getLast? = some '\n' := .inr (by decide +kernel)
  have hreturns : '\r' ∈ first.toList ↔ '\r' ∈ second.toList := by decide +kernel
  have hclosed : (e.process vars first).1.blocks = [] := by decide +kernel
  obtain ⟨hresult, -, hcalls⟩ := render_append hends (.inr hreturns) hok hclosed
  have hafter : (e.render (e.render vars first).vars second).failure? =
      some (.directive, "unexpected `#end`", some 4) := by decide +kernel
  refine ⟨hok, ?_, ?_⟩
  · rw [Outcome.failure?] at hafter ⊢
    rw [hresult]
    cases h : (e.render (e.render vars first).vars second).result with
    | ok more => rw [h] at hafter; cases hafter
    | error error =>
      rw [h] at hafter
      simp only [Option.some.injEq, Error.gist, Prod.mk.injEq] at hafter
      obtain ⟨hkind, hmessage, hline⟩ := hafter
      simp only [Error.gist, Error.kind_later, Error.message_later, Error.line?_later, hkind,
        hmessage, hline]
      decide +kernel
  · rw [hcalls]
    decide +kernel

end Engine

end Stencil
