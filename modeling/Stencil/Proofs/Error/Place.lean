/-
The places that errors show.

Rendering shows the line that fails without the blanks at its end, and points to the argument of an
assignment, the keyword of a marker, or a condition without the blanks around it
(`pointsAt_of_step`); all of these are within what is shown. An expression is shown without the line
terminators at its end, while what fails may be behind them, at the end of the text; then as much of
it is underlined as there is (`shows_of`). So every error shows a place that is there, and can be put
into words (`errors_point_into_code`).
-/
import Stencil.Proofs.Checked.Report
import Stencil.Proofs.Checked.Template
import Stencil.Proofs.Expression.Place
import Stencil.Proofs.Text.Trimming

namespace Stencil

open Text Template Checked

/-! ## Excerpts -/

/-- Whether an excerpt underlines a span: as much of it as lies in the code, which is all of it if
nothing of it was cut off, from one place between two characters to a later one. -/
structure Excerpt.Shows (e : Excerpt) (span : Span) : Prop where
  start_le_stop : e.span.start ≤ e.span.stop
  stop_le : e.span.stop ≤ byteSize e.code
  start_between : isBoundary e.span.start e.code = true
  stop_between : isBoundary e.span.stop e.code = true
  span_eq : e.span = ⟨min span.start (byteSize e.code), min span.stop (byteSize e.code)⟩
  span_eq_iff : e.span = span ↔ span.stop ≤ byteSize e.code

theorem Excerpt.Shows.within {e : Excerpt} {span : Span} (h : e.Shows span) :
    e.span.Within e.code :=
  Span.within_iff.2 ⟨h.start_le_stop, h.start_between, h.stop_between⟩

/-- What is within a text is shown by the excerpt of the text. -/
theorem Excerpt.shows_of {text : List Char} {span : Span} (h : span.Within text) :
    (Excerpt.of text span).Shows span := by
  obtain ⟨tail, htail, -⟩ := (trimmed_dropEnd (fun c => c == '\r' || c == '\n') text).tail
  have hle := h.start_le_stop
  have hspan : (Excerpt.of text span).span =
      ⟨min span.start (byteSize (shown text)), min span.stop (byteSize (shown text))⟩ := by
    simp only [Excerpt.of, Span.mk.injEq, true_and]
    omega
  rw [htail] at h
  have hwithin : (Excerpt.of text span).span.Within (shown text) := hspan ▸ h.clip
  obtain ⟨-, hstart, hstop⟩ := Span.within_iff.1 hwithin
  refine ⟨hwithin.start_le_stop, hwithin.stop_le, hstart, hstop, hspan, ?_⟩
  constructor
  · intro heq
    exact heq ▸ hwithin.stop_le
  · exact span_of_eq_self hle

/-- Code that ends in no blank is shown as it is, and so is what is within it. -/
theorem Excerpt.of_trimmed {line code : List Char} (hcode : Trimmed isBlank line code) {span : Span}
    (h : span.Within code) : Excerpt.of code span = ⟨code, span⟩ := by
  have hshown : shown code = code := by
    refine dropEnd_eq_self fun c hc => ?_
    have hblank := hcode.last c hc
    rw [Bool.or_eq_false_iff, beq_eq_false_iff_ne, beq_eq_false_iff_ne]
    constructor
    · rintro rfl
      exact absurd hblank (by decide)
    · rintro rfl
      exact absurd hblank (by decide)
  have hspan := span_of_eq_self h.start_le_stop (hshown.symm ▸ h.stop_le)
  calc Excerpt.of code span
      = ⟨shown code, (Excerpt.of code span).span⟩ := rfl
    _ = ⟨code, span⟩ := by rw [hshown, hspan]

/-! ## Expressions -/

namespace Expression

variable [Alphabet]

/-- What fails in a text, if anything does. -/
def failure? (text : List Char) : Option Failure :=
  match value text with
  | .ok _ => none
  | .error failure => some failure

theorem value_eq_error_iff {text : List Char} {failure : Failure} :
    value text = .error failure ↔ failure? text = some failure := by
  rw [failure?]
  cases value text with
  | ok v => simp
  | error other => simp

/-- An error of an expression shows its text at what fails. -/
theorem eval_eq_error_iff {source : String} {error : Error} :
    eval source = .error error ↔ ∃ failure, value source.toList = .error failure ∧
      error = .expression failure.fault (.of source.toList failure.span) := by
  rw [eval]
  cases value source.toList with
  | ok v => simp [Except.mapError]
  | error failure => simp [Except.mapError, eq_comm]

end Expression

/-! ## Lines -/

/-- Where an error of a line, blanks at its end removed, points to. -/
inductive Error.PointsAt (code : List Char) : Error → Span → Prop
  /-- The argument of an assignment. -/
  | argument {argument : List Char} {line : Nat} {excerpt : Excerpt}
      (hcode : code = setOpening.toList ++ argument ++ [')']) :
      PointsAt code (.directive .malformedSet line excerpt) (.after setOpening.toList argument)
  /-- The keyword of a marker. -/
  | keyword {m : Marker} {rest : List Char} {line : Nat} {excerpt : Excerpt}
      (hcode : code = m.keyword.toList ++ rest) :
      PointsAt code (.directive (.misplaced m) line excerpt) (.after [] m.keyword.toList)
  /-- A condition, from its first character that is not blank to its last. -/
  | condition {fault : ConditionFault} {opening : String} {front condition back : List Char}
      {line : Nat} {excerpt : Excerpt} (hopening : opening = ifOpening ∨ opening = elseIfOpening)
      (hcode : code = opening.toList ++ front ++ condition ++ back ++ [')'])
      (hfront : ∀ c ∈ front, isBlank c = true)
      (hfirst : ∀ c, (condition ++ back).head? = some c → isBlank c = false)
      (hback : Trimmed isBlank (condition ++ back) condition) :
      PointsAt code (.condition fault line excerpt) (.after (opening.toList ++ front) condition)

theorem Error.PointsAt.within {code : List Char} {error : Error} {span : Span}
    (h : error.PointsAt code span) : span.Within code := by
  cases h with
  | argument hcode => exact ⟨_, _, _, hcode, rfl⟩
  | keyword hcode => exact ⟨[], _, _, hcode, rfl⟩
  | condition _ hcode => exact ⟨_, _, _, by rw [hcode, List.append_assoc _ _ [')']], rfl⟩

namespace Template

/-- A marker starts with its keyword. -/
theorem Directive.keyword_of_ofCode {code : List Char} {m : Marker}
    (h : Directive.ofCode code = .marker m) : ∃ rest, code = m.keyword.toList ++ rest := by
  have hkeyword (word : String) (hword : startsWith word code = true) :
      ∃ rest, code = word.toList ++ rest := by
    obtain ⟨rest, hrest⟩ := List.isPrefixOf_iff_prefix.1 hword
    exact ⟨rest, hrest.symm⟩
  have hcondition {opening : String} {argument : List Char}
      (hm : (Directive.marker m).withArgument? = some (opening, argument))
      (hopening : opening.toList = m.keyword.toList ++ [' ', '(']) :
      ∃ rest, code = m.keyword.toList ++ rest := by
    rw [← h] at hm
    have hcode := Directive.eq_of_withArgument?_ofCode hm
    rw [hopening, List.append_assoc, List.append_assoc] at hcode
    exact ⟨_, hcode⟩
  have hif : ifOpening.toList = "#if".toList ++ [' ', '('] := by decide
  have helseIf : elseIfOpening.toList = "#elseif".toList ++ [' ', '('] := by decide
  cases m with
  | ifHolds condition => exact hcondition rfl hif
  | elseIf condition => exact hcondition rfl helseIf
  | otherwise =>
    unfold Directive.ofCode at h
    repeat' split at h
    all_goals cases h
    exact hkeyword _ (by assumption)
  | close =>
    unfold Directive.ofCode at h
    repeat' split at h
    all_goals cases h
    exact hkeyword _ (by assumption)

/-- A condition stands in its argument between blanks, and takes up all between them. -/
theorem exists_conditionAt (opening : String) (argument : List Char) :
    ∃ back,
      argument = argument.takeWhile isBlank ++ (conditionAt opening argument).1 ++ back ∧
      (∀ c, ((conditionAt opening argument).1 ++ back).head? = some c → isBlank c = false) ∧
      Trimmed isBlank ((conditionAt opening argument).1 ++ back)
        (conditionAt opening argument).1 := by
  have htrimmed : Trimmed isBlank (argument.dropWhile isBlank) (conditionAt opening argument).1 :=
    trimmed_dropEnd isBlank _
  obtain ⟨back, hback, -⟩ := htrimmed.tail
  refine ⟨back, ?_, fun c hc => ?_, hback ▸ htrimmed⟩
  · rw [List.append_assoc, ← hback, List.takeWhile_append_dropWhile]
  · rw [← hback] at hc
    have hfirst := List.head?_dropWhile_not isBlank argument
    rwa [hc] at hfirst

namespace Progress

variable {e : Engine} {p q : Progress} {line : List Char} {error : Error}

/-- A line that fails is shown at what is wrong with it. -/
theorem pointsAt_of_step (h : p.step e line = (q, some error)) :
    ∃ span, error.PointsAt (dropEnd isBlank line) span ∧
      error.excerpt? = some (.of (dropEnd isBlank line) span) := by
  have hstep := stepsTo_step e p line
  rw [h] at hstep
  cases hstep with
  | @malformed argument events hd ha =>
    have hset : (Directive.ofCode (dropEnd isBlank line)).withArgument? =
        some (setOpening, argument) := by
      rw [hd]
      rfl
    exact ⟨_, .argument (Directive.eq_of_withArgument?_ofCode hset), rfl⟩
  | misplaced hd hm =>
    obtain ⟨rest, hrest⟩ := Directive.keyword_of_ofCode hd
    exact ⟨_, .keyword hrest, rfl⟩
  | @undecided m opening argument ifSo ifNot fault events hd hm hj =>
    have hmarker := (withArgument?_of_ask hm).1
    have hopening : opening = ifOpening ∨ opening = elseIfOpening := by
      cases m <;> cases hmarker
      · exact .inl rfl
      · exact .inr rfl
    rw [← hd] at hmarker
    obtain ⟨back, hargument, hfirst, hback⟩ := exists_conditionAt opening argument
    refine ⟨_, .condition hopening ?_ (List.all_eq_true.1 List.all_takeWhile) hfirst hback, rfl⟩
    calc dropEnd isBlank line
        = opening.toList ++ argument ++ [')'] := Directive.eq_of_withArgument?_ofCode hmarker
      _ = opening.toList ++
            (argument.takeWhile isBlank ++ (conditionAt opening argument).1 ++ back) ++ [')'] := by
          rw [← hargument]
      _ = _ := by simp only [List.append_assoc]

end Progress

end Template

/-- An error of a template shows the line that fails. -/
theorem Engine.exists_of_render {e : Engine} {vars : Variables} {source : String} {error : Error}
    (h : (e.render vars source).result = .error error) :
    ∃ before line rest span,
      lines (e.dialect.newline?.map (·.toList)) source.toList = before ++ line :: rest ∧
      error.line? = some (before.length + 1) ∧
      error.PointsAt (dropEnd isBlank line) span ∧
      error.excerpt? = some ⟨dropEnd isBlank line, span⟩ := by
  obtain ⟨before, line, rest, last, q, hlines, hnumber, -, hline, -⟩ := exists_step_of_render h
  obtain ⟨span, hpoints, hexcerpt⟩ := Progress.pointsAt_of_step hline
  refine ⟨before, line, rest, span, hlines, hnumber, hpoints, ?_⟩
  rw [hexcerpt, Excerpt.of_trimmed (trimmed_dropEnd isBlank line) hpoints.within]

/-- **Every error shows a place that is there.** An error of an expression shows its text without the
line terminators at its end, and in it as much as there is of what failed. An error of a template
shows the line that fails without the blanks at its end, and in it what is wrong with the line. The
place is from one character to a later one, or between two characters, and it is all of what failed
if nothing of this was cut off. So an error is put into words of any form without a hazard. -/
theorem errors_point_into_code [Alphabet] :
    (∀ (source : String) (error : Error), Expression.eval source = .error error →
      ∃ failure excerpt,
        Expression.value source.toList = .error failure ∧
        error = .expression failure.fault excerpt ∧
        Trimmed (fun c => c == '\r' || c == '\n') source.toList excerpt.code ∧
        excerpt.Shows failure.span ∧
        ∀ width form, Checked.format width error form = pure (error.inForm width form)) ∧
    ∀ (e : Engine) (vars : Variables) (source : String) (error : Error),
      (e.render vars source).result = .error error →
      ∃ before line rest excerpt span,
        lines (e.dialect.newline?.map (·.toList)) source.toList = before ++ line :: rest ∧
        error.line? = some (before.length + 1) ∧
        error.excerpt? = some excerpt ∧
        Trimmed isBlank line excerpt.code ∧
        error.PointsAt excerpt.code span ∧
        excerpt.Shows span ∧
        excerpt.span = span ∧
        ∀ width form, Checked.format width error form = pure (error.inForm width form) := by
  constructor
  · intro source error h
    obtain ⟨failure, hvalue, rfl⟩ := Expression.eval_eq_error_iff.1 h
    have hshows := Excerpt.shows_of (Expression.within_of_value hvalue)
    refine ⟨failure, _, hvalue, rfl, trimmed_dropEnd _ _, hshows, fun width => format_eq width ?_⟩
    rintro excerpt ⟨⟩
    exact hshows.within
  · intro e vars source error h
    obtain ⟨before, line, rest, span, hlines, hnumber, hpoints, hexcerpt⟩ :=
      Engine.exists_of_render h
    have htrimmed := trimmed_dropEnd isBlank line
    have hshows := Excerpt.shows_of hpoints.within
    rw [Excerpt.of_trimmed htrimmed hpoints.within] at hshows
    refine ⟨before, line, rest, _, span, hlines, hnumber, hexcerpt, htrimmed, hpoints, hshows, rfl,
      fun width => format_eq width fun excerpt h => ?_⟩
    rw [hexcerpt] at h
    cases h
    exact hpoints.within

section

open Ascii

/-- An operand that is missing is missed behind the line terminator, so the end of what is shown is
underlined. A condition is underlined from the first of its bytes to the last. -/
theorem missing_operand_points_to_end :
    (∃ failure excerpt,
      Expression.eval "'é' <\r\n" = .error (.expression failure.fault excerpt) ∧
      Expression.value "'é' <\r\n".toList = .error failure ∧
      failure.span = ⟨8, 8⟩ ∧
      excerpt = ⟨"'é' <".toList, ⟨6, 6⟩⟩ ∧
      Trimmed (fun c => c == '\r' || c == '\n') "'é' <\r\n".toList excerpt.code ∧
      excerpt.Shows failure.span) ∧
    ∃ error,
      (Engine.standard.render {} "a\n#if ( 'é' )\t\r\n").result = .error error ∧
      error.line? = some 2 ∧
      error.excerpt? = some ⟨"#if ( 'é' )".toList, ⟨6, 10⟩⟩ ∧
      error.PointsAt "#if ( 'é' )".toList ⟨6, 10⟩ ∧
      ∀ width form, Checked.format width error form = pure (error.inForm width form) := by
  constructor
  · have hfailure : Expression.value "'é' <\r\n".toList =
        .error ⟨.unexpected .expression none, ⟨8, 8⟩⟩ :=
      Expression.value_eq_error_iff.2 (by decide +kernel)
    have heval := Expression.eval_eq_error_iff.2 ⟨_, hfailure, rfl⟩
    obtain ⟨failure, excerpt, hvalue, herror, htrimmed, hshows, -⟩ :=
      errors_point_into_code.1 _ _ heval
    obtain ⟨-, rfl⟩ := Error.expression.inj herror
    cases hfailure.symm.trans hvalue
    exact ⟨_, _, heval, hvalue, rfl, by decide +kernel, htrimmed, hshows⟩
  · have hrender : (Engine.standard.render {} "a\n#if ( 'é' )\t\r\n").result =
        .error (.condition (.notBoolean .string) 2 ⟨"#if ( 'é' )".toList, ⟨6, 10⟩⟩) :=
      Engine.render_eq_error_iff.2 (by decide +kernel)
    obtain ⟨_, _, _, excerpt, span, _, _, hexcerpt, _, hpoints, _, rfl, hformat⟩ :=
      errors_point_into_code.2 _ _ _ _ hrender
    cases hexcerpt
    exact ⟨_, hrender, rfl, rfl, hpoints, hformat⟩

end

end Stencil
