/-
Lines and directives by their places.

The lines of a source are looked for from a cursor on, and the argument of a directive is known by
its span in the line. The cursor only ever stands behind a line feed or at the start, and a span
runs from behind the opening word to in front of the last parenthesis, so every cut is between two
characters (`nextLine_cons`, `cut_argument`, `trimmed_eq`).
-/
import Stencil.Proofs.Checked.Hazard
import Stencil.Proofs.Text.Trimming
import Stencil.Template.Directive
import Stencil.Template.Line

namespace Stencil

open Text

namespace Template

theorem pieces_of_not_mem (newline : List Char) {text : List Char} (h : '\n' ∉ text) :
    pieces newline text = [text.filter (· != '\r')] := by
  induction text with
  | nil => rfl
  | cons c rest ih =>
    rw [List.mem_cons, not_or] at h
    rw [pieces, if_neg (Ne.symm h.1), ih h.2]
    by_cases hreturn : c = '\r' <;> simp [hreturn]

/-- The first line of a source ends at the first line feed. -/
theorem pieces_append_feed (newline rest : List Char) {text : List Char} (h : '\n' ∉ text) :
    pieces newline (text ++ '\n' :: rest) =
      (text.filter (· != '\r') ++ newline) :: pieces newline rest := by
  induction text with
  | nil => rfl
  | cons c tail ih =>
    rw [List.mem_cons, not_or] at h
    rw [List.cons_append, pieces, if_neg (Ne.symm h.1), ih h.2]
    by_cases hreturn : c = '\r' <;> simp [hreturn]

theorem argument?_eq_some_iff {opening : String} {code argument : List Char} :
    argument? opening code = some argument ↔
      (startsWith opening code && code.getLast? == some ')') = true ∧
        (code.drop opening.length).dropLast = argument := by
  rw [argument?, Option.ite_none_right_eq_some, Option.some.injEq]

/-- What has an argument is the opening word, the argument and a parenthesis. -/
theorem eq_of_argument? {opening : String} {code argument : List Char}
    (hopening : opening.toList.getLast? ≠ some ')') (h : argument? opening code = some argument) :
    code = opening.toList ++ argument ++ [')'] := by
  obtain ⟨hcode, rfl⟩ := argument?_eq_some_iff.1 h
  simp only [startsWith, Bool.and_eq_true, List.isPrefixOf_iff_prefix, beq_iff_eq] at hcode
  obtain ⟨⟨tail, rfl⟩, hlast⟩ := hcode
  rcases List.eq_nil_or_concat tail with rfl | ⟨init, c, rfl⟩
  · rw [List.append_nil] at hlast
    exact absurd hlast hopening
  · rw [List.concat_eq_append, ← List.append_assoc, List.getLast?_concat, Option.some.injEq] at hlast
    subst hlast
    have hdrop : (opening.toList ++ (init ++ [')'])).drop opening.length = init ++ [')'] :=
      List.drop_left
    rw [List.concat_eq_append, hdrop, List.dropLast_concat, List.append_assoc]

/-- The opening word and the argument of a directive that has one. -/
def Directive.withArgument? : Directive → Option (String × List Char)
  | .set argument => some (setOpening, argument)
  | .marker (.ifHolds argument) => some (ifOpening, argument)
  | .marker (.elseIf argument) => some (elseIfOpening, argument)
  | _ => none

theorem Directive.eq_of_withArgument?_ofCode {opening : String} {code argument : List Char}
    (h : (Directive.ofCode code).withArgument? = some (opening, argument)) :
    code = opening.toList ++ argument ++ [')'] := by
  unfold Directive.ofCode at h
  repeat' split at h
  all_goals cases h
  all_goals exact eq_of_argument? (by decide) (by assumption)

end Template

namespace Checked

open Template

/-! ## Lines -/

/-- The line at a cursor, and the cursor for the next one. There are none after the last line. -/
def nextLine (source newline : List Char) (cursor : Option Nat) :
    Checked (Option (List Char × Option Nat)) := do
  match cursor with
  | none => return none
  | some start =>
    let rest ← cutFrom source start
    if '\n' ∈ rest then
      let stop := start + byteSize (rest.takeWhile (· != '\n'))
      let raw ← cut source start stop
      if '\r' ∉ raw ∧ newline = ['\n'] then
        return some (← cut source start (start + byteSize raw + 1), some (stop + 1))
      else
        return some (raw.filter (· != '\r') ++ newline, some (stop + 1))
    else
      let raw ← cutFrom source start
      if '\r' ∉ raw then
        return some (← cut source start (start + byteSize raw), none)
      else
        return some (raw.filter (· != '\r'), none)

/-- How much there is in front of a cursor; after the last line there is nothing. -/
def ahead (source : List Char) : Option Nat → Nat
  | none => 0
  | some start => byteSize source - start + 1

/-- Where a cursor may stand: in front of the lines that are left, or nowhere after the last. -/
inductive Stands (source newline : List Char) : Option Nat → List (List Char) → Prop
  | before {start : Nat} {rest : List Char} (h : Leaves source start rest) :
    Stands source newline (some start) (pieces newline rest)
  | nowhere : Stands source newline none []

theorem stands_start (source newline : List Char) (override? : Option (List Char))
    (h : newline = terminator override? source) :
    Stands source newline (if source = [] then none else some 0) (lines override? source) := by
  rw [lines]
  split
  · exact .nowhere
  · exact h ▸ .before (.zero source)

variable {source newline : List Char} {cursor : Option Nat} {left : List (List Char)}

theorem nextLine_nil (h : Stands source newline cursor []) :
    nextLine source newline cursor = pure none := by
  generalize hleft : [] = left at h
  cases h with
  | before hsource => exact absurd hleft.symm (pieces_ne_nil _ _)
  | nowhere => rfl

/-- What has no carriage returns is kept as it is. -/
theorem filter_of_not_mem {raw : List Char} (h : '\r' ∉ raw) : raw.filter (· != '\r') = raw := by
  rw [List.filter_eq_self]
  intro c hc
  simpa using ne_of_mem_of_not_mem hc h

theorem nextLine_of_feed {start : Nat} {raw tail : List Char}
    (h : Leaves source start (raw ++ '\n' :: tail)) (hraw : '\n' ∉ raw) :
    nextLine source newline (some start) =
      pure (some (raw.filter (· != '\r') ++ newline, some (start + byteSize raw + 1))) := by
  have hfeed : '\n' ∈ raw ++ '\n' :: tail := by simp
  have htake : (raw ++ '\n' :: tail).takeWhile (· != '\n') = raw := by
    rw [List.takeWhile_append_of_pos (by simpa using fun c hc => ne_of_mem_of_not_mem hc hraw),
      List.takeWhile_cons_of_neg (by simp), List.append_nil]
  have hfull : cut source start (start + byteSize raw + 1) = pure (raw ++ ['\n']) := by
    have hline : Leaves source start (raw ++ ['\n'] ++ tail) := by rwa [List.append_assoc]
    refine hline.cut_eq ?_
    rw [byteSize_append, Nat.add_assoc]
    rfl
  simp only [nextLine, h.cutFrom_eq, pure_bind, if_pos hfeed, htake, h.cut_eq rfl]
  split
  · rename_i hplain
    rw [hfull, filter_of_not_mem hplain.1, hplain.2]
    rfl
  · rfl

theorem nextLine_of_last {start : Nat} {raw : List Char} (h : Leaves source start raw)
    (hraw : '\n' ∉ raw) :
    nextLine source newline (some start) = pure (some (raw.filter (· != '\r'), none)) := by
  have hfull : cut source start (start + byteSize raw) = pure raw := by
    have hline : Leaves source start (raw ++ []) := by rwa [List.append_nil]
    exact hline.cut_eq rfl
  simp only [nextLine, h.cutFrom_eq, pure_bind, if_neg hraw, hfull]
  split
  · rename_i hplain
    rw [filter_of_not_mem hplain]
  · rfl

/-- Where a line is left it is the next one, and the cursor gets on to stand in front of the
others. -/
theorem nextLine_cons {text : List Char} (h : Stands source newline cursor (text :: left)) :
    ∃ next, nextLine source newline cursor = pure (some (text, next)) ∧
      Stands source newline next left ∧ ahead source next < ahead source cursor := by
  generalize hleft : text :: left = lines at h
  cases h with
  | nowhere => cases hleft
  | @before start rest hrest =>
    by_cases hfeed : '\n' ∈ rest
    · obtain ⟨raw, tail, rfl, hraw⟩ := List.eq_append_cons_of_mem hfeed
      rw [pieces_append_feed newline tail hraw, List.cons.injEq] at hleft
      obtain ⟨rfl, rfl⟩ := hleft
      have hnext : Leaves source (start + byteSize raw + 1) tail := (hrest.append raw).cons
      have hahead : ahead source (some (start + byteSize raw + 1)) < ahead source (some start) := by
        have hsize := hnext.size_eq
        simp only [ahead]
        omega
      exact ⟨_, nextLine_of_feed hrest hraw, .before hnext, hahead⟩
    · rw [pieces_of_not_mem newline hfeed, List.cons.injEq] at hleft
      obtain ⟨rfl, rfl⟩ := hleft
      exact ⟨none, nextLine_of_last hrest hfeed, .nowhere, Nat.succ_pos _⟩

/-! ## Directives -/

/-- A line by what it asks for, with the span of the argument. A marker comes with its span, which
is that of the condition if it has one. -/
inductive Line where
  | set (span : Span)
  | marker (m : Marker) (span : Span)
  | unsupported (name : String)
  | content

def Line.name : Line → String
  | .set _ => "#set"
  | .marker m _ => m.keyword
  | .unsupported name => name
  | .content => "content"

/-- The span between an opening word and a parenthesis at the end. -/
def parenthesized (code : List Char) (opening : String) : Checked (Option Span) :=
  if startsWith opening code && code.getLast? == some ')' then do
    let stop ← minus (byteSize code) 1
    return some ⟨byteSize opening.toList, stop⟩
  else return none

def classify (code : List Char) : Checked Line := do
  match ← parenthesized code setOpening with
  | some span => return .set span
  | none =>
    match ← parenthesized code ifOpening with
    | some span => return .marker (.ifHolds (code.drop ifOpening.length).dropLast) span
    | none =>
      match ← parenthesized code elseIfOpening with
      | some span => return .marker (.elseIf (code.drop elseIfOpening.length).dropLast) span
      | none =>
        if startsWith Marker.otherwise.keyword code then
          return .marker .otherwise Marker.otherwise.keywordSpan
        else if startsWith Marker.close.keyword code then
          return .marker .close Marker.close.keywordSpan
        else
          match unsupportedNames.find? (startsWith · code) with
          | some name => return .unsupported name
          | none => return .content

/-- The line that a directive is. -/
def Line.of : Directive → Line
  | .set argument => .set (argumentSpan setOpening argument)
  | .marker (.ifHolds argument) =>
    .marker (.ifHolds argument) (argumentSpan ifOpening argument)
  | .marker (.elseIf argument) =>
    .marker (.elseIf argument) (argumentSpan elseIfOpening argument)
  | .marker .otherwise => .marker .otherwise Marker.otherwise.keywordSpan
  | .marker .close => .marker .close Marker.close.keywordSpan
  | .unsupported name => .unsupported name
  | .content => .content

theorem Line.name_of (d : Directive) : (Line.of d).name = d.name := by
  cases d with
  | marker m => cases m <;> rfl
  | _ => rfl

theorem parenthesized_eq (opening : String) (code : List Char)
    (hopening : opening.toList.getLast? ≠ some ')') :
    parenthesized code opening =
      pure ((argument? opening code).map (argumentSpan opening)) := by
  rw [parenthesized]
  by_cases hcode : (startsWith opening code && code.getLast? == some ')') = true
  · have hargument : argument? opening code = some _ := argument?_eq_some_iff.2 ⟨hcode, rfl⟩
    have hsize := congrArg byteSize (eq_of_argument? hopening hargument)
    simp only [byteSize_append] at hsize
    rw [hargument, if_pos hcode, hsize]
    exact congrArg (· >>= _) (add_minus_cancel _ 1)
  · rw [argument?, if_neg hcode, if_neg hcode]
    rfl

theorem classify_eq (code : List Char) : classify code = pure (Line.of (.ofCode code)) := by
  have hset := parenthesized_eq setOpening code (by decide)
  have hif := parenthesized_eq ifOpening code (by decide)
  have helseIf := parenthesized_eq elseIfOpening code (by decide)
  simp only [classify, Directive.ofCode, hset, hif, helseIf, pure_bind]
  cases argument? setOpening code with
  | some argument => rfl
  | none =>
    cases harg : argument? ifOpening code with
    | some argument =>
      rw [← (argument?_eq_some_iff.1 harg).2]
      rfl
    | none =>
      cases harg : argument? elseIfOpening code with
      | some argument =>
      rw [← (argument?_eq_some_iff.1 harg).2]
      rfl
      | none =>
        simp only [Option.map_none]
        split
        · rfl
        · split
          · rfl
          · cases unsupportedNames.find? (startsWith · code) <;> rfl

/-- The argument of a directive is cut out of its line by its span. -/
theorem cut_argument {opening : String} {code argument : List Char}
    (h : (Directive.ofCode code).withArgument? = some (opening, argument)) :
    cut code (argumentSpan opening argument).start (argumentSpan opening argument).stop =
      pure argument :=
  cut_eq _ [')'] (Directive.eq_of_withArgument?_ofCode h) rfl rfl

/-- The span without the blanks at its ends. -/
def trimmed (code : List Char) (span : Span) : Checked Span := do
  let text ← cut code span.start span.stop
  let blanks ← minus (byteSize text) (byteSize (text.dropWhile isBlank))
  let start := span.start + blanks
  return ⟨start, start + byteSize (strip isBlank text)⟩

variable {opening : String} {code argument : List Char}

theorem trimmed_eq (h : (Directive.ofCode code).withArgument? = some (opening, argument)) :
    trimmed code (argumentSpan opening argument) = pure (conditionAt opening argument).2 := by
  have hblanks : minus (byteSize argument) (byteSize (argument.dropWhile isBlank)) =
      pure (byteSize (argument.takeWhile isBlank)) := by
    have hsize := congrArg byteSize (List.takeWhile_append_dropWhile (p := isBlank) (l := argument))
    rw [← hsize, byteSize_append]
    exact add_minus_cancel _ _
  simp only [trimmed, cut_argument h, pure_bind, hblanks]
  simp only [conditionAt, Span.after, argumentSpan, byteSize_append]

/-- A condition is cut out of its line without the blanks around it. -/
theorem cut_condition (h : (Directive.ofCode code).withArgument? = some (opening, argument)) :
    cut code (conditionAt opening argument).2.start (conditionAt opening argument).2.stop =
      pure (conditionAt opening argument).1 := by
  obtain ⟨tail, htail, -⟩ := (trimmed_dropEnd isBlank (argument.dropWhile isBlank)).tail
  refine cut_eq (opening.toList ++ argument.takeWhile isBlank) (tail ++ [')']) ?_ rfl rfl
  have hparts : argument = argument.takeWhile isBlank ++ (strip isBlank argument ++ tail) := by
    rw [strip, ← htail, List.takeWhile_append_dropWhile]
  calc code
      = opening.toList ++ argument ++ [')'] := Directive.eq_of_withArgument?_ofCode h
    _ = opening.toList ++ (argument.takeWhile isBlank ++ (strip isBlank argument ++ tail)) ++
          [')'] := by rw [← hparts]
    _ = _ := by simp only [conditionAt, List.append_assoc]

end Checked

end Stencil
