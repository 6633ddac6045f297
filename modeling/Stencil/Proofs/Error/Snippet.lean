/-
The lines of a snippet.

A snippet underlines a part of the code. Below the code as many columns are left free as what is in
front of the part takes, and as many carets stand there as the part takes, one at least, behind a
gutter as wide as that of the code (`exists_underlines`). The lines are four, unless the code or the
message has line feeds of its own (`isLines_report_iff`). The text of an expression may have them
anywhere. The code of a template has one only where the terminator that was asked for has something
behind it that is not blank, and a message has one only where an evaluator of conditions put it there.
-/
import Stencil.Proofs.Error.Place
import Stencil.Proofs.Template.SourceLine

namespace Stencil

open Text Template

namespace Text

/-! ## Lines of a text -/

/-- Whether a text consists of `n` lines, each ended by a line feed. -/
def IsLines (n : Nat) (text : List Char) : Prop :=
  ∃ rows, rows.length = n ∧ text = unlines rows ∧ ∀ row ∈ rows, '\n' ∉ row

theorem count_unlines (rows : List (List Char)) :
    (unlines rows).count '\n' = rows.flatten.count '\n' + rows.length := by
  induction rows with
  | nil => rfl
  | cons row rest ih =>
    have hrow : unlines (row :: rest) = row ++ '\n' :: unlines rest := by simp [unlines]
    rw [hrow, List.count_append, List.count_cons_self, ih, List.flatten_cons, List.count_append,
      List.length_cons]
    omega

theorem count_flatten_eq_zero_iff {rows : List (List Char)} :
    rows.flatten.count '\n' = 0 ↔ ∀ row ∈ rows, '\n' ∉ row := by
  rw [List.count_eq_zero, List.mem_flatten]
  constructor
  · intro h row hrow hfeed
    exact h ⟨row, hrow, hfeed⟩
  · rintro h ⟨row, hrow, hfeed⟩
    exact h row hrow hfeed

/-- Lines that are put together stay as many if and only if none of them has a line feed. -/
theorem isLines_unlines_iff (rows : List (List Char)) :
    IsLines rows.length (unlines rows) ↔ ∀ row ∈ rows, '\n' ∉ row := by
  constructor
  · rintro ⟨rows', hlength, htext, hrows'⟩
    have hcount := congrArg (List.count '\n') htext
    rw [count_unlines, count_unlines, count_flatten_eq_zero_iff.2 hrows', hlength] at hcount
    rw [← count_flatten_eq_zero_iff]
    omega
  · intro h
    exact ⟨rows, rfl, rfl, h⟩

/-! ## Columns -/

/-- Whether a character is a space or one of the ASCII characters with a glyph of their own. -/
def IsPlain (c : Char) : Prop := 0x20 ≤ c.toNat ∧ c.toNat ≤ 0x7E

instance (c : Char) : Decidable (IsPlain c) :=
  inferInstanceAs (Decidable (0x20 ≤ c.toNat ∧ c.toNat ≤ 0x7E))

/-- What is known of the columns that texts take on a display: plain characters take one each. -/
structure LawfulWidth (width : List Char → Nat) : Prop where
  plain {text : List Char} (h : ∀ c ∈ text, IsPlain c) : width text = text.length

theorem isPlain_of_isDigit {c : Char} (h : c.isDigit = true) : IsPlain c := by
  simp only [Char.isDigit, Bool.and_eq_true, decide_eq_true_eq, ge_iff_le,
    UInt32.le_iff_toNat_le] at h
  exact ⟨Nat.le_trans (by decide) h.1, Nat.le_trans h.2 (by decide)⟩

theorem isPlain_of_mem_replicate {c d : Char} {n : Nat} (hc : IsPlain c)
    (h : d ∈ List.replicate n c) : IsPlain d := by
  rw [List.eq_of_mem_replicate h]
  exact hc

theorem isDigit_of_mem_toString {n : Nat} {c : Char} (h : c ∈ (toString n).toList) :
    c.isDigit = true := by
  have hdigits : (toString n).toList = Nat.toDigits 10 n := Nat.toList_repr
  rw [hdigits] at h
  exact Nat.isDigit_of_mem_toDigits (by decide) (by decide) h

/-! ## Texts without line feeds -/

/-- Whether a text has no line feed. -/
def OnOneLine (text : String) : Prop := '\n' ∉ text.toList

instance (text : String) : Decidable (OnOneLine text) :=
  inferInstanceAs (Decidable ('\n' ∉ text.toList))

theorem onOneLine_append {a b : String} : OnOneLine (a ++ b) ↔ OnOneLine a ∧ OnOneLine b := by
  simp [OnOneLine]

theorem onOneLine_toString (n : Nat) : OnOneLine (toString n) := fun h =>
  absurd (isDigit_of_mem_toString h) (by decide)

end Text

theorem Value.Kind.onOneLine_name (k : Value.Kind) : OnOneLine k.name := by cases k <;> decide

namespace Expression

theorem Token.Kind.onOneLine_name (k : Token.Kind) : OnOneLine k.name := by cases k <;> decide

theorem Expected.onOneLine_name (x : Expected) : OnOneLine x.name := by cases x <;> decide

theorem Keyword.onOneLine_spelling (k : Keyword) : OnOneLine k.spelling := by cases k <;> decide

theorem Domain.onOneLine_name (d : Domain) : OnOneLine d.name := by cases d <;> decide

theorem Operator.onOneLine_sign (op : Operator) : OnOneLine op.sign := by
  cases op with
  | unary op => cases op <;> decide
  | connective op => cases op <;> decide
  | arithmetic op => cases op <;> decide

/-- What is wrong with an expression is said on one line. -/
theorem Fault.onOneLine_message (fault : Fault) : OnOneLine fault.message := by
  cases fault with
  | unexpected expected found =>
    have hfound : OnOneLine ((found.map (·.name)).getD "EOF") := by
      cases found with
      | none => decide
      | some kind => exact kind.onOneLine_name
    unfold message
    simp only [onOneLine_append]
    exact ⟨⟨⟨by decide, expected.onOneLine_name⟩, by decide⟩, hfound⟩
  | unexpectedKeyword keyword =>
    unfold message
    simp only [onOneLine_append]
    exact ⟨⟨by decide, keyword.onOneLine_spelling⟩, by decide⟩
  | wrongOperand operator expected found =>
    unfold message
    simp only [onOneLine_append]
    exact ⟨⟨⟨⟨⟨by decide, operator.onOneLine_sign⟩, by decide⟩, expected.onOneLine_name⟩,
      by decide⟩, found.onOneLine_name⟩
  | incomparable left right =>
    unfold message
    simp only [onOneLine_append]
    exact ⟨⟨⟨by decide, left.onOneLine_name⟩, by decide⟩, right.onOneLine_name⟩
  | nestedTooDeep =>
    unfold message
    simp only [onOneLine_append]
    exact ⟨⟨by decide, onOneLine_toString _⟩, by decide⟩
  | _ => decide

end Expression

/-! ## Underlines -/

/-- Each line of a snippet is one but for what it shows. -/
theorem Excerpt.forall_rows_iff {width : List Char → Nat} {code message : List Char}
    {line indent carets : Nat} :
    (∀ row ∈ rows width code line indent carets message, '\n' ∉ row) ↔
      '\n' ∉ code ∧ '\n' ∉ message := by
  have hnumber : '\n' ∉ (toString line).toList := onOneLine_toString line
  unfold rows
  generalize (toString line).toList = number at hnumber
  simp [hnumber, List.mem_replicate]

/-- Whether an error shows a part of its code underlined: below the code, behind a gutter as wide as
that with the line number, as many spaces as what is in front of the part has columns, and as many
carets as the part has, one at least. These are the columns that the carets take up, counted from
where the code begins. -/
structure Error.Underlines (width : List Char → Nat) (error : Error)
    (before part after : List Char) : Prop where
  excerpt?_eq : error.excerpt? = some ⟨before ++ part ++ after, .after before part⟩
  toList_report : (error.report width).toList =
    unlines (Excerpt.rows width (before ++ part ++ after) (error.line?.getD 1) (width before)
      (max 1 (width part)) error.message.toList)
  width_gutter :
    let number := (toString (error.line?.getD 1)).toList
    width (List.replicate (width number) ' ') = width number
  columns :
    let number := (toString (error.line?.getD 1)).toList
    let front := ' ' :: number ++ " | ".toList
    let gutter := ' ' :: List.replicate (width number) ' ' ++ " | ".toList
    let spaces := List.replicate (width before) ' '
    let carets := List.replicate (max 1 (width part)) '^'
    width (gutter ++ spaces) = width front + width before ∧
      width (gutter ++ spaces ++ carets) = width front + width before + max 1 (width part)

section

variable {width : List Char → Nat} {error : Error} {before part after : List Char}

theorem Error.underlines_of (hwidth : LawfulWidth width)
    (h : error.excerpt? = some ⟨before ++ part ++ after, .after before part⟩) :
    error.Underlines width before part after := by
  have hnumber : ∀ c ∈ (toString (error.line?.getD 1)).toList, IsPlain c :=
    fun c hc => isPlain_of_isDigit (isDigit_of_mem_toString hc)
  have hspaces (n : Nat) : ∀ c ∈ List.replicate n ' ', IsPlain c :=
    fun _ hc => isPlain_of_mem_replicate (by decide) hc
  have hcarets (n : Nat) : ∀ c ∈ List.replicate n '^', IsPlain c :=
    fun _ hc => isPlain_of_mem_replicate (by decide) hc
  have hbar : (" | ".toList.all fun c => decide (IsPlain c)) = true := by decide
  have hfront {text : List Char} (htext : ∀ c ∈ text, IsPlain c) :
      ∀ c ∈ ' ' :: text ++ " | ".toList, IsPlain c :=
    List.forall_mem_append.2 ⟨List.forall_mem_cons.2 ⟨by decide, htext⟩,
      fun c hc => of_decide_eq_true (List.all_eq_true.1 hbar c hc)⟩
  have hgutter := hfront (hspaces (width (toString (error.line?.getD 1)).toList))
  have hindented := List.forall_mem_append.2 ⟨hgutter, hspaces (width before)⟩
  have hunderlined := List.forall_mem_append.2 ⟨hindented, hcarets (max 1 (width part))⟩
  have hlength := hwidth.plain hnumber
  refine ⟨h, ?_, (hwidth.plain (hspaces _)).trans List.length_replicate, ?_, ?_⟩
  · rw [report, h]
    show (Excerpt.snippet _ _ _ _).toList = _
    rw [Excerpt.snippet_eq_unlines, String.toList_ofList, Excerpt.indent_after,
      Excerpt.carets_after]
  · rw [hwidth.plain hindented, hwidth.plain (hfront hnumber)]
    simp only [List.length_append, List.length_cons, List.length_replicate, hlength]
  · rw [hwidth.plain hunderlined, hwidth.plain (hfront hnumber)]
    simp only [List.length_append, List.length_cons, List.length_replicate, hlength]

theorem Error.exists_underlines {excerpt : Excerpt} (hwidth : LawfulWidth width)
    (h : error.excerpt? = some excerpt) (hwithin : excerpt.span.Within excerpt.code) :
    ∃ before part after, excerpt.code = before ++ part ++ after ∧
      error.Underlines width before part after := by
  obtain ⟨code, span⟩ := excerpt
  obtain ⟨before, part, after, rfl, rfl⟩ := hwithin
  exact ⟨before, part, after, rfl, underlines_of hwidth h⟩

/-- A report has four lines if what it shows and what it says have no line feed. -/
theorem Error.Underlines.isLines_report_iff (h : error.Underlines width before part after) :
    IsLines 4 (error.report width).toList ↔
      '\n' ∉ before ++ part ++ after ∧ OnOneLine error.message := by
  rw [h.toList_report]
  exact (isLines_unlines_iff _).trans Excerpt.forall_rows_iff

end

namespace Template

/-! ## Line feeds in a template's errors -/

/-- The code of a line has a line feed only where one with something behind it that is not blank was
asked for. -/
theorem exists_of_feed_mem_code {override? : Option (List Char)} {source line : List Char}
    (hline : line ∈ lines override? source) (hfeed : '\n' ∈ dropEnd isBlank line) :
    ∃ newline front back c, override? = some newline ∧ newline = front ++ '\n' :: back ∧
      c ∈ back ∧ isBlank c = false := by
  obtain ⟨⟨tail, htail, -⟩, hlast⟩ := trimmed_dropEnd isBlank line
  obtain ⟨front, back, hcode⟩ := List.append_of_mem hfeed
  rw [hcode] at htail hlast
  -- The code ends in a character that is not blank, which the line feed is not.
  obtain ⟨c, hc, hblank⟩ : ∃ c ∈ back, isBlank c = false := by
    rcases List.eq_nil_or_concat back with rfl | ⟨init, c, rfl⟩
    · exact absurd (hlast '\n' List.getLast?_concat) (by decide)
    · rw [List.concat_eq_append, ← List.cons_append, ← List.append_assoc] at hlast
      exact ⟨c, by simp, hlast c List.getLast?_concat⟩
  rw [SourceLine.lines_eq_map] at hline
  obtain ⟨l, hl, rfl⟩ := List.mem_map.1 hline
  have hvisible : '\n' ∉ l.visible := fun h =>
    SourceLine.not_mem_of_mem_ofSource hl (List.mem_filter.1 h).1
  -- The text of the line has no line feed, so that of the code is in the terminator.
  obtain ⟨more, hmore⟩ : ∃ more,
      (if l.isTerminated then terminator override? source else []) =
        more ++ '\n' :: (back ++ tail) := by
    rw [SourceLine.withTerminator, List.append_assoc] at htail
    rcases List.append_eq_append_iff.1 htail with ⟨more, -, hmore⟩ | ⟨more, hmore, hfront⟩
    · exact ⟨more, hmore⟩
    · cases more with
      | nil => exact ⟨[], hfront.symm⟩
      | cons d more =>
        obtain ⟨rfl, -⟩ := List.cons.inj hfront
        refine absurd ?_ hvisible
        rw [hmore]
        exact List.mem_append_right _ List.mem_cons_self
  split at hmore
  · cases override? with
    | none =>
      have hall : ∀ c ∈ terminator none source, isBlank c = true :=
        isBlank_of_mem_terminator (by rintro _ ⟨⟩)
      rw [hmore] at hall
      have hc' := hall c (by simp [hc])
      rw [hblank] at hc'
      cases hc'
    | some newline =>
      exact ⟨newline, more, back ++ tail, c, rfl, hmore, List.mem_append_left _ hc, hblank⟩
  · exact absurd hmore.symm (by simp)

theorem Marker.onOneLine_keyword (m : Marker) : OnOneLine m.keyword := by
  have hif : OnOneLine "#if" := by decide
  have helseIf : OnOneLine "#elseif" := by decide
  cases m with
  | ifHolds condition => exact hif
  | elseIf condition => exact helseIf
  | otherwise => decide
  | close => decide

namespace Progress

variable {e : Engine} {p q : Progress} {line : List Char} {error : Error}

/-- A line feed in a message comes from the evaluator of conditions. -/
theorem exists_of_not_onOneLine (h : p.step e line = (q, some error))
    (hfeed : ¬OnOneLine error.message) :
    ∃ condition cause, e.evaluator condition = .error cause ∧ ¬OnOneLine cause.message := by
  have hstep := stepsTo_step e p line
  rw [h] at hstep
  cases hstep with
  | malformed hd ha =>
    have hmessage : OnOneLine DirectiveFault.malformedSet.message := by decide
    exact absurd hmessage hfeed
  | misplaced hd hm =>
    refine absurd ?_ hfeed
    unfold Error.message DirectiveFault.message
    simp only [onOneLine_append]
    exact ⟨⟨by decide, Marker.onOneLine_keyword _⟩, by decide⟩
  | undecided hd hm hj =>
    unfold Engine.judge at hj
    split at hj
    · cases hj
    · cases hj
      refine absurd ?_ hfeed
      unfold Error.message ConditionFault.message
      simp only [onOneLine_append]
      exact ⟨by decide, Value.Kind.onOneLine_name _⟩
    · rename_i cause hcause
      cases hj
      refine ⟨_, cause, hcause, fun hone => hfeed ?_⟩
      unfold Error.message ConditionFault.message
      simp only [onOneLine_append]
      exact ⟨by decide, hone⟩

end Progress

end Template

/-- **A snippet underlines a part of its code, on four lines unless there are more in it.** The
carets of an error are below the part of the code that the span covers: from the column that the code
in front of it ends at, as many as it has columns, one at least. For an expression the message has no
line feed, and the lines are four if and only if its text, without the line terminators at its end,
has none. For a template they are four if and only if neither the code nor the message has one; the
code has one only if a terminator was asked for that has something behind a line feed that is not
blank, and the message only if it is that of an error of the evaluator which has one. -/
theorem snippet_underlines_and_has_four_lines_iff [Alphabet] {width : List Char → Nat}
    (hwidth : LawfulWidth width) (e : Engine) (vars : Variables) (source : String) (error : Error) :
    (Expression.eval source = .error error →
      ∃ before part after,
        Excerpt.shown source.toList = before ++ part ++ after ∧
        error.Underlines width before part after ∧
        OnOneLine error.message ∧
        (IsLines 4 (error.report width).toList ↔ '\n' ∉ Excerpt.shown source.toList)) ∧
    ((e.render vars source).result = .error error →
      ∃ before part after,
        error.Underlines width before part after ∧
        (IsLines 4 (error.report width).toList ↔
          '\n' ∉ before ++ part ++ after ∧ OnOneLine error.message) ∧
        ('\n' ∈ before ++ part ++ after → ∃ newline front back c,
          e.dialect.newline? = some newline ∧ newline.toList = front ++ '\n' :: back ∧
          c ∈ back ∧ isBlank c = false) ∧
        (¬OnOneLine error.message → ∃ condition cause,
          e.evaluator condition = .error cause ∧ ¬OnOneLine cause.message)) := by
  constructor
  · intro h
    obtain ⟨failure, hvalue, rfl⟩ := Expression.eval_eq_error_iff.1 h
    have hshows := Excerpt.shows_of (Expression.within_of_value hvalue)
    have hexcerpt : (Error.expression failure.fault (.of source.toList failure.span)).excerpt? =
        some (.of source.toList failure.span) := rfl
    obtain ⟨before, part, after, hcode, hunderlines⟩ :=
      Error.exists_underlines hwidth hexcerpt hshows.within
    have hshown : Excerpt.shown source.toList = before ++ part ++ after := hcode
    have hmessage := failure.fault.onOneLine_message
    refine ⟨before, part, after, hshown, hunderlines, hmessage, ?_⟩
    rw [hunderlines.isLines_report_iff, hshown]
    exact and_iff_left hmessage
  · intro h
    obtain ⟨first, line, rest, span, hlines, -, hpoints, hexcerpt⟩ := Engine.exists_of_render h
    obtain ⟨before, part, after, hcode, hunderlines⟩ :=
      Error.exists_underlines hwidth hexcerpt hpoints.within
    refine ⟨before, part, after, hunderlines, hunderlines.isLines_report_iff, fun hfeed => ?_,
      fun hfeed => ?_⟩
    · rw [← hcode] at hfeed
      have hline : line ∈ lines (e.dialect.newline?.map (·.toList)) source.toList := by
        rw [hlines]
        exact List.mem_append_right _ List.mem_cons_self
      obtain ⟨newline, front, back, c, hnewline, hparts, hc, hblank⟩ :=
        exists_of_feed_mem_code hline hfeed
      obtain ⟨text, htext, rfl⟩ := Option.map_eq_some_iff.1 hnewline
      exact ⟨text, front, back, c, htext, hparts, hc, hblank⟩
    · obtain ⟨-, line, -, last, q, -, -, -, hline, -⟩ := Engine.exists_step_of_render h
      exact Progress.exists_of_not_onOneLine hline hfeed

section

open Ascii

/-- A line feed in front of an expression makes five lines, and the carets are not below what they
underline. A condition with wide characters is underlined in all their columns, on four lines. -/
theorem leading_feed_makes_five_lines :
    let columns (c : Char) : Nat := if c = '\n' then 0 else if 0x1100 ≤ c.toNat then 2 else 1
    let width (text : List Char) : Nat := text.foldr (fun c n => columns c + n) 0
    LawfulWidth width ∧
    (∃ error before part after,
      Expression.eval "\n1 / 0" = .error error ∧
      error.report width = "\n   |\n 1 | \n1 / 0\n   | ^^^^^ division by zero\n" ∧
      Excerpt.shown "\n1 / 0".toList = before ++ part ++ after ∧
      error.Underlines width before part after ∧
      ¬IsLines 4 (error.report width).toList) ∧
    ∃ error before part after,
      (Engine.standard.render {} "#if ('日本' < 1)\n").result = .error error ∧
      error.excerpt? = some ⟨"#if ('日本' < 1)".toList, ⟨5, 17⟩⟩ ∧
      error.report width = "\n   |\n 1 | #if ('日本' < 1)\n   |      ^^^^^^^^^^ " ++
        "condition does not evaluate as a boolean: cannot compare string with integer\n" ∧
      error.Underlines width before part after ∧
      IsLines 4 (error.report width).toList := by
  intro columns width
  have hcolumns {c : Char} (h : IsPlain c) : columns c = 1 := by
    obtain ⟨hlow, hhigh⟩ := h
    have hfeed : c ≠ '\n' := by
      rintro rfl
      exact absurd hlow (by decide)
    simp only [columns, if_neg hfeed]
    exact if_neg (by omega)
  have hwidth : LawfulWidth width := by
    refine ⟨fun {text} h => ?_⟩
    induction text with
    | nil => rfl
    | cons c rest ih =>
      obtain ⟨hc, hrest⟩ := List.forall_mem_cons.1 h
      show columns c + width rest = rest.length + 1
      rw [hcolumns hc, ih hrest, Nat.add_comm]
  refine ⟨hwidth, ?_, ?_⟩
  · have hfailure : Expression.value "\n1 / 0".toList = .error ⟨.divisionByZero, ⟨1, 6⟩⟩ :=
      Expression.value_eq_error_iff.2 (by decide +kernel)
    have heval := Expression.eval_eq_error_iff.2 ⟨_, hfailure, rfl⟩
    obtain ⟨before, part, after, hcode, hunderlines, -, hlines⟩ :=
      (snippet_underlines_and_has_four_lines_iff hwidth Engine.standard {} _ _).1 heval
    refine ⟨_, before, part, after, heval, by decide +kernel, hcode, hunderlines, fun h => ?_⟩
    exact absurd (hlines.1 h) (by decide +kernel)
  · have hrender : (Engine.standard.render {} "#if ('日本' < 1)\n").result =
        .error (.condition (.failed "cannot compare string with integer") 1
          ⟨"#if ('日本' < 1)".toList, ⟨5, 17⟩⟩) :=
      Engine.render_eq_error_iff.2 (by decide +kernel)
    obtain ⟨before, part, after, hunderlines, hlines, -, -⟩ :=
      (snippet_underlines_and_has_four_lines_iff hwidth _ _ _ _).2 hrender
    refine ⟨_, before, part, after, hrender, rfl, by decide +kernel, hunderlines,
      hlines.2 ⟨?_, by decide +kernel⟩⟩
    have hcode : "#if ('日本' < 1)".toList = before ++ part ++ after :=
      congrArg Excerpt.code (Option.some.inj hunderlines.excerpt?_eq)
    rw [← hcode]
    decide

end

end Stencil
