/-
Integers of variables in conditions.

A condition is a text when its variables are put in, and is read again. In the condition that
compares two variables their tokens are replaced by the texts of the integers, whatever the order of
the variables and whatever other names there are, unless a name is empty or goes on from the first
token (`foldl_token`). The comparison is then one of the integers, if both are read back.
-/
import Stencil.Proofs.Expression.Numeral
import Stencil.Proofs.Template.Simultaneous
import Stencil.Proofs.Template.Step

namespace Stencil

namespace Template

/-! ## Tokens in front of a text -/

variable {sigil : Char} {others new rest : List Char} {entry : Entry} {entries : List Entry}

theorem replaceVariable_append_of_not_mem {text : List Char} (h : sigil ∉ text)
    (rest : List Char) (entry : Entry) :
    replaceVariable sigil (text ++ rest) entry = text ++ replaceVariable sigil rest entry := by
  simp only [replaceVariable_eq, passes_of_not_mem h _ _]

theorem foldl_append_of_not_mem {text : List Char} (h : sigil ∉ text) (entries : List Entry)
    (rest : List Char) :
    entries.foldl (replaceVariable sigil) (text ++ rest) =
      text ++ entries.foldl (replaceVariable sigil) rest := by
  induction entries generalizing rest with
  | nil => rfl
  | cons entry entries ih =>
    rw [List.foldl_cons, List.foldl_cons, replaceVariable_append_of_not_mem h, ih]

theorem replace_token (sigil : Char) (name new rest : List Char) :
    replace sigil name new (sigil :: (name ++ rest)) = new ++ replace sigil name new rest := by
  have hfront : name.isPrefixOf (name ++ rest) = true :=
    List.isPrefixOf_iff_prefix.2 (List.prefix_append _ _)
  rw [replace, if_pos ⟨rfl, hfront⟩, List.drop_left]

theorem replace_other {name : List Char} (hname : sigil ∉ name) (h : ¬others <+: name ++ rest) :
    replace sigil others new (sigil :: (name ++ rest)) =
      sigil :: (name ++ replace sigil others new rest) := by
  rw [replace, if_neg fun hc => h (List.isPrefixOf_iff_prefix.1 hc.2), passes_of_not_mem hname]

/-- The turn of a variable at a token in front of a text, if it is the only name that the text can
go on with there. -/
theorem replaceVariable_token {name : String} (hname : sigil ∉ name.toList)
    (hbrace : ∀ rest, ¬['{'] <+: name.toList ++ rest)
    (halone : entry.1.toList <+: name.toList ++ rest → entry.1 = name)
    (hvalue : entry.1 = name → sigil ∉ entry.2.text.toList) :
    replaceVariable sigil (sigil :: (name.toList ++ rest)) entry =
      (if entry.1 = name then entry.2.text.toList else sigil :: name.toList) ++
        replaceVariable sigil rest entry := by
  rw [replaceVariable_eq, replaceVariable_eq]
  by_cases h : entry.1 = name
  · rw [if_pos h, h, replace_token, passes_of_not_mem (hvalue h)]
  · have hbraced (rest : List Char) : ¬braced entry.1.toList <+: name.toList ++ rest := fun hin =>
      hbrace rest ((List.prefix_append ['{'] _).trans hin)
    rw [if_neg h, replace_other hname (mt halone h), replace_other hname (hbraced _)]
    rfl

/-- All turns at a token in front of a text. What the text goes on with may change from turn to turn,
but keeps to `Follows`. -/
theorem foldl_token {name : String} {value : Value} (Follows : List Char → Prop)
    (hname : sigil ∉ name.toList) (hbrace : ∀ rest, ¬['{'] <+: name.toList ++ rest)
    (hkeeps : ∀ entry ∈ entries, ∀ rest, Follows rest → Follows (replaceVariable sigil rest entry))
    (halone : ∀ entry ∈ entries, ∀ rest, Follows rest →
      entry.1.toList <+: name.toList ++ rest → entry.1 = name)
    (hfound : Entry.find? name entries = some value) (hvalue : sigil ∉ value.text.toList)
    (hrest : Follows rest) :
    entries.foldl (replaceVariable sigil) (sigil :: (name.toList ++ rest)) =
      value.text.toList ++ entries.foldl (replaceVariable sigil) rest := by
  induction entries generalizing rest with
  | nil => cases hfound
  | cons entry entries ih =>
    obtain ⟨hkeeps, hkeeps'⟩ := List.forall_mem_cons.1 hkeeps
    obtain ⟨halone, halone'⟩ := List.forall_mem_cons.1 halone
    have hturn (hvalue : entry.1 = name → sigil ∉ entry.2.text.toList) :=
      replaceVariable_token hname hbrace (halone rest hrest) hvalue
    obtain ⟨other, v⟩ := entry
    rw [Entry.find?] at hfound
    by_cases h : other = name
    · rw [if_pos h] at hfound
      obtain rfl := Option.some.inj hfound
      rw [List.foldl_cons, hturn fun _ => hvalue, if_pos h, foldl_append_of_not_mem hvalue]
      rfl
    · rw [if_neg h] at hfound
      rw [List.foldl_cons, hturn fun hn => absurd hn h, if_neg h]
      exact ih hkeeps' halone' hfound (hkeeps rest hrest)

/-! ## The condition that compares two variables -/

/-- The condition as it stands in a template. -/
def comparing (op : Expression.Comparison) : List Char := ("$x " ++ op.sign ++ " $y").toList

theorem comparing_eq (op : Expression.Comparison) :
    comparing op = '$' :: ("x".toList ++ ([' '] ++ (op.sign.toList ++ ([' '] ++
      '$' :: ("y".toList ++ []))))) := by
  cases op <;> rfl

theorem exists_toList_eq_cons {name : String} {c : Char} (hne : name ≠ "")
    (h : name.toList <+: c :: rest) : ∃ more, name.toList = c :: more ∧ more <+: rest := by
  cases hname : name.toList with
  | nil => exact absurd (String.toList_eq_nil_iff.1 hname) hne
  | cons d more =>
    rw [hname, List.cons_prefix_cons] at h
    exact ⟨more, by rw [h.1], h.2⟩

/-- Where a space follows the token, only its own name is read there. -/
theorem eq_of_prefix_left {name : String} (hne : name ≠ "")
    (hlonger : ¬"x ".toList <+: name.toList) (h : name.toList <+: "x".toList ++ ' ' :: rest) :
    name = "x" := by
  obtain ⟨more, hname, hmore⟩ := exists_toList_eq_cons hne h
  cases more with
  | nil => exact String.toList_inj.1 hname
  | cons d more =>
    obtain ⟨rfl, -⟩ := List.cons_prefix_cons.1 hmore
    exact absurd (hname ▸ List.prefix_append ['x', ' '] more) hlonger

/-- At the end of the text, only a token's own name is read. -/
theorem eq_of_prefix_right {name : String} (hne : name ≠ "") (h : name.toList <+: "y".toList ++ []) :
    name = "y" := by
  obtain ⟨more, hname, hmore⟩ := exists_toList_eq_cons hne h
  rw [List.prefix_nil.1 hmore] at hname
  exact String.toList_inj.1 hname

/-- Both integers are put in, and nothing else. -/
theorem substitute_comparing (op : Expression.Comparison) {a b : Int64} {vars : Variables}
    (hx : vars.get? "x" = some (.integer a)) (hy : vars.get? "y" = some (.integer b))
    (hnames : ∀ name ∈ vars.keys, name ≠ "" ∧ ¬"x ".toList <+: name.toList) :
    substitute '$' vars (comparing op) = op.text a.toInt b.toInt := by
  have hentries : ∀ entry ∈ vars.entries, entry.1 ≠ "" ∧ ¬"x ".toList <+: entry.1.toList :=
    fun entry hentry => hnames entry.1 (List.mem_map_of_mem hentry)
  have hvalue (a : Int64) : '$' ∉ (Value.integer a).text.toList := by
    rw [Expression.Numeral.toList_text_integer]
    exact Expression.Numeral.not_mem_text (by decide) rfl _
  have hmiddle : '$' ∉ [' '] ++ (op.sign.toList ++ [' ']) := by cases op <;> decide
  have hleft (rest : List Char) :
      vars.entries.foldl (replaceVariable '$') ('$' :: ("x".toList ++ ' ' :: rest)) =
        (Value.integer a).text.toList ++ vars.entries.foldl (replaceVariable '$') (' ' :: rest) := by
    refine foldl_token (fun rest => ∃ more, rest = ' ' :: more) (by decide) ?_ ?_ ?_ hx (hvalue a)
      ⟨rest, rfl⟩
    · exact fun rest h => absurd (List.cons_prefix_cons.1 h).1 (by decide)
    · rintro entry - _ ⟨more, rfl⟩
      have hspace : '$' ∉ [' '] := by decide
      exact ⟨_, replaceVariable_append_of_not_mem hspace more entry⟩
    · rintro entry hentry _ ⟨more, rfl⟩ h
      exact eq_of_prefix_left (hentries entry hentry).1 (hentries entry hentry).2 h
  have hright :
      vars.entries.foldl (replaceVariable '$') ('$' :: ("y".toList ++ [])) =
        (Value.integer b).text.toList ++ vars.entries.foldl (replaceVariable '$') [] := by
    refine foldl_token (· = []) (by decide) ?_ ?_ ?_ hy (hvalue b) rfl
    · exact fun rest h => absurd (List.cons_prefix_cons.1 h).1 (by decide)
    · rintro entry - _ rfl
      rw [replaceVariable_eq, replace, replace]
    · rintro entry hentry _ rfl h
      exact eq_of_prefix_right (hentries entry hentry).1 h
  have hend : vars.entries.foldl (replaceVariable '$') [] = [] := by
    rw [← substitute_eq_foldl]
    rfl
  have hgroup (tail : List Char) :
      ' ' :: (op.sign.toList ++ ([' '] ++ tail)) = ([' '] ++ (op.sign.toList ++ [' '])) ++ tail := by
    simp
  calc substitute '$' vars (comparing op)
      = vars.entries.foldl (replaceVariable '$') ('$' :: ("x".toList ++
          ' ' :: (op.sign.toList ++ ([' '] ++ '$' :: ("y".toList ++ []))))) := by
        rw [substitute_eq_foldl, comparing_eq]
        rfl
    _ = (Value.integer a).text.toList ++ (([' '] ++ (op.sign.toList ++ [' '])) ++
          ((Value.integer b).text.toList ++ [])) := by
        rw [hleft, hgroup, foldl_append_of_not_mem hmiddle, hright, hend]
    _ = op.text a.toInt b.toInt := by
        rw [List.append_nil, Expression.Numeral.toList_text_integer,
          Expression.Numeral.toList_text_integer, Expression.Comparison.text]
        simp

/-- The line that opens a block by the condition. -/
def opening (op : Expression.Comparison) : List Char := ("#if ($x " ++ op.sign ++ " $y)").toList

theorem ofCode_opening (op : Expression.Comparison) :
    Directive.ofCode (Text.dropEnd Text.isBlank (opening op)) =
      .marker (.ifHolds (comparing op)) := by
  cases op <;> decide

theorem call_comparing (e : Engine) (op : Expression.Comparison) (vars : Variables) :
    Progress.call e vars ifOpening (comparing op) =
      String.ofList (substitute e.dialect.sigil vars (comparing op)) := by
  have hcondition : (conditionAt ifOpening (comparing op)).1 = comparing op := by
    cases op <;> decide
  rw [Progress.call, hcondition]

end Template

namespace Engine

open Template Expression

/-- **Integers of variables keep their values in conditions, the least one excepted.** With variables
`x` and `y` that hold integers, the condition that compares them has the answer of the integers, and
the block that it opens is taken or not by that answer, unless one of them is the least integer of 64
bits: then the condition is refused, because the least integer is written as a minus in front of
digits that are no integer of 64 bits. In the same way the text of an integer is read back as the
integer if it is not the least one. Other variables may be there, but for names that would take the
place of the tokens. -/
theorem compares_integers [Text.Alphabet] (op : Comparison) (a b : Int64) (vars : Variables)
    (hx : vars.get? "x" = some (.integer a)) (hy : vars.get? "y" = some (.integer b))
    (hnames : ∀ name ∈ vars.keys, name ≠ "" ∧ ¬"x ".toList <+: name.toList) :
    let e := standard
    let condition := String.ofList
      (substitute e.dialect.sigil vars ("$x " ++ op.sign ++ " $y").toList)
    let line := ("#if ($x " ++ op.sign ++ " $y)").toList
    (a ≠ Int64.minValue → b ≠ Int64.minValue →
      e.evaluator condition = .ok (.bool (op.relates a.toInt b.toInt)) ∧
      ∀ p : Progress, p.vars = vars → ∃ q, p.step e line = (q, none) ∧
        q.blocks = (if op.relates a.toInt b.toInt then .ifTaken else .ifSkipped) :: p.blocks) ∧
    (a = Int64.minValue ∨ b = Int64.minValue →
      (∃ excerpt, e.evaluator condition = .error (.expression .integerOutOfRange excerpt)) ∧
      ∀ p : Progress, p.vars = vars → ∃ q excerpt, p.step e line =
        (q, some (.condition (.failed "integer literal out of range for 64-bit integer")
          (p.count + 1) excerpt))) ∧
    ∀ c : Int64,
      (c ≠ Int64.minValue → eval (Value.integer c).text = .ok (.integer c)) ∧
      (c = Int64.minValue →
        ∃ excerpt, eval (Value.integer c).text = .error (.expression .integerOutOfRange excerpt)) := by
  intro e condition line
  have hcall : Progress.call e vars ifOpening (comparing op) = condition :=
    call_comparing e op vars
  have hcondition : condition.toList = op.text a.toInt b.toInt := by
    rw [String.toList_ofList]
    exact substitute_comparing op hx hy hnames
  obtain ⟨hvalue, hfault⟩ := op.value_text a b
  have hmove (p : Progress) : (Marker.ifHolds (comparing op)).move p.blocks =
      .ask ifOpening (comparing op) (.ifTaken :: p.blocks) (.ifSkipped :: p.blocks) := by
    rw [Marker.move]
  refine ⟨fun ha hb => ?_, fun hleast => ?_, fun c => ?_⟩
  · have hok : e.evaluator condition = .ok (.bool (op.relates a.toInt b.toInt)) :=
      eval_of_value_eq_ok (hcondition ▸ hvalue ha hb)
    refine ⟨hok, fun p hp => ?_⟩
    have hjudge : e.judge (Progress.call e p.vars ifOpening (comparing op)) =
        .ok (op.relates a.toInt b.toInt) := by
      rw [hp, hcall, judge, hok]
    obtain ⟨events, hstep⟩ := Progress.step_ask (ofCode_opening op) (hmove p) hjudge
    refine ⟨_, hstep, ?_⟩
    cases op.relates a.toInt b.toInt <;> rfl
  · obtain ⟨span, hspan⟩ := hfault hleast
    have hfailure : value condition.toList = .error ⟨.integerOutOfRange, span⟩ :=
      hcondition ▸ hspan
    have herror : e.evaluator condition =
        .error (.expression .integerOutOfRange (.of condition.toList span)) :=
      eval_of_value_eq_error hfailure
    refine ⟨⟨_, herror⟩, fun p hp => ?_⟩
    have hjudge : e.judge (Progress.call e p.vars ifOpening (comparing op)) =
        .error (.failed "integer literal out of range for 64-bit integer") := by
      rw [hp, hcall, judge, herror]
      rfl
    obtain ⟨events, hstep⟩ := Progress.step_undecided (ofCode_opening op) (hmove p) hjudge
    exact ⟨_, _, hstep⟩
  · obtain ⟨hok, herror⟩ := Numeral.value_text c
    rw [← Numeral.toList_text_integer] at hok herror
    refine ⟨fun hc => eval_of_value_eq_ok (hok hc), fun hc => ?_⟩
    obtain ⟨span, hspan⟩ := herror hc
    exact ⟨_, eval_of_value_eq_error hspan⟩

section

open Text.Ascii

/-- The least integer and the one above it, both less than zero. -/
theorem compares_integers_at_least :
    let vars (a : Int64) : Variables :=
      .ofList [("y", .integer 0), ("xy", .string "1"), ("x", .integer a)]
    let condition (a : Int64) := String.ofList (substitute '$' (vars a) "$x < $y".toList)
    eval (condition (-9223372036854775807)) = .ok (.bool true) ∧
      ∃ excerpt, eval (condition Int64.minValue) =
        .error (.expression .integerOutOfRange excerpt) := by
  intro vars condition
  have hnames (a : Int64) :
      ∀ name ∈ (vars a).keys, name ≠ "" ∧ ¬"x ".toList <+: name.toList := by
    have hkeys : (vars a).keys = ["y", "xy", "x"] := rfl
    rw [hkeys]
    decide
  exact ⟨((compares_integers .less (-9223372036854775807) 0 (vars _) rfl rfl (hnames _)).1
      (by decide) (by decide)).1,
    ((compares_integers .less Int64.minValue 0 (vars _) rfl rfl (hnames _)).2.1 (.inl rfl)).1⟩

end

end Engine

end Stencil
