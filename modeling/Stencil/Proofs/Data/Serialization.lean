/-
Variables as data, and back.

Variables are a map of their entries, and what data of a map gives is inserted into new variables.
The names of variables are distinct, so every insertion puts its entry at the end and none takes the
place of another (`entries_extend`). Of the values only the kind may change: a preformatted text
comes back as a string of the same text, and all that a template shows of it is the text.
-/
import Stencil.Proofs.Data.Acceptance
import Stencil.Template.Substitution

namespace Stencil

/-- The value with a preformatted text made a string. -/
def Value.unformatted : Value → Value
  | .formatted s => .string s
  | v => v

theorem Value.text_unformatted (v : Value) : v.unformatted.text = v.text := by cases v <;> rfl

theorem Value.unformatted_unformatted (v : Value) : v.unformatted.unformatted = v.unformatted := by
  cases v <;> rfl

theorem Entry.exchange_of_not_mem {name : String} {value : Value} {entries : List Entry}
    (h : name ∉ entries.map (·.1)) : (exchange name value entries).2 = entries ++ [(name, value)] := by
  induction entries with
  | nil => rfl
  | cons e rest ih =>
    rw [List.map_cons, List.mem_cons, not_or] at h
    rw [exchange, if_neg (Ne.symm h.1), ih h.2]
    rfl

namespace Variables

/-- Entries under new names are put at the end, one behind the other. -/
theorem entries_extend {vars : Variables} {entries : List Entry}
    (h : ((vars.entries ++ entries).map (·.1)).Nodup) :
    (vars.extend entries).entries = vars.entries ++ entries := by
  induction entries generalizing vars with
  | nil => exact (List.append_nil _).symm
  | cons e rest ih =>
    rw [List.append_cons] at h ⊢
    have hname : e.1 ∉ vars.entries.map (·.1) := fun hin => by
      rw [List.map_append, List.map_append, List.nodup_append, List.nodup_append] at h
      exact h.1.2.2 e.1 hin e.1 (List.mem_singleton_self _) rfl
    have hinsert : (vars.insert e.1 e.2).entries = vars.entries ++ [e] :=
      Entry.exchange_of_not_mem hname
    rw [← hinsert] at h ⊢
    exact ih h

/-- Variables are made again of their entries. -/
theorem ofList_entries (vars : Variables) : ofList vars.entries = vars :=
  ext (entries_extend vars.distinct)

/-- The variables with their preformatted texts made strings. -/
def unformatted (vars : Variables) : Variables where
  entries := vars.entries.map fun e => (e.1, e.2.unformatted)
  distinct := by
    have hkeys : (vars.entries.map fun e => (e.1, e.2.unformatted)).map (·.1) =
        vars.entries.map (·.1) := List.map_map
    rw [hkeys]
    exact vars.distinct

theorem unformatted_unformatted (vars : Variables) :
    vars.unformatted.unformatted = vars.unformatted := by
  refine ext (List.map_map.trans (List.map_congr_left fun e _ => ?_))
  exact congrArg (e.1, ·) e.2.unformatted_unformatted

end Variables

namespace Data

/-- A value as data is a scalar, of the same value but for its kind. -/
theorem scalar_ofValue (v : Value) : Scalar (ofValue v).bare v.unformatted := by
  cases v with
  | bool b => exact .bool b
  | integer n => exact .signed n
  | float x => exact .float x
  | string s => exact .text s
  | formatted s => exact .text s

/-- An entry as data, its name being the key. -/
def ofEntry (e : Entry) : Data × Data := (.text e.1, ofValue e.2)

theorem toVariables_ofVariables (vars : Variables) :
    (ofVariables vars).toVariables = .ok vars.unformatted := by
  have hcalls : ofVariables vars = .map ((vars.entries.map ofEntry).flatMap entryCalls) :=
    congrArg Data.map (List.flatMap_map ofEntry entryCalls _).symm
  have hholds : Holds (ofVariables vars).bare (vars.entries.map ofEntry) := by
    rw [hcalls]
    exact .map _
  have hgives : List.Forall₂ Gives (vars.entries.map ofEntry) vars.unformatted.entries := by
    rw [Variables.unformatted, List.forall₂_map_left_iff, List.forall₂_map_right_iff,
      List.forall₂_same]
    exact fun e _ => ⟨.text e.1, scalar_ofValue e.2⟩
  rw [toVariables_of_holds hholds, foldlM_takeEntry_eq_ok_iff]
  exact ⟨_, hgives, vars.unformatted.ofList_entries.symm⟩

end Data

namespace Template

/-- Substitution knows the values by their texts only. -/
theorem substitute_unformatted (sigil : Char) (vars : Variables) (text : List Char) :
    substitute sigil vars.unformatted text = substitute sigil vars text := by
  have hturn (text : List Char) (e : Entry) :
      replaceVariable sigil text (e.1, e.2.unformatted) = replaceVariable sigil text e := by
    simp only [replaceVariable, Value.text_unformatted]
  simp only [substitute, Variables.unformatted, List.foldl_map, hturn]

end Template

/-- **Variables survive serialization.** All variables are accepted as data. What they come back as
has the same names in the same order, each with the value that it had, but for preformatted texts,
which are strings then. So what came back once comes back as it is, and no template shows a
difference. -/
theorem Variables.survive_serialization (vars : Variables) :
    ∃ back, Variables.ofData (.ofVariables vars) = .ok back ∧
      back.entries = vars.entries.map (fun e => (e.1, e.2.unformatted)) ∧
      Variables.ofData (.ofVariables back) = .ok back ∧
      ∀ sigil text, Template.substitute sigil back text = Template.substitute sigil vars text := by
  have hback (vars : Variables) : ofData (.ofVariables vars) = .ok vars.unformatted := by
    rw [ofData, Data.toVariables_ofVariables]
    rfl
  refine ⟨vars.unformatted, hback vars, rfl, ?_, fun sigil text =>
    Template.substitute_unformatted sigil vars text⟩
  rw [hback, vars.unformatted_unformatted]

end Stencil
