/-
Which data is a source of variables, and what the variables are.

Wrappers are of no account, nor are optional values that are there, but in a key an optional value
is no text. So what data is worth is read off what it is without them (`bare`, and `plain` for a
key): a key must have a text (`Named`), a value must be a scalar (`Scalar`), and the whole a map or a
record (`Holds`). The calls that build a map are taken in their order, so the first of them that
asks for something else says why the data is refused (`FirstOffence`).
-/
import Mathlib.Data.List.Forall2
import Stencil.Data

namespace Stencil.Data

/-! ## What is in the wrappers -/

/-- The data without the wrappers around it. -/
def plain : Data → Data
  | .wrapper _ inner => inner.plain
  | d => d

/-- The data without the wrappers and the optional values around it. -/
def bare : Data → Data
  | .some inner => inner.bare
  | .wrapper _ inner => inner.bare
  | d => d

variable {d : Data}

theorem key_plain (d : Data) : d.plain.key = d.key := by
  fun_induction plain d with
  | case1 name inner ih => rw [ih, key]
  | case2 d h => rfl

theorem value_bare (d : Data) : d.bare.value = d.value := by
  fun_induction bare d with
  | case1 inner ih => rw [ih, value]
  | case2 name inner ih => rw [ih, value]
  | case3 d hsome hwrapper => rfl

theorem toVariables_bare (d : Data) : d.bare.toVariables = d.toVariables := by
  fun_induction bare d with
  | case1 inner ih => rw [ih, toVariables]
  | case2 name inner ih => rw [ih, toVariables]
  | case3 d hsome hwrapper => rfl

theorem plain_ne_wrapper (d : Data) (name : String) (inner : Data) :
    d.plain ≠ .wrapper name inner := by
  fun_induction plain d with
  | case1 _ _ ih => exact ih
  | case2 d h => exact h name inner

theorem bare_ne_some (d inner : Data) : d.bare ≠ .some inner := by
  fun_induction bare d with
  | case1 _ ih => exact ih
  | case2 _ _ ih => exact ih
  | case3 d hsome hwrapper => exact hsome inner

theorem bare_ne_wrapper (d : Data) (name : String) (inner : Data) :
    d.bare ≠ .wrapper name inner := by
  fun_induction bare d with
  | case1 _ ih => exact ih
  | case2 _ _ ih => exact ih
  | case3 d hsome hwrapper => exact hwrapper name inner

/-! ## Keys -/

/-- The text that data has as a key. -/
inductive Named : Data → String → Prop
  | text (s : String) : Named (.text s) s
  | char (c : Char) : Named (.char c) c.toString
  | signed (n : Int64) : Named (.signed n) (toString n.toInt)
  | unsigned (n : UInt64) : Named (.unsigned n) (toString n.toNat)
  | plainVariant (enumeration variant : String) :
    Named (.plainVariant enumeration variant) variant

/-- Why data that has no text is refused as a key. -/
def keyFault : Data → Fault
  | .wide isSigned => .unsupported isSigned
  | _ => .keyIsNoText

variable {name : String} {v : Value} {fault : Fault}

theorem key_of_named (h : Named d name) : d.key = .ok name := by cases h <;> rfl

theorem key_of_not_named (hwrapper : ∀ name inner, d ≠ .wrapper name inner)
    (h : ∀ name, ¬Named d name) : d.key = .error d.keyFault := by
  cases d
  case text s => exact absurd (.text s) (h _)
  case char c => exact absurd (.char c) (h _)
  case signed n => exact absurd (.signed n) (h _)
  case unsigned n => exact absurd (.unsigned n) (h _)
  case plainVariant enumeration variant => exact absurd (.plainVariant enumeration variant) (h _)
  case wrapper name inner => exact absurd rfl (hwrapper name inner)
  all_goals rfl

theorem key_eq_ok_iff : d.key = .ok name ↔ Named d.plain name := by
  rw [← key_plain]
  refine ⟨fun h => ?_, key_of_named⟩
  by_cases hnamed : ∃ other, Named d.plain other
  · obtain ⟨other, hother⟩ := hnamed
    rw [key_of_named hother, Except.ok.injEq] at h
    exact h ▸ hother
  · rw [key_of_not_named (plain_ne_wrapper d) (not_exists.1 hnamed)] at h
    cases h

theorem key_eq_error_iff :
    d.key = .error fault ↔ (∀ name, ¬Named d.plain name) ∧ fault = d.plain.keyFault := by
  constructor
  · intro h
    have hnone : ∀ name, ¬Named d.plain name := by
      intro name hname
      rw [key_eq_ok_iff.2 hname] at h
      cases h
    rw [← key_plain, key_of_not_named (plain_ne_wrapper d) hnone, Except.error.injEq] at h
    exact ⟨hnone, h.symm⟩
  · rintro ⟨hnone, rfl⟩
    rw [← key_plain, key_of_not_named (plain_ne_wrapper d) hnone]

/-! ## Values -/

/-- The value that data has as a scalar. -/
inductive Scalar : Data → Value → Prop
  | bool (b : Bool) : Scalar (.bool b) (.bool b)
  | signed (n : Int64) : Scalar (.signed n) (.integer n)
  | unsigned {n : UInt64} {m : Int64} (h : m.toInt = n.toNat) : Scalar (.unsigned n) (.integer m)
  | float (x : Float) : Scalar (.float x) (.float x)
  | char (c : Char) : Scalar (.char c) (.string c.toString)
  | text (s : String) : Scalar (.text s) (.string s)
  | none : Scalar .none (.formatted "")
  | unit : Scalar .unit (.formatted "")
  | emptyRecord (name : String) : Scalar (.emptyRecord name) (.formatted "")
  | plainVariant (enumeration variant : String) :
    Scalar (.plainVariant enumeration variant) (.string variant)

/-- Why data that is no scalar is refused as a value. -/
def valueFault : Data → Fault
  | .wide isSigned => .unsupported isSigned
  | .bytes _ => .notScalar .bytes
  | .wrappedVariant .. | .positionalVariant .. | .recordVariant .. => .notScalar .variant
  | .sequence _ => .notScalar .sequence
  | .tuple _ => .notScalar .tuple
  | .positionalRecord .. => .notScalar .positionalRecord
  | .map _ => .notScalar .map
  | .record .. => .notScalar .record
  | _ => .outOfRange

theorem value_of_scalar (h : Scalar d v) : d.value = .ok v := by
  cases h with
  | @unsigned n m h => rw [value, ← h, narrow?_toInt]
  | _ => rfl

theorem value_of_not_scalar (hsome : ∀ inner, d ≠ .some inner)
    (hwrapper : ∀ name inner, d ≠ .wrapper name inner) (h : ∀ v, ¬Scalar d v) :
    d.value = .error d.valueFault := by
  cases d
  case bool b => exact absurd (.bool b) (h _)
  case signed n => exact absurd (.signed n) (h _)
  case unsigned n =>
    cases hn : narrow? n.toNat with
    | some m => exact absurd (.unsigned (toInt_of_narrow? hn)) (h _)
    | none => simp only [value, hn, valueFault]
  case float x => exact absurd (.float x) (h _)
  case char c => exact absurd (.char c) (h _)
  case text s => exact absurd (.text s) (h _)
  case none => exact absurd .none (h _)
  case unit => exact absurd .unit (h _)
  case emptyRecord name => exact absurd (.emptyRecord name) (h _)
  case plainVariant enumeration variant => exact absurd (.plainVariant enumeration variant) (h _)
  case some inner => exact absurd rfl (hsome inner)
  case wrapper name inner => exact absurd rfl (hwrapper name inner)
  all_goals rfl

theorem value_eq_ok_iff : d.value = .ok v ↔ Scalar d.bare v := by
  rw [← value_bare]
  refine ⟨fun h => ?_, value_of_scalar⟩
  by_cases hscalar : ∃ other, Scalar d.bare other
  · obtain ⟨other, hother⟩ := hscalar
    rw [value_of_scalar hother, Except.ok.injEq] at h
    exact h ▸ hother
  · rw [value_of_not_scalar (bare_ne_some d) (bare_ne_wrapper d) (not_exists.1 hscalar)] at h
    cases h

theorem value_eq_error_iff :
    d.value = .error fault ↔ (∀ v, ¬Scalar d.bare v) ∧ fault = d.bare.valueFault := by
  constructor
  · intro h
    have hnone : ∀ v, ¬Scalar d.bare v := by
      intro v hv
      rw [value_eq_ok_iff.2 hv] at h
      cases h
    rw [← value_bare, value_of_not_scalar (bare_ne_some d) (bare_ne_wrapper d) hnone,
      Except.error.injEq] at h
    exact ⟨hnone, h.symm⟩
  · rintro ⟨hnone, rfl⟩
    rw [← value_bare, value_of_not_scalar (bare_ne_some d) (bare_ne_wrapper d) hnone]

/-! ## Maps and records -/

/-- The calls for one entry of a map. -/
def entryCalls (entry : Data × Data) : List (Role × Data) := [(.key, entry.1), (.value, entry.2)]

/-- The keys and values that a map or a record is built of, in their order. -/
inductive Holds : Data → List (Data × Data) → Prop
  | map (entries : List (Data × Data)) : Holds (.map (entries.flatMap entryCalls)) entries
  | record (name : String) (fields : List (String × Data)) :
    Holds (.record name fields) (fields.map fun field => (.text field.1, field.2))

/-- Whether data that is a map is built of whole entries. -/
def IsPaired (d : Data) : Prop :=
  ∀ calls, d.bare = .map calls → ∃ entries : List (Data × Data), calls = entries.flatMap entryCalls

/-- What an entry puts into the variables. -/
def Gives (entry : Data × Data) (e : Entry) : Prop :=
  Named entry.1.plain e.1 ∧ Scalar entry.2.bare e.2

/-- Whether the first entry that gives nothing has this fault, in its key or else in its value. -/
def FirstOffence (entries : List (Data × Data)) (fault : Fault) : Prop :=
  ∃ before k v after, entries = before ++ (k, v) :: after ∧
    (∀ entry ∈ before, ∃ e, Gives entry e) ∧
    ((∀ name, ¬Named k.plain name) ∧ fault = k.plain.keyFault ∨
      (∃ name, Named k.plain name) ∧ (∀ x, ¬Scalar v.bare x) ∧ fault = v.bare.valueFault)

/-- Why data that is neither a map nor a record is refused. -/
def wholeFault : Data → Fault
  | .wide isSigned => .unsupported isSigned
  | _ => .notAMap

/-- The calls of an entry, as one step. -/
def takeEntry (vars : Variables) (entry : Data × Data) : Except Fault Variables := do
  let name ← entry.1.key
  let v ← entry.2.value
  return vars.insert name v

variable {entry : Data × Data} {entries : List (Data × Data)} {vars out : Variables}

theorem takeEntry_of_gives {e : Entry} (h : Gives entry e) :
    takeEntry vars entry = .ok (vars.insert e.1 e.2) := by
  rw [takeEntry, key_eq_ok_iff.2 h.1, value_eq_ok_iff.2 h.2]
  rfl

theorem exists_gives_of_takeEntry (h : takeEntry vars entry = .ok out) :
    ∃ e, Gives entry e ∧ out = vars.insert e.1 e.2 := by
  rw [takeEntry] at h
  cases hk : entry.1.key with
  | error fault => rw [hk] at h; cases h
  | ok name =>
    cases hv : entry.2.value with
    | error fault => rw [hk, hv] at h; cases h
    | ok v =>
      rw [hk, hv] at h
      cases h
      exact ⟨(name, v), ⟨key_eq_ok_iff.1 hk, value_eq_ok_iff.1 hv⟩, rfl⟩

/-- An entry is refused for its key, or else for its value. -/
theorem takeEntry_eq_error_iff :
    takeEntry vars entry = .error fault ↔
      (∀ name, ¬Named entry.1.plain name) ∧ fault = entry.1.plain.keyFault ∨
        (∃ name, Named entry.1.plain name) ∧
          (∀ v, ¬Scalar entry.2.bare v) ∧ fault = entry.2.bare.valueFault := by
  rw [← key_eq_error_iff, ← value_eq_error_iff]
  simp only [← key_eq_ok_iff]
  rw [takeEntry]
  cases hk : entry.1.key with
  | error keyFault => simp [bind, Except.bind]
  | ok name =>
    cases hv : entry.2.value with
    | error valueFault => simp [bind, Except.bind]
    | ok v => simp [bind, Except.bind, pure, Except.pure]

/-- A map that is built of whole entries takes them one after the other. -/
theorem foldlM_entryCalls (vars : Variables) (entries : List (Data × Data)) :
    (entries.flatMap entryCalls).foldlM Pairing.call ⟨vars, .none⟩ =
      (entries.foldlM takeEntry vars).map (⟨·, .none⟩) := by
  induction entries generalizing vars with
  | nil => rfl
  | cons entry rest ih =>
    have hentry : (entryCalls entry).foldlM Pairing.call ⟨vars, .none⟩ =
        (takeEntry vars entry).map (⟨·, .none⟩) := by
      simp only [entryCalls, List.foldlM_cons, List.foldlM_nil, Pairing.call, takeEntry]
      cases entry.1.key with
      | error fault => rfl
      | ok name => cases entry.2.value <;> rfl
    rw [List.flatMap_cons, List.foldlM_append, List.foldlM_cons, hentry]
    cases takeEntry vars entry with
    | error fault => rfl
    | ok next => exact ih next

theorem foldlM_takeEntry_eq_ok_iff :
    entries.foldlM takeEntry vars = .ok out ↔
      ∃ pairs, List.Forall₂ Gives entries pairs ∧ out = vars.extend pairs := by
  induction entries generalizing vars with
  | nil =>
    simp only [List.foldlM_nil, List.forall₂_nil_left_iff, exists_eq_left]
    exact ⟨fun h => (Except.ok.inj h).symm, fun h => congrArg _ h.symm⟩
  | cons entry rest ih =>
    rw [List.foldlM_cons]
    constructor
    · intro h
      cases hentry : takeEntry vars entry with
      | error fault => rw [hentry] at h; cases h
      | ok next =>
        rw [hentry] at h
        obtain ⟨e, he, rfl⟩ := exists_gives_of_takeEntry hentry
        obtain ⟨pairs, hpairs, rfl⟩ := ih.1 h
        exact ⟨e :: pairs, .cons he hpairs, rfl⟩
    · rintro ⟨pairs, hpairs, rfl⟩
      cases hpairs with
      | @cons _ e _ pairs he hpairs =>
        rw [takeEntry_of_gives he]
        exact ih.2 ⟨pairs, hpairs, rfl⟩

/-- The first offence is in the first entry, or else in the others. -/
theorem firstOffence_cons_iff (vars : Variables) :
    FirstOffence (entry :: entries) fault ↔
      takeEntry vars entry = .error fault ∨
        (∃ e, Gives entry e) ∧ FirstOffence entries fault := by
  constructor
  · rintro ⟨before, k, v, after, hsplit, hbefore, hoffence⟩
    cases before with
    | nil =>
      cases hsplit
      exact .inl (takeEntry_eq_error_iff.2 hoffence)
    | cons first before =>
      cases hsplit
      obtain ⟨hfirst, hbefore⟩ := List.forall_mem_cons.1 hbefore
      exact .inr ⟨hfirst, before, k, v, after, rfl, hbefore, hoffence⟩
  · rintro (h | ⟨hfirst, before, k, v, after, rfl, hbefore, hoffence⟩)
    · exact ⟨[], entry.1, entry.2, entries, rfl, by simp, takeEntry_eq_error_iff.1 h⟩
    · exact ⟨entry :: before, k, v, after, rfl, List.forall_mem_cons.2 ⟨hfirst, hbefore⟩,
        hoffence⟩

theorem foldlM_takeEntry_eq_error_iff :
    entries.foldlM takeEntry vars = .error fault ↔ FirstOffence entries fault := by
  induction entries generalizing vars with
  | nil =>
    constructor
    · intro h
      cases h
    · rintro ⟨before, k, v, after, hnil, -⟩
      simp at hnil
  | cons entry rest ih =>
    rw [List.foldlM_cons, firstOffence_cons_iff vars]
    cases hentry : takeEntry vars entry with
    | error first =>
      have hnone : ¬ ∃ e, Gives entry e := by
        rintro ⟨e, he⟩
        rw [takeEntry_of_gives he] at hentry
        cases hentry
      simp only [hnone, false_and, or_false]
      rfl
    | ok next =>
      obtain ⟨e, he, -⟩ := exists_gives_of_takeEntry hentry
      have hgives : ∃ e, Gives entry e := ⟨e, he⟩
      simp only [hgives, true_and, reduceCtorEq, false_or]
      exact ih

theorem toVariables_of_holds (h : Holds d.bare entries) :
    d.toVariables = entries.foldlM takeEntry .empty := by
  have hbuild : build (entries.flatMap entryCalls) = entries.foldlM takeEntry .empty := by
    have hcalls := foldlM_entryCalls .empty entries
    rw [build]
    change ((entries.flatMap entryCalls).foldlM Pairing.call ⟨.empty, .none⟩ >>= _) = _
    rw [hcalls]
    cases entries.foldlM takeEntry .empty <;> rfl
  rw [← toVariables_bare, ← hbuild]
  generalize d.bare = whole at h
  cases h with
  | map entries => rfl
  | record name fields =>
    rw [toVariables, List.flatMap_map]
    rfl

theorem toVariables_of_not_holds (hd : d.IsPaired) (h : ∀ entries, ¬Holds d.bare entries) :
    d.toVariables = .error d.bare.wholeFault := by
  have hsome := bare_ne_some d
  have hwrapper := bare_ne_wrapper d
  rw [← toVariables_bare]
  rw [IsPaired] at hd
  generalize d.bare = whole at hd h hsome hwrapper
  cases whole
  case map calls =>
    obtain ⟨entries, rfl⟩ := hd calls rfl
    exact absurd (.map entries) (h entries)
  case record name fields => exact absurd (.record name fields) (h _)
  case some inner => exact absurd rfl (hsome inner)
  case wrapper name inner => exact absurd rfl (hwrapper name inner)
  all_goals rfl

theorem toVariables_eq_ok_iff (hd : d.IsPaired) :
    d.toVariables = .ok vars ↔
      ∃ entries pairs, Holds d.bare entries ∧ List.Forall₂ Gives entries pairs ∧
        vars.keys = (pairs.map (·.1)).eraseDups ∧
        ∀ name, vars.get? name = Entry.find? name pairs.reverse := by
  constructor
  · intro h
    by_cases hholds : ∃ entries, Holds d.bare entries
    · obtain ⟨entries, hentries⟩ := hholds
      rw [toVariables_of_holds hentries] at h
      obtain ⟨pairs, hpairs, rfl⟩ := foldlM_takeEntry_eq_ok_iff.1 h
      exact ⟨entries, pairs, hentries, hpairs, Variables.keys_ofList pairs,
        Variables.get?_ofList pairs⟩
    · rw [toVariables_of_not_holds hd (not_exists.1 hholds)] at h
      cases h
  · rintro ⟨entries, pairs, hentries, hpairs, hkeys, hget⟩
    rw [toVariables_of_holds hentries, foldlM_takeEntry_eq_ok_iff]
    refine ⟨pairs, hpairs, Variables.ext_get? ?_ fun name => ?_⟩
    · rw [hkeys]
      exact (Variables.keys_ofList pairs).symm
    · rw [hget]
      exact (Variables.get?_ofList pairs name).symm

theorem toVariables_eq_error_iff (hd : d.IsPaired) :
    d.toVariables = .error fault ↔
      (∃ entries, Holds d.bare entries ∧ FirstOffence entries fault) ∨
        (∀ entries, ¬Holds d.bare entries) ∧ fault = d.bare.wholeFault := by
  constructor
  · intro h
    by_cases hholds : ∃ entries, Holds d.bare entries
    · obtain ⟨entries, hentries⟩ := hholds
      rw [toVariables_of_holds hentries] at h
      exact .inl ⟨entries, hentries, foldlM_takeEntry_eq_error_iff.1 h⟩
    · rw [toVariables_of_not_holds hd (not_exists.1 hholds), Except.error.injEq] at h
      exact .inr ⟨not_exists.1 hholds, h.symm⟩
  · rintro (⟨entries, hentries, hoffence⟩ | ⟨hnone, rfl⟩)
    · rw [toVariables_of_holds hentries]
      exact foldlM_takeEntry_eq_error_iff.2 hoffence
    · exact toVariables_of_not_holds hd hnone

/-- **Which data is a source of variables.** It is a map or a record, whatever it is wrapped in, with
a text for each key and a scalar for each value; the variables are then the texts, each where it
first comes, with the last value given for it. Any other data is refused: because of what it is, or
for the first key without a text or value that is no scalar, the key of an entry before its value. -/
theorem ofData_accepts (hd : d.IsPaired) :
    (∀ vars, Variables.ofData d = .ok vars ↔
      ∃ entries pairs, Holds d.bare entries ∧ List.Forall₂ Gives entries pairs ∧
        vars.keys = (pairs.map (·.1)).eraseDups ∧
        ∀ name, vars.get? name = Entry.find? name pairs.reverse) ∧
    ∀ error, Variables.ofData d = .error error ↔
      ∃ fault, error = .other fault.message ∧
        ((∃ entries, Holds d.bare entries ∧ FirstOffence entries fault) ∨
          (∀ entries, ¬Holds d.bare entries) ∧ fault = d.bare.wholeFault) := by
  refine ⟨fun vars => ?_, fun error => ?_⟩
  · rw [← toVariables_eq_ok_iff hd, Variables.ofData]
    cases d.toVariables <;> simp [Except.mapError]
  · simp only [← toVariables_eq_error_iff hd, Variables.ofData]
    cases d.toVariables <;> simp [Except.mapError, eq_comm]

/-- A key that comes twice, as a number and as a text, with wrappers all over; and an optional key,
in front of a value that would be refused too. -/
theorem ofData_accepts_repeated_key :
    let entries : List (Data × Data) :=
      [(.wrapper "K" (.signed 5), .some (.wrapper "V" .none)), (.char 'a', .unsigned 7),
        (.text "5", .plainVariant "E" "x")]
    let d : Data := .wrapper "W" (.some (.map (entries.flatMap entryCalls)))
    let refused : Data := .record "R" [("b", .unit)]
    let d' : Data := .map ([(.text "a", .unit), (.some (.text "b"), refused)].flatMap entryCalls)
    d.IsPaired ∧ d'.IsPaired ∧
      (∃ vars, Variables.ofData d = .ok vars ∧ vars.keys = ["5", "a"] ∧
        vars.get? "5" = .some (.string "x") ∧ vars.get? "a" = .some (.integer 7)) ∧
      Variables.ofData d' = .error (.other "map key must be a string") := by
  intro entries d refused d'
  have hd : d.IsPaired := by
    intro calls hcalls
    cases hcalls
    exact ⟨entries, rfl⟩
  have hd' : d'.IsPaired := by
    intro calls hcalls
    cases hcalls
    exact ⟨_, rfl⟩
  refine ⟨hd, hd', ?_, ?_⟩
  · let pairs : List Entry :=
      [("5", .formatted ""), ("a", .integer 7), ("5", .string "x")]
    have hpairs : List.Forall₂ Gives entries pairs :=
      .cons ⟨.signed 5, .none⟩ (.cons ⟨.char 'a', .unsigned (by decide)⟩
        (.cons ⟨.text "5", .plainVariant "E" "x"⟩ .nil))
    refine ⟨.ofList pairs, ?_, by decide, rfl, rfl⟩
    exact ((ofData_accepts hd).1 _).2 ⟨entries, pairs, .map entries, hpairs,
      Variables.keys_ofList pairs, Variables.get?_ofList pairs⟩
  · refine ((ofData_accepts hd').2 _).2 ⟨.keyIsNoText, rfl, .inl ⟨_, .map _, ?_⟩⟩
    refine ⟨[(.text "a", .unit)], .some (.text "b"), refused, [], rfl, ?_, .inl ⟨?_, rfl⟩⟩
    · exact List.forall_mem_singleton.2 ⟨("a", .formatted ""), .text "a", .unit⟩
    · intro name hname
      cases hname

end Stencil.Data
