/-
The variables of a template: names with values, in the order in which the names first came.

Giving a name that is there a new value keeps its place, and so does everything else except
removal. That the names are distinct is part of the type. `keys_insert` and `get?_insert` say what
an insertion does to the two views of the variables, the list of their names and the value under
each.
-/
import Stencil.Value

namespace Stencil

/-- A name with its value. -/
abbrev Entry := String × Value

namespace Entry

/-- The value under a name. -/
def find? (name : String) : List Entry → Option Value
  | [] => none
  | (k, v) :: rest => if k = name then some v else find? name rest

/-- The list with the value put under the name, in place or at the end, and the value it had. -/
def exchange (name : String) (value : Value) : List Entry → Option Value × List Entry
  | [] => (none, [(name, value)])
  | (k, v) :: rest =>
    if k = name then (some v, (k, value) :: rest)
    else ((exchange name value rest).1, (k, v) :: (exchange name value rest).2)

/-- The list with another value under the name if the name is there, and the value it had. -/
def replace (name : String) (value : Value) : List Entry → Option Value × List Entry
  | [] => (none, [])
  | (k, v) :: rest =>
    if k = name then (some v, (k, value) :: rest)
    else ((replace name value rest).1, (k, v) :: (replace name value rest).2)

/-- The list without the name, and the value it had. -/
def take (name : String) : List Entry → Option Value × List Entry
  | [] => (none, [])
  | (k, v) :: rest =>
    if k = name then (some v, rest)
    else ((take name rest).1, (k, v) :: (take name rest).2)

theorem keys_exchange (name : String) (value : Value) (entries : List Entry) :
    ((exchange name value entries).2).map (·.1) =
      if name ∈ entries.map (·.1) then entries.map (·.1) else entries.map (·.1) ++ [name] := by
  induction entries with
  | nil => simp [exchange]
  | cons e rest ih =>
    obtain ⟨k, v⟩ := e
    by_cases h : k = name
    · simp [exchange, h]
    · simp only [exchange, if_neg h, List.map_cons, ih, List.mem_cons, Ne.symm h, false_or]
      split <;> simp

theorem find?_exchange (name other : String) (value : Value) (entries : List Entry) :
    find? other (exchange name value entries).2 =
      if other = name then some value else find? other entries := by
  induction entries with
  | nil => simp [exchange, find?, eq_comm]
  | cons e rest ih =>
    obtain ⟨k, v⟩ := e
    by_cases h : k = name <;> by_cases ho : k = other <;> grind [exchange, find?]

theorem mem_of_find? {name : String} {value : Value} {entries : List Entry}
    (h : find? name entries = some value) : (name, value) ∈ entries := by
  induction entries with
  | nil => cases h
  | cons e rest ih =>
    obtain ⟨k, v⟩ := e
    rw [find?] at h
    split at h
    · rename_i hk
      cases h
      rw [hk]
      exact List.mem_cons_self ..
    · exact List.mem_cons_of_mem _ (ih h)

/-- Where names are distinct, what is found is what is there. -/
theorem find?_eq_some_iff {entries : List Entry} (h : (entries.map (·.1)).Nodup) {name : String}
    {value : Value} : find? name entries = some value ↔ (name, value) ∈ entries := by
  refine ⟨mem_of_find?, fun hin => ?_⟩
  induction entries with
  | nil => cases hin
  | cons e rest ih =>
    rw [List.map_cons, List.nodup_cons] at h
    rcases List.mem_cons.1 hin with rfl | hin
    · exact if_pos rfl
    · have hk : e.1 ≠ name := fun hk => h.1 (List.mem_map.2 ⟨_, hin, hk.symm⟩)
      rw [find?, if_neg hk, ih h.2 hin]

theorem find?_append (name : String) (entries others : List Entry) :
    find? name (entries ++ others) = (find? name entries).or (find? name others) := by
  induction entries with
  | nil => rfl
  | cons e rest ih =>
    obtain ⟨k, v⟩ := e
    by_cases h : k = name <;> simp [find?, h, ih]

theorem keys_replace (name : String) (value : Value) (entries : List Entry) :
    ((replace name value entries).2).map (·.1) = entries.map (·.1) := by
  induction entries with
  | nil => rfl
  | cons e rest ih => by_cases h : e.1 = name <;> simp_all [replace]

theorem take_sublist (name : String) (entries : List Entry) :
    (take name entries).2.Sublist entries := by
  induction entries with
  | nil => exact .slnil
  | cons e rest ih =>
    by_cases h : e.1 = name
    · simp [take, h]
    · simpa [take, h] using ih.cons_cons e

end Entry

/-- Names with values, each name once, in order of insertion. -/
structure Variables where
  entries : List Entry := []
  distinct : (entries.map (·.1)).Nodup := by simp

namespace Variables

@[ext] theorem ext {a b : Variables} (h : a.entries = b.entries) : a = b := by
  cases a; cases b; cases h; rfl

instance : Inhabited Variables := ⟨{}⟩

/-- Two sets of variables are equal if they have equal entries in the same order. -/
instance : BEq Variables := ⟨fun a b => a.entries == b.entries⟩

def empty : Variables := {}

def size (vars : Variables) : Nat := vars.entries.length

def isEmpty (vars : Variables) : Bool := vars.entries.isEmpty

def keys (vars : Variables) : List String := vars.entries.map (·.1)

def get? (vars : Variables) (name : String) : Option Value := Entry.find? name vars.entries

def contains (vars : Variables) (name : String) : Bool := (vars.get? name).isSome

/-- Puts the value under the name, and returns the value that was there. -/
def exchange (vars : Variables) (name : String) (value : Value) : Option Value × Variables :=
  ((Entry.exchange name value vars.entries).1,
    { entries := (Entry.exchange name value vars.entries).2
      distinct := by
        have h := vars.distinct
        rw [Entry.keys_exchange]
        split
        · exact h
        · rename_i hn
          exact List.nodup_append.2 ⟨h, by simp, by grind⟩ })

/-- Puts the value under the name: in its place if the name is there, else at the end. -/
def insert (vars : Variables) (name : String) (value : Value) : Variables :=
  (vars.exchange name value).2

/-- Puts the value under the name if the name is there, and returns the value that was. -/
def replace (vars : Variables) (name : String) (value : Value) : Option Value × Variables :=
  ((Entry.replace name value vars.entries).1,
    { entries := (Entry.replace name value vars.entries).2
      distinct := by rw [Entry.keys_replace]; exact vars.distinct })

/-- Removes the name, and returns the value that was there. The others keep their order. -/
def take (vars : Variables) (name : String) : Option Value × Variables :=
  ((Entry.take name vars.entries).1,
    { entries := (Entry.take name vars.entries).2
      distinct := vars.distinct.sublist ((Entry.take_sublist name vars.entries).map _) })

/-- Inserts the entries one after the other. -/
def extend (vars : Variables) (entries : List Entry) : Variables :=
  entries.foldl (fun vars e => vars.insert e.1 e.2) vars

def ofList (entries : List Entry) : Variables := empty.extend entries

/-- A name was asked for that is not there. -/
structure Missing where
  name : String
  deriving Repr, DecidableEq

def Missing.message (fault : Missing) : String := "variable `" ++ fault.name ++ "` not found"

/-- The value under a name that is expected to be there. -/
def get (vars : Variables) (name : String) : Except Missing Value :=
  match vars.get? name with
  | some value => .ok value
  | none => .error ⟨name⟩

theorem keys_insert (vars : Variables) (name : String) (value : Value) :
    (vars.insert name value).keys =
      if name ∈ vars.keys then vars.keys else vars.keys ++ [name] :=
  Entry.keys_exchange name value vars.entries

theorem get?_insert (vars : Variables) (name other : String) (value : Value) :
    (vars.insert name value).get? other = if other = name then some value else vars.get? other :=
  Entry.find?_exchange name other value vars.entries

theorem get?_eq_some_iff {vars : Variables} {name : String} {value : Value} :
    vars.get? name = some value ↔ (name, value) ∈ vars.entries :=
  Entry.find?_eq_some_iff vars.distinct

/-- Insertions keep the names that are there in their places, and put each new one where it first
comes. -/
theorem keys_extend (vars : Variables) (entries : List Entry) :
    (vars.extend entries).keys =
      vars.keys ++ ((entries.map (·.1)).filter (· ∉ vars.keys)).eraseDups := by
  induction entries generalizing vars with
  | nil => simp [extend]
  | cons e rest ih =>
    have hrest := ih (vars.insert e.1 e.2)
    rw [keys_insert] at hrest
    change ((vars.insert e.1 e.2).extend rest).keys = _
    rw [hrest, List.map_cons]
    by_cases h : e.1 ∈ vars.keys
    · simp [h]
    · have hsplit : (rest.map (·.1)).filter (· ∉ vars.keys ++ [e.1]) =
          ((rest.map (·.1)).filter (· ∉ vars.keys)).filter (fun name => !name == e.1) := by
        rw [List.filter_filter]
        exact List.filter_congr fun name _ => by by_cases hname : name = e.1 <;> simp [hname]
      rw [if_neg h, List.filter_cons_of_pos (by simpa using h), List.eraseDups_cons, hsplit,
        List.append_assoc]
      rfl

/-- The last value that is inserted under a name is the one that is found. -/
theorem get?_extend (vars : Variables) (entries : List Entry) (name : String) :
    (vars.extend entries).get? name =
      (Entry.find? name entries.reverse).or (vars.get? name) := by
  induction entries generalizing vars with
  | nil => rfl
  | cons e rest ih =>
    change ((vars.insert e.1 e.2).extend rest).get? name = _
    rw [ih, get?_insert, List.reverse_cons, Entry.find?_append, Option.or_assoc]
    by_cases h : name = e.1
    · simp [Entry.find?, h]
    · simp [Entry.find?, h, Ne.symm h]

theorem keys_ofList (entries : List Entry) :
    (ofList entries).keys = (entries.map (·.1)).eraseDups := by
  have hall : (entries.map (·.1)).filter (· ∉ empty.keys) = entries.map (·.1) :=
    List.filter_eq_self.2 fun _ _ => rfl
  rw [ofList, keys_extend, hall]
  rfl

theorem get?_ofList (entries : List Entry) (name : String) :
    (ofList entries).get? name = Entry.find? name entries.reverse := by
  have hnone : empty.get? name = none := rfl
  rw [ofList, get?_extend, hnone, Option.or_none]

theorem mem_of_mem_extend {vars : Variables} {entries : List Entry} {entry : Entry}
    (h : entry ∈ (vars.extend entries).entries) : entry ∈ vars.entries ∨ entry ∈ entries := by
  obtain ⟨name, value⟩ := entry
  rw [← get?_eq_some_iff, get?_extend, Option.or_eq_some_iff] at h
  rcases h with hnew | ⟨-, hold⟩
  · exact .inr (List.mem_reverse.1 (Entry.mem_of_find? hnew))
  · exact .inl (get?_eq_some_iff.1 hold)

/-- What is under a name does not depend on the order. -/
theorem get?_eq_of_perm {vars vars' : Variables} (h : vars'.entries.Perm vars.entries)
    (name : String) : vars'.get? name = vars.get? name := by
  ext value
  rw [get?_eq_some_iff, get?_eq_some_iff, h.mem_iff]

/-- Variables are known by their names in order and by what is under each. -/
theorem ext_get? {a b : Variables} (hkeys : a.keys = b.keys)
    (hget : ∀ name, a.get? name = b.get? name) : a = b := by
  have hentries (vars : Variables) :
      vars.entries.map (fun e => (e.1, some e.2)) = vars.keys.map fun k => (k, vars.get? k) := by
    rw [keys, List.map_map]
    refine List.map_congr_left fun e he => ?_
    exact Prod.ext rfl (get?_eq_some_iff.2 he).symm
  have hsame : a.entries.map (fun e => (e.1, some e.2)) =
      b.entries.map fun e => (e.1, some e.2) := by
    rw [hentries, hentries, hkeys]
    exact List.map_congr_left fun k _ => by rw [hget]
  refine ext ((List.map_inj_right fun e e' h => ?_).1 hsame)
  simp only [Prod.mk.injEq, Option.some.injEq] at h
  exact Prod.ext h.1 h.2

end Variables

end Stencil
