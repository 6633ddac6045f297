/-
Variables over their whole history.

Whatever is done to variables comes down to changes of four kinds, each of one name or of all
(`Operation.apply_eq_foldl`). Of the changes so far, kept as a log with the newest first, two things
are read off without looking at any entries: the value last written under a name, `written?`, and
when the name was last found absent by an insertion, `birth?`. That the variables show the former in
the order of the latter is kept by every change (`Follows.change`). Since no two names are born at
the same time, it also says that the names are distinct.
-/
import Stencil.Proofs.Data.Insertions
import Stencil.Proofs.Template.Assignments

namespace Stencil

/-! ## One name among others -/

namespace Entry

variable {name other : String} {value : Value} {entries : List Entry}

theorem fst_exchange (name : String) (value : Value) (entries : List Entry) :
    (exchange name value entries).1 = find? name entries := by
  induction entries with
  | nil => rfl
  | cons e rest ih =>
    obtain ⟨k, v⟩ := e
    by_cases h : k = name <;> simp [exchange, find?, h, ih]

theorem fst_replace (name : String) (value : Value) (entries : List Entry) :
    (replace name value entries).1 = find? name entries := by
  induction entries with
  | nil => rfl
  | cons e rest ih =>
    obtain ⟨k, v⟩ := e
    by_cases h : k = name <;> simp [replace, find?, h, ih]

theorem fst_take (name : String) (entries : List Entry) :
    (take name entries).1 = find? name entries := by
  induction entries with
  | nil => rfl
  | cons e rest ih =>
    obtain ⟨k, v⟩ := e
    by_cases h : k = name <;> simp [take, find?, h, ih]

/-- The entries of other names. -/
def others (name : String) (entries : List Entry) : List Entry :=
  entries.filter fun e => !name == e.1

theorem others_cons_self (value : Value) (rest : List Entry) :
    others name ((name, value) :: rest) = others name rest := by
  rw [others, List.filter_cons_of_neg (by simp), ← others]

theorem others_cons_of_ne {e : Entry} (h : e.1 ≠ name) (rest : List Entry) :
    others name (e :: rest) = e :: others name rest := by
  rw [others, List.filter_cons_of_pos (by simpa using Ne.symm h), ← others]

theorem others_exchange (name : String) (value : Value) (entries : List Entry) :
    others name (exchange name value entries).2 = others name entries := by
  induction entries with
  | nil => exact others_cons_self value []
  | cons e rest ih =>
    obtain ⟨k, v⟩ := e
    by_cases h : k = name
    · subst h
      rw [exchange, if_pos rfl, others_cons_self, others_cons_self]
    · rw [exchange, if_neg h, others_cons_of_ne h, others_cons_of_ne h, ih]

theorem others_replace (name : String) (value : Value) (entries : List Entry) :
    others name (replace name value entries).2 = others name entries := by
  induction entries with
  | nil => rfl
  | cons e rest ih =>
    obtain ⟨k, v⟩ := e
    by_cases h : k = name
    · subst h
      rw [replace, if_pos rfl, others_cons_self, others_cons_self]
    · rw [replace, if_neg h, others_cons_of_ne h, others_cons_of_ne h, ih]

/-- Where names are distinct, a name that is taken is gone, and all else stays. -/
theorem take_eq_others (h : (entries.map (·.1)).Nodup) :
    (take name entries).2 = others name entries := by
  induction entries with
  | nil => rfl
  | cons e rest ih =>
    obtain ⟨k, v⟩ := e
    rw [List.map_cons, List.nodup_cons] at h
    by_cases hk : k = name
    · subst hk
      rw [take, if_pos rfl, others_cons_self]
      refine (List.filter_eq_self.2 fun entry hentry => ?_).symm
      have hne : k ≠ entry.1 := fun heq => h.1 (List.mem_map.2 ⟨entry, hentry, heq.symm⟩)
      simpa using hne
    · rw [take, if_neg hk, others_cons_of_ne hk, ih h.2]

theorem find?_others (name other : String) (entries : List Entry) :
    find? other (others name entries) = if other = name then none else find? other entries := by
  induction entries with
  | nil => simp [others, find?]
  | cons e rest ih =>
    obtain ⟨k, v⟩ := e
    by_cases h : k = name
    · subst h
      rw [others_cons_self, ih]
      grind [find?]
    · rw [others_cons_of_ne h]
      grind [find?]

theorem find?_replace (name other : String) (value : Value) (entries : List Entry) :
    find? other (replace name value entries).2 =
      if other = name then (find? name entries).map fun _ => value else find? other entries := by
  induction entries with
  | nil => simp [replace, find?]
  | cons e rest ih =>
    obtain ⟨k, v⟩ := e
    by_cases h : k = name <;> by_cases ho : k = other <;> grind [replace, find?]

theorem mem_keys_iff : name ∈ entries.map (·.1) ↔ (find? name entries).isSome = true := by
  induction entries with
  | nil => simp [find?]
  | cons e rest ih =>
    obtain ⟨k, v⟩ := e
    by_cases h : k = name
    · simp [find?, h]
    · simp [find?, h, Ne.symm h, ← ih]

end Entry

namespace Variables

variable {vars : Variables} {name : String}

theorem mem_keys_iff : name ∈ vars.keys ↔ (vars.get? name).isSome = true := Entry.mem_keys_iff

theorem entries_take (vars : Variables) (name : String) :
    (vars.take name).2.entries = Entry.others name vars.entries :=
  Entry.take_eq_others vars.distinct

/-! ## Changes and their log -/

/-- What can happen to variables. -/
inductive Change where
  | put (name : String) (value : Value)
  /-- Another value under a name that is there. -/
  | amend (name : String) (value : Value)
  | drop (name : String)
  | clear

namespace Change

def apply (vars : Variables) : Change → Variables
  | .put name value => vars.insert name value
  | .amend name value => (vars.replace name value).2
  | .drop name => (vars.take name).2
  | .clear => empty

/-- Whether a change is one of the name. -/
def touches (name : String) : Change → Bool
  | .put k _ | .amend k _ | .drop k => k == name
  | .clear => true

/-- Entries that a change does not touch stay as they are, in their order. -/
theorem filter_apply (c : Change) (vars : Variables) :
    (c.apply vars).entries.filter (fun e => !c.touches e.1) =
      vars.entries.filter fun e => !c.touches e.1 := by
  cases c with
  | put name value => exact Entry.others_exchange name value vars.entries
  | amend name value => exact Entry.others_replace name value vars.entries
  | drop name =>
    rw [apply, entries_take, Entry.others]
    simp only [touches, List.filter_filter, Bool.and_self]
  | clear =>
    have hnone (entries : List Entry) : entries.filter (fun _ => false) = [] :=
      List.filter_eq_nil_iff.2 fun _ _ => Bool.false_ne_true
    exact (hnone _).trans (hnone _).symm

end Change

/-- The value last written under a name, if it was not dropped since. The log has the newest change
first. -/
def written? (name : String) : List Change → Option Value
  | [] => none
  | .put k value :: past => if k = name then some value else written? name past
  | .amend k value :: past =>
    if k = name then (written? name past).map fun _ => value else written? name past
  | .drop k :: past => if k = name then none else written? name past
  | .clear :: _ => none

/-- When a name was last put where it was not there: the number of changes before that. -/
def birth? (name : String) : List Change → Option Nat
  | [] => none
  | .put k _ :: past =>
    if k = name ∧ (written? name past).isNone then some past.length else birth? name past
  | _ :: past => birth? name past

theorem birth?_lt {log : List Change} {n : Nat} (h : birth? name log = some n) :
    n < log.length := by
  induction log with
  | nil => cases h
  | cons c past ih =>
    have hlater (h : birth? name past = some n) : n < past.length + 1 := Nat.lt_succ_of_lt (ih h)
    cases c with
    | put k value =>
      rw [birth?] at h
      split at h
      · cases h
        exact Nat.lt_succ_self _
      · exact hlater h
    | amend k value => exact hlater h
    | drop k => exact hlater h
    | clear => exact hlater h

/-- Whether of two names, both born, the first was born first. -/
def Elder (log : List Change) (name other : String) : Prop :=
  ∃ m n, birth? name log = some m ∧ birth? other log = some n ∧ m < n

/-- Whether variables show what a log says: the values last written, in the order of birth. -/
structure Follows (vars : Variables) (log : List Change) : Prop where
  get?_eq : ∀ name, vars.get? name = written? name log
  born : ∀ name ∈ vars.keys, ∃ n, birth? name log = some n
  ordered : vars.keys.Pairwise (Elder log)

namespace Follows

variable {log : List Change}

theorem nil : Follows empty [] :=
  ⟨fun _ => rfl, fun _ h => (by cases h), .nil⟩

/-- A change that lets no name be born may take names away, but puts none in and keeps the order. -/
theorem of_sublist {vars' : Variables} {c : Change} (h : Follows vars log)
    (hget : ∀ name, vars'.get? name = written? name (c :: log))
    (hbirth : ∀ name, name ∈ vars'.keys → birth? name (c :: log) = birth? name log)
    (hkeys : vars'.keys.Sublist vars.keys) : Follows vars' (c :: log) where
  get?_eq := hget
  born name hname := by
    rw [hbirth name hname]
    exact h.born name (hkeys.subset hname)
  ordered := by
    refine (h.ordered.sublist hkeys).imp_of_mem fun {a b} ha hb hab => ?_
    rw [Elder, hbirth a ha, hbirth b hb]
    exact hab

/-- A name that is put where it was not there is the youngest. -/
theorem put_absent {value : Value} (h : Follows vars log) (hname : name ∉ vars.keys) :
    Follows (vars.insert name value) (.put name value :: log) := by
  have hnone : written? name log = none := by
    rw [← h.get?_eq, ← Option.not_isSome_iff_eq_none, ← mem_keys_iff]
    exact hname
  have hself : birth? name (.put name value :: log) = some log.length := by
    rw [birth?, hnone, if_pos ⟨rfl, rfl⟩]
  have hother {other : String} (hin : other ∈ vars.keys) :
      birth? other (.put name value :: log) = birth? other log := by
    rw [birth?, if_neg]
    rintro ⟨rfl, -⟩
    exact hname hin
  have hkeys := keys_insert vars name value
  rw [if_neg hname] at hkeys
  refine ⟨fun other => ?_, fun other hin => ?_, ?_⟩
  · rw [get?_insert, h.get?_eq, written?]
    simp only [eq_comm]
  · rw [hkeys, List.mem_append, List.mem_singleton] at hin
    rcases hin with hin | rfl
    · rw [hother hin]
      exact h.born other hin
    · exact ⟨_, hself⟩
  · rw [hkeys, List.pairwise_append]
    refine ⟨h.ordered.imp_of_mem fun {a b} ha hb hab => ?_, List.pairwise_singleton _ _, ?_⟩
    · rw [Elder, hother ha, hother hb]
      exact hab
    · intro elder hin young hyoung
      obtain rfl := List.mem_singleton.1 hyoung
      obtain ⟨n, hn⟩ := h.born elder hin
      exact ⟨n, log.length, (hother hin).trans hn, hself, birth?_lt hn⟩

/-- **Every change keeps variables to their log.** -/
theorem change (h : Follows vars log) (c : Change) : Follows (c.apply vars) (c :: log) := by
  cases c with
  | put name value =>
    by_cases hname : name ∈ vars.keys
    · have hkeys := keys_insert vars name value
      rw [if_pos hname] at hkeys
      refine h.of_sublist (fun other => ?_) (fun other _ => ?_)
        (hkeys.symm ▸ List.Sublist.refl _ : (vars.insert name value).keys.Sublist vars.keys)
      · rw [Change.apply, get?_insert, h.get?_eq, written?]
        simp only [eq_comm]
      · -- The name is there already, so nothing is born.
        have hthere : (written? name log).isSome = true := by rwa [← h.get?_eq, ← mem_keys_iff]
        rw [birth?, if_neg]
        rintro ⟨rfl, hnone⟩
        rw [Option.isNone_iff_eq_none.1 hnone] at hthere
        cases hthere
    · exact h.put_absent hname
  | amend name value =>
    have hkeys : (vars.replace name value).2.keys = vars.keys :=
      Entry.keys_replace name value vars.entries
    refine h.of_sublist (fun other => ?_) (fun _ _ => rfl)
      (hkeys.symm ▸ List.Sublist.refl _ : (vars.replace name value).2.keys.Sublist vars.keys)
    rw [written?, ← h.get?_eq]
    refine (Entry.find?_replace name other value vars.entries).trans ?_
    by_cases hother : name = other
    · subst hother
      rw [if_pos rfl, if_pos rfl]
      rfl
    · rw [if_neg hother, if_neg (Ne.symm hother)]
      rfl
  | drop name =>
    refine h.of_sublist (fun other => ?_) (fun _ _ => rfl) ?_
    · have hget := Entry.find?_others name other vars.entries
      rw [Change.apply, get?, entries_take, hget, written?, ← h.get?_eq]
      simp only [eq_comm, get?]
    · exact (Entry.take_sublist name vars.entries).map _
  | clear => exact h.of_sublist (fun _ => rfl) (fun _ _ => rfl) (List.nil_sublist _)

theorem changes (h : Follows vars log) (cs : List Change) :
    Follows (cs.foldl Change.apply vars) (cs.reverse ++ log) := by
  induction cs generalizing vars log with
  | nil => exact h
  | cons c rest ih =>
    rw [List.foldl_cons, List.reverse_cons, List.append_assoc]
    exact ih (h.change c)

end Follows

/-! ## Operations -/

/-- What is done to variables. -/
inductive Operation where
  | insert (name : String) (value : Value)
  | take (name : String)
  | replace (name : String) (value : Value)
  | extend (entries : List Entry)
  /-- New variables of these entries. -/
  | collect (entries : List Entry)
  /-- A template is rendered, whether or not it fails. -/
  | render (e : Engine) (source : String)
  /-- New variables of data, unless it is refused. -/
  | ofData (d : Data)

namespace Operation

def apply (vars : Variables) : Operation → Variables
  | .insert name value => vars.insert name value
  | .take name => (vars.take name).2
  | .replace name value => (vars.replace name value).2
  | .extend entries => vars.extend entries
  | .collect entries => .ofList entries
  | .render e source => (e.render vars source).vars
  | .ofData d =>
    match Variables.ofData d with
    | .ok new => new
    | .error _ => vars

/-- The change that an entry is. -/
def putEntry (e : Entry) : Change := .put e.1 e.2

/-- The changes that an operation comes down to. A template assigns what the lines spell that are
behind when it ends or fails. -/
def changes (vars : Variables) : Operation → List Change
  | .insert name value => [.put name value]
  | .take name => [.drop name]
  | .replace name value => [.amend name value]
  | .extend entries => entries.map putEntry
  | .collect entries => .clear :: entries.map putEntry
  | .render e source =>
    let lines := Template.lines (e.dialect.newline?.map (·.toList)) source.toList
    let behind := linesBehind lines (e.render vars source).result
    (behind.filterMap (Template.assigned? e.dialect.sigil)).map putEntry
  | .ofData d =>
    match Variables.ofData d with
    | .ok _ => .clear :: d.insertions.map putEntry
    | .error _ => []

theorem foldl_putEntry (vars : Variables) (entries : List Entry) :
    (entries.map putEntry).foldl Change.apply vars = vars.extend entries := by
  rw [List.foldl_map]
  rfl

theorem apply_eq_foldl (op : Operation) (vars : Variables) :
    op.apply vars = (op.changes vars).foldl Change.apply vars := by
  cases op with
  | insert name value => rfl
  | take name => rfl
  | replace name value => rfl
  | extend entries => exact (foldl_putEntry vars entries).symm
  | collect entries => exact (foldl_putEntry empty entries).symm
  | render e source =>
    rw [apply, changes, foldl_putEntry]
    exact (Engine.vars_of_linesBehind e vars source).1
  | ofData d =>
    rw [apply, changes]
    cases h : Variables.ofData d with
    | error error => rfl
    | ok new =>
      have hnew : d.toVariables = .ok new := by
        rw [Variables.ofData] at h
        cases hd : d.toVariables with
        | error fault => rw [hd] at h; cases h
        | ok made => rw [hd] at h; cases h; rfl
      rw [Data.toVariables_eq_ofList hnew]
      exact (foldl_putEntry empty d.insertions).symm

/-- Entries that an operation does not touch stay as they are, in their order. -/
theorem filter_apply (op : Operation) (vars : Variables) :
    (op.apply vars).entries.filter (fun e => !(op.changes vars).any (·.touches e.1)) =
      vars.entries.filter fun e => !(op.changes vars).any (·.touches e.1) := by
  rw [apply_eq_foldl]
  generalize op.changes vars = cs
  induction cs generalizing vars with
  | nil => rfl
  | cons c rest ih =>
    -- What neither the change nor the rest touch is what the rest does not, of what it does not.
    have hsplit (entries : List Entry) :
        entries.filter (fun e => !(c :: rest).any (·.touches e.1)) =
          (entries.filter fun e => !rest.any (·.touches e.1)).filter fun e => !c.touches e.1 := by
      rw [List.filter_filter]
      exact List.filter_congr fun e _ => by simp
    have hswap (entries : List Entry) :
        (entries.filter fun e => !rest.any (·.touches e.1)).filter (fun e => !c.touches e.1) =
          (entries.filter fun e => !c.touches e.1).filter fun e => !rest.any (·.touches e.1) := by
      rw [List.filter_filter, List.filter_filter]
      exact List.filter_congr fun e _ => Bool.and_comm _ _
    rw [List.foldl_cons, hsplit, ih, hswap, c.filter_apply, ← hswap, ← hsplit]

end Operation

/-- The variables after operations, new ones at first. -/
def after (ops : List Operation) : Variables := ops.foldl Operation.apply empty

/-- The changes that operations come down to, one operation after the other. -/
def changesFrom (vars : Variables) : List Operation → List Change
  | [] => []
  | op :: rest => op.changes vars ++ changesFrom (op.apply vars) rest

/-- The log of operations on new variables, the newest change first. -/
def log (ops : List Operation) : List Change := (changesFrom empty ops).reverse

theorem foldl_changesFrom (vars : Variables) (ops : List Operation) :
    (changesFrom vars ops).foldl Change.apply vars = ops.foldl Operation.apply vars := by
  induction ops generalizing vars with
  | nil => rfl
  | cons op rest ih =>
    rw [changesFrom, List.foldl_append, ← op.apply_eq_foldl, ih, List.foldl_cons]

theorem follows_after (ops : List Operation) : Follows (after ops) (log ops) := by
  have h := Follows.nil.changes (changesFrom empty ops)
  rwa [foldl_changesFrom, List.append_nil] at h

/-- **Variables are a map that keeps the order of insertion, whatever is done to them.** After any
operations their names are distinct; they are the ones with a value written under them, in the order
in which they were last found absent by an insertion; and each way to look at them, by a name or all
at once, gives the value last written. An insertion, a replacement or a removal returns the value
that was there before it, and every operation leaves the entries of the names that it does not touch
as they are, in their order. -/
theorem keeps_order_of_insertion (ops : List Operation) :
    let vars := after ops
    let log := log ops
    vars.keys.Nodup ∧
    (∀ name, name ∈ vars.keys ↔ (written? name log).isSome = true) ∧
    vars.keys.Pairwise (Elder log) ∧
    vars.entries.map (fun e => (e.1, some e.2)) = vars.keys.map (fun k => (k, written? k log)) ∧
    vars.size = vars.keys.length ∧
    vars.isEmpty = vars.keys.isEmpty ∧
    (∀ name, vars.get? name = written? name log ∧
      vars.contains name = (written? name log).isSome ∧
      vars.get name = (written? name log).elim (.error ⟨name⟩) .ok) ∧
    (∀ name value, (vars.exchange name value).1 = written? name log ∧
      (vars.replace name value).1 = written? name log ∧
      (vars.take name).1 = written? name log) ∧
    ∀ op : Operation,
      (op.apply vars).entries.filter (fun e => !(op.changes vars).any (·.touches e.1)) =
        vars.entries.filter fun e => !(op.changes vars).any (·.touches e.1) := by
  intro vars log
  have h : Follows vars log := follows_after ops
  refine ⟨?_, fun name => ?_, h.ordered, ?_, ?_, ?_, fun name => ⟨h.get?_eq name, ?_, ?_⟩,
    fun name value => ⟨?_, ?_, ?_⟩, fun op => op.filter_apply vars⟩
  · refine h.ordered.imp fun {a b} hab => ?_
    obtain ⟨m, n, hm, hn, hlt⟩ := hab
    rintro rfl
    rw [hm] at hn
    cases hn
    exact absurd hlt (Nat.lt_irrefl m)
  · rw [mem_keys_iff, h.get?_eq]
  · rw [keys, List.map_map]
    refine List.map_congr_left fun e he => ?_
    rw [Function.comp_apply, ← h.get?_eq, get?_eq_some_iff.2 he]
  · rw [size, keys, List.length_map]
  · rw [isEmpty, keys, List.isEmpty_map]
  · rw [contains, h.get?_eq]
  · rw [get, h.get?_eq]
    cases written? name log <;> rfl
  · rw [← h.get?_eq]
    exact Entry.fst_exchange name value vars.entries
  · rw [← h.get?_eq]
    exact Entry.fst_replace name value vars.entries
  · rw [← h.get?_eq]
    exact Entry.fst_take name vars.entries

end Variables

end Stencil
