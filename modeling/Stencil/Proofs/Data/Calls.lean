/-
The calls that build a map, whatever their order.

Calls for keys and for values may come in any order: a key may be replaced before it is used, a value
may come without one. So the calls are told apart by their places. `Offends` says which call fails
when those before it have not, `pairsBefore` which key a value is put under, without a state. The
state that the calls go through follows the calls behind it (`Tracks`): it has the entries of their
pairs, and a key waits in it just when one is given since the last value. Each call keeps this or
offends (`Tracks.perform`), and so do all calls up to the first that offends (`exists_tracks`).
-/
import Mathlib.Data.Nat.Find
import Stencil.Proofs.Data.Acceptance

namespace Stencil.Data

/-! ## What a call leaves behind -/

/-- A call with what it leaves behind also when it fails: a key that has no text leaves the one that
waits, and a value uses the key up before it is looked at. -/
def Pairing.perform (p : Pairing) : Role × Data → Pairing × Option Fault
  | (.key, d) =>
    match d.key with
    | .ok name => ({ p with pending? := .some name }, .none)
    | .error fault => (p, .some fault)
  | (.value, d) =>
    match p.pending? with
    | .none => (p, .some .valueWithoutKey)
    | .some name =>
      match d.value with
      | .ok v => (⟨p.vars.insert name v, .none⟩, .none)
      | .error fault => ({ p with pending? := .none }, .some fault)

/-- The calls one after the other, up to the first that fails. -/
def Pairing.run (p : Pairing) : List (Role × Data) → Pairing × Option Fault
  | [] => (p, .none)
  | call :: rest =>
    match p.perform call with
    | (q, .none) => q.run rest
    | (q, .some fault) => (q, .some fault)

/-- The result alone, which a failure leaves nothing of. -/
def outcome {α : Type} : α × Option Fault → Except Fault α
  | (a, .none) => .ok a
  | (_, .some fault) => .error fault

variable {p q : Pairing} {calls front : List (Role × Data)} {call : Role × Data} {n k : Nat}
  {d : Data} {fault other : Fault}

theorem call_eq_perform (p : Pairing) (call : Role × Data) : p.call call = outcome (p.perform call) := by
  obtain ⟨role, d⟩ := call
  cases role with
  | key =>
    simp only [Pairing.call, Pairing.perform]
    cases d.key <;> rfl
  | value =>
    simp only [Pairing.call, Pairing.perform]
    cases p.pending? with
    | none => rfl
    | some name => cases d.value <;> rfl

theorem foldlM_call_eq_run (p : Pairing) (calls : List (Role × Data)) :
    calls.foldlM Pairing.call p = outcome (p.run calls) := by
  induction calls generalizing p with
  | nil => rfl
  | cons call rest ih =>
    rw [List.foldlM_cons, call_eq_perform, Pairing.run]
    obtain ⟨⟨q, fault?⟩, hcall⟩ : ∃ r, p.perform call = r := ⟨_, rfl⟩
    rw [hcall]
    cases fault? with
    | none => exact ih q
    | some fault => rfl

theorem ofData_map_eq_run (calls : List (Role × Data)) :
    Variables.ofData (.map calls) =
      match Pairing.run {} calls with
      | (p, .none) => .ok p.vars
      | (_, .some fault) => .error (.other fault.message) := by
  rw [Variables.ofData, toVariables, build, foldlM_call_eq_run]
  obtain ⟨⟨p, fault?⟩, hrun⟩ : ∃ r, Pairing.run {} calls = r := ⟨_, rfl⟩
  rw [hrun]
  cases fault? <;> rfl

theorem Pairing.run_append (h : p.run front = (q, .none)) : p.run (front ++ calls) = q.run calls := by
  induction front generalizing p with
  | nil =>
    cases h
    rfl
  | cons call rest ih =>
    rw [List.cons_append, Pairing.run]
    rw [Pairing.run] at h
    obtain ⟨⟨next, fault?⟩, hcall⟩ : ∃ r, p.perform call = r := ⟨_, rfl⟩
    rw [hcall] at h ⊢
    cases fault? with
    | none => exact ih h
    | some fault => cases h

/-! ## Calls by their places -/

/-- The place of the most recent key before a place. -/
def keyBefore? (calls : List (Role × Data)) : Nat → Option Nat
  | 0 => .none
  | n + 1 => if calls[n]?.any (·.1 = .key) then .some n else keyBefore? calls n

/-- The places of the values before a place, each with that of the most recent key before it. -/
def pairsBefore (calls : List (Role × Data)) (n : Nat) : List (Nat × Nat) :=
  (List.range n).filterMap fun i =>
    if calls[i]?.any (·.1 = .value) then (keyBefore? calls i).map (·, i) else .none

/-- Whether a key is given before a place, with no value after it. -/
def KeyGiven (calls : List (Role × Data)) (n : Nat) : Prop :=
  ∃ k < n, (∃ d, calls[k]? = .some (.key, d)) ∧ ∀ j, k < j → j < n → ∀ d, calls[j]? ≠ .some (.value, d)

/-- Why the call at a place fails, if the calls before it have not: it is a value with no key given
since the previous one, or a key or a value that cannot be converted. -/
inductive Offends (calls : List (Role × Data)) (n : Nat) : Fault → Prop
  | withoutKey {d : Data} (hcall : calls[n]? = .some (.value, d)) (hkey : ¬KeyGiven calls n) :
    Offends calls n .valueWithoutKey
  | key {d : Data} (hcall : calls[n]? = .some (.key, d)) (h : ∀ name, ¬Named d.plain name) :
    Offends calls n d.plain.keyFault
  | value {d : Data} (hcall : calls[n]? = .some (.value, d)) (hkey : KeyGiven calls n)
    (h : ∀ v, ¬Scalar d.bare v) : Offends calls n d.bare.valueFault

/-- Whether the call at a place is the first that fails, and why. -/
def FailsFirst (calls : List (Role × Data)) (n : Nat) (fault : Fault) : Prop :=
  Offends calls n fault ∧ ∀ j < n, ∀ other, ¬Offends calls j other

/-- Whether an entry is made of the key at the one place and the value at the other. -/
def Joins (calls : List (Role × Data)) (pair : Nat × Nat) (e : Entry) : Prop :=
  ∃ k v, calls[pair.1]? = .some (.key, k) ∧ calls[pair.2]? = .some (.value, v) ∧ Gives (k, v) e

theorem Offends.exists_call (h : Offends calls n fault) : ∃ call, calls[n]? = .some call := by
  cases h with
  | withoutKey hcall => exact ⟨_, hcall⟩
  | key hcall => exact ⟨_, hcall⟩
  | value hcall => exact ⟨_, hcall⟩

theorem Offends.unique (h : Offends calls n fault) (h' : Offends calls n other) : fault = other := by
  cases h with
  | withoutKey hcall hkey =>
    cases h' with
    | withoutKey => rfl
    | key hcall' => rw [hcall] at hcall'; cases hcall'
    | value _ hkey' => exact absurd hkey' hkey
  | key hcall =>
    cases h' with
    | withoutKey hcall' => rw [hcall] at hcall'; cases hcall'
    | key hcall' => rw [hcall] at hcall'; cases hcall'; rfl
    | value hcall' => rw [hcall] at hcall'; cases hcall'
  | value hcall hkey =>
    cases h' with
    | withoutKey _ hkey' => exact absurd hkey hkey'
    | key hcall' => rw [hcall] at hcall'; cases hcall'
    | value hcall' => rw [hcall] at hcall'; cases hcall'; rfl

theorem Joins.unique {pair : Nat × Nat} {e e' : Entry} (h : Joins calls pair e)
    (h' : Joins calls pair e') : e = e' := by
  obtain ⟨k, v, hk, hv, hname, hscalar⟩ := h
  obtain ⟨k', v', hk', hv', hname', hscalar'⟩ := h'
  rw [hk] at hk'
  rw [hv] at hv'
  cases hk'
  cases hv'
  have hfirst := (key_eq_ok_iff.2 hname).symm.trans (key_eq_ok_iff.2 hname')
  have hsecond := (value_eq_ok_iff.2 hscalar).symm.trans (value_eq_ok_iff.2 hscalar')
  exact Prod.ext (Except.ok.inj hfirst) (Except.ok.inj hsecond)

/-- A key that is given with no value after it is the last call. -/
theorem keyGiven_succ_iff (hn : n < calls.length) :
    KeyGiven calls (n + 1) ↔ ∃ d, calls[n]? = .some (.key, d) := by
  constructor
  · rintro ⟨k, hk, hkey, hnone⟩
    rcases Nat.lt_succ_iff_lt_or_eq.1 hk with hlt | rfl
    · obtain ⟨⟨role, d⟩, hcall⟩ : ∃ call, calls[n]? = .some call :=
        ⟨_, List.getElem?_eq_getElem hn⟩
      cases role with
      | key => exact ⟨d, hcall⟩
      | value => exact absurd hcall (hnone n hlt (Nat.lt_succ_self n) d)
    · exact hkey
  · intro h
    exact ⟨n, Nat.lt_succ_self n, h, fun j hnj hjn => absurd hjn (Nat.not_lt.2 hnj)⟩

theorem pairsBefore_succ_of_key (hcall : calls[n]? = .some (.key, d)) :
    pairsBefore calls (n + 1) = pairsBefore calls n := by
  simp [pairsBefore, List.range_succ, hcall]

theorem pairsBefore_succ_of_value {k : Data} (hcall : calls[n + 1]? = .some (.value, d))
    (hkey : calls[n]? = .some (.key, k)) :
    pairsBefore calls (n + 2) = pairsBefore calls (n + 1) ++ [(n, n + 1)] := by
  rw [pairsBefore, List.range_succ, List.filterMap_append, ← pairsBefore]
  simp [hcall, keyBefore?, hkey]

/-! ## What the calls leave -/

/-- Whether a key is what waits before a place: the text of the key that was given just before, or
none if none is given. -/
def Waits (calls : List (Role × Data)) (n : Nat) : Option String → Prop
  | .some name => ∃ k d, k + 1 = n ∧ calls[k]? = .some (.key, d) ∧ Named d.plain name
  | .none => ¬KeyGiven calls n

/-- Whether this is what the calls before a place leave: the entries of their pairs, each of a value
and the key just before it, and the key that waits. -/
structure Tracks (calls : List (Role × Data)) (n : Nat) (p : Pairing) : Prop where
  entries : ∃ entries, List.Forall₂ (Joins calls) (pairsBefore calls n) entries ∧
    p.vars = .ofList entries
  waits : Waits calls n p.pending?
  inTurn : ∀ pair ∈ pairsBefore calls n, pair.1 + 1 = pair.2 ∧ pair.2 < n
  distinct : ((pairsBefore calls n).map (·.1)).Nodup

theorem tracks_start (calls : List (Role × Data)) : Tracks calls 0 {} where
  entries := ⟨[], .nil, rfl⟩
  waits := fun ⟨k, hk, _⟩ => absurd hk (Nat.not_lt_zero k)
  inTurn _ hpair := absurd hpair List.not_mem_nil
  distinct := List.nodup_nil

theorem length_lt_of_getElem? (hcall : calls[n]? = .some call) : n < calls.length :=
  (List.getElem?_eq_some_iff.1 hcall).1

/-- A key that has a text waits, in the place of one that waited. -/
theorem Tracks.key (h : Tracks calls n p) (hcall : calls[n]? = .some (.key, d)) {name : String}
    (hname : Named d.plain name) : Tracks calls (n + 1) { p with pending? := .some name } where
  entries := pairsBefore_succ_of_key hcall ▸ h.entries
  waits := ⟨n, d, rfl, hcall, hname⟩
  inTurn pair hpair := by
    obtain ⟨hturn, hlt⟩ := h.inTurn pair (pairsBefore_succ_of_key hcall ▸ hpair)
    exact ⟨hturn, Nat.lt_succ_of_lt hlt⟩
  distinct := pairsBefore_succ_of_key hcall ▸ h.distinct

/-- A scalar is put under the key that waits, and none waits then. -/
theorem Tracks.value (h : Tracks calls n p) (hcall : calls[n]? = .some (.value, d)) {name : String}
    (hpending : p.pending? = .some name) {v : Value} (hv : Scalar d.bare v) :
    Tracks calls (n + 1) ⟨p.vars.insert name v, .none⟩ := by
  obtain ⟨entries, hentries, hvars⟩ := h.entries
  have hwaits := h.waits
  rw [hpending] at hwaits
  obtain ⟨k, key, rfl, hkey, hname⟩ := hwaits
  have hpairs := pairsBefore_succ_of_value hcall hkey
  refine ⟨⟨entries ++ [(name, v)], ?_, ?_⟩, ?_, ?_, ?_⟩
  · rw [hpairs]
    exact List.rel_append hentries (.cons ⟨key, d, hkey, hcall, hname, hv⟩ .nil)
  · have hinsert : Variables.ofList (entries ++ [(name, v)]) =
        (Variables.ofList entries).insert name v := by
      rw [Variables.ofList, Variables.extend, List.foldl_append]
      rfl
    rw [hinsert, ← hvars]
  · rw [Waits, keyGiven_succ_iff (length_lt_of_getElem? hcall), hcall]
    rintro ⟨d', hd'⟩
    cases hd'
  · intro pair hpair
    rw [hpairs, List.mem_append, List.mem_singleton] at hpair
    rcases hpair with hpair | rfl
    · obtain ⟨hturn, hlt⟩ := h.inTurn pair hpair
      exact ⟨hturn, Nat.lt_succ_of_lt hlt⟩
    · exact ⟨rfl, Nat.lt_succ_self _⟩
  · rw [hpairs, List.map_append, List.nodup_append]
    refine ⟨h.distinct, List.nodup_cons.2 ⟨List.not_mem_nil, .nil⟩, fun a ha b hb => ?_⟩
    obtain ⟨pair, hpair, rfl⟩ := List.mem_map.1 ha
    obtain ⟨hturn, hlt⟩ := h.inTurn pair hpair
    rw [List.map_singleton, List.mem_singleton] at hb
    omega

/-- A call offends and leaves the variables as they were, or what it leaves follows it. -/
theorem Tracks.perform (h : Tracks calls n p) (hcall : calls[n]? = .some call) :
    (∃ q fault, p.perform call = (q, .some fault) ∧ Offends calls n fault ∧ q.vars = p.vars) ∨
      ∃ q, p.perform call = (q, .none) ∧ (∀ fault, ¬Offends calls n fault) ∧ Tracks calls (n + 1) q := by
  obtain ⟨role, d⟩ := call
  cases role with
  | key =>
    cases hd : d.key with
    | error fault =>
      obtain ⟨hnone, rfl⟩ := key_eq_error_iff.1 hd
      exact .inl ⟨p, _, by rw [Pairing.perform, hd], .key hcall hnone, rfl⟩
    | ok name =>
      have hname := key_eq_ok_iff.1 hd
      refine .inr ⟨_, by rw [Pairing.perform, hd], fun fault hoffends => ?_, h.key hcall hname⟩
      cases hoffends with
      | withoutKey hcall' => rw [hcall] at hcall'; cases hcall'
      | key hcall' hnone =>
        rw [hcall] at hcall'
        cases hcall'
        exact hnone name hname
      | value hcall' => rw [hcall] at hcall'; cases hcall'
  | value =>
    have hwaits := h.waits
    cases hpending : p.pending? with
    | none =>
      rw [hpending] at hwaits
      exact .inl ⟨p, _, by rw [Pairing.perform, hpending], .withoutKey hcall hwaits, rfl⟩
    | some name =>
      rw [hpending] at hwaits
      obtain ⟨k, key, rfl, hkey, hname⟩ := hwaits
      have hgiven : KeyGiven calls (k + 1) :=
        (keyGiven_succ_iff (length_lt_of_getElem? hkey)).2 ⟨key, hkey⟩
      cases hd : d.value with
      | error fault =>
        obtain ⟨hnone, rfl⟩ := value_eq_error_iff.1 hd
        exact .inl ⟨{ p with pending? := .none }, _, by simp only [Pairing.perform, hpending, hd],
          .value hcall hgiven hnone, rfl⟩
      | ok v =>
        have hv := value_eq_ok_iff.1 hd
        refine .inr ⟨_, by simp only [Pairing.perform, hpending, hd], fun fault hoffends => ?_,
          h.value hcall hpending hv⟩
        cases hoffends with
        | withoutKey _ hnotGiven => exact hnotGiven hgiven
        | key hcall' => rw [hcall] at hcall'; cases hcall'
        | value hcall' _ hnone =>
          rw [hcall] at hcall'
          cases hcall'
          exact hnone v hv

/-- As long as no call offends, what the calls leave follows them. -/
theorem exists_tracks (hn : n ≤ calls.length) (h : ∀ j < n, ∀ fault, ¬Offends calls j fault) :
    ∃ p, Pairing.run {} (calls.take n) = (p, .none) ∧ Tracks calls n p := by
  induction n with
  | zero => exact ⟨{}, rfl, tracks_start calls⟩
  | succ n ih =>
    obtain ⟨p, hrun, hp⟩ := ih (Nat.le_of_succ_le hn) fun j hj => h j (Nat.lt_succ_of_lt hj)
    have hcall := List.getElem?_eq_getElem hn
    rcases hp.perform hcall with ⟨q, fault, -, hoffends, -⟩ | ⟨q, hperform, -, hq⟩
    · exact absurd hoffends (h n (Nat.lt_succ_self n) fault)
    · refine ⟨q, ?_, hq⟩
      rw [List.take_succ_eq_append_getElem hn, Pairing.run_append hrun, Pairing.run, hperform]
      rfl

/-- The call that fails first ends the calls, and leaves the variables as they were. -/
theorem run_of_failsFirst (h : FailsFirst calls n fault) :
    ∃ p q, Pairing.run {} (calls.take n) = (p, .none) ∧ Tracks calls n p ∧
      Pairing.run {} calls = (q, .some fault) ∧ q.vars = p.vars := by
  obtain ⟨hoffends, hbefore⟩ := h
  obtain ⟨call, hcall⟩ := hoffends.exists_call
  have hn := length_lt_of_getElem? hcall
  obtain ⟨p, hrun, hp⟩ := exists_tracks (Nat.le_of_lt hn) hbefore
  rcases hp.perform hcall with ⟨q, fault', hperform, hoffends', hvars⟩ | ⟨q, -, hnone, -⟩
  · cases hoffends.unique hoffends'
    refine ⟨p, q, hrun, hp, ?_, hvars⟩
    have hsplit : calls = calls.take n ++ call :: calls.drop (n + 1) := by
      rw [← (List.getElem?_eq_some_iff.1 hcall).2, ← List.drop_eq_getElem_cons hn,
        List.take_append_drop]
    rw [hsplit, Pairing.run_append hrun, Pairing.run, hperform]
  · exact absurd hoffends (hnone fault)

theorem run_of_not_offends (h : ∀ n fault, ¬Offends calls n fault) :
    ∃ p, Pairing.run {} calls = (p, .none) ∧ Tracks calls calls.length p := by
  have htracks := exists_tracks (Nat.le_refl calls.length) fun j _ => h j
  rwa [List.take_length] at htracks

theorem not_offends_or_failsFirst (calls : List (Role × Data)) :
    (∀ n fault, ¬Offends calls n fault) ∨ ∃ n fault, FailsFirst calls n fault := by
  classical
  by_cases h : ∃ n fault, Offends calls n fault
  · obtain ⟨fault, hfault⟩ := Nat.find_spec h
    exact .inr ⟨Nat.find h, fault, hfault, fun j hj => not_exists.1 (Nat.find_min h hj)⟩
  · simp only [not_exists] at h
    exact .inl h

/-- **A map is built of its calls in any order.** The first call that fails is the first that is a
value with no key given since the previous one, or that has a key or a value that cannot be
converted, and it says why the map is refused. If there is none the variables are the insertions, in
their order, of each value under the most recent key before it. This is the call just before it, so
that no key is used twice and one without a value behind it leaves nothing. A call that fails leaves
the entries as they were. -/
theorem map_pairs_keys_with_values (calls : List (Role × Data)) :
    (∀ error, Variables.ofData (.map calls) = .error error ↔
      ∃ n fault, FailsFirst calls n fault ∧ error = .other fault.message) ∧
    (∀ vars, Variables.ofData (.map calls) = .ok vars ↔
      (∀ n fault, ¬Offends calls n fault) ∧
        ∃ entries, List.Forall₂ (Joins calls) (pairsBefore calls calls.length) entries ∧
          vars = .ofList entries) ∧
    ((∀ n fault, ¬Offends calls n fault) →
      ((pairsBefore calls calls.length).map (·.1)).Nodup ∧
        ∀ pair ∈ pairsBefore calls calls.length, pair.1 + 1 = pair.2) ∧
    ∀ n fault, FailsFirst calls n fault →
      ∃ before after, Pairing.run {} (calls.take n) = (before, .none) ∧
        Pairing.run {} calls = (after, .some fault) ∧ after.vars = before.vars := by
  have hfails {n : Nat} {fault : Fault} (h : FailsFirst calls n fault) :
      Variables.ofData (.map calls) = .error (.other fault.message) := by
    obtain ⟨p, q, -, -, hrun, -⟩ := run_of_failsFirst h
    rw [ofData_map_eq_run, hrun]
  have hbuilds (h : ∀ n fault, ¬Offends calls n fault) :
      ∃ entries, List.Forall₂ (Joins calls) (pairsBefore calls calls.length) entries ∧
        Variables.ofData (.map calls) = .ok (.ofList entries) := by
    obtain ⟨p, hrun, hp⟩ := run_of_not_offends h
    obtain ⟨entries, hentries, hvars⟩ := hp.entries
    refine ⟨entries, hentries, ?_⟩
    rw [ofData_map_eq_run, hrun, ← hvars]
  refine ⟨fun error => ?_, fun vars => ?_, fun h => ?_, fun n fault h => ?_⟩
  · constructor
    · intro herror
      rcases not_offends_or_failsFirst calls with hnone | ⟨n, fault, hfirst⟩
      · obtain ⟨entries, -, hok⟩ := hbuilds hnone
        rw [hok] at herror
        cases herror
      · rw [hfails hfirst, Except.error.injEq] at herror
        exact ⟨n, fault, hfirst, herror.symm⟩
    · rintro ⟨n, fault, hfirst, rfl⟩
      exact hfails hfirst
  · constructor
    · intro hok
      rcases not_offends_or_failsFirst calls with hnone | ⟨n, fault, hfirst⟩
      · obtain ⟨entries, hentries, hbuilt⟩ := hbuilds hnone
        rw [hbuilt, Except.ok.injEq] at hok
        exact ⟨hnone, entries, hentries, hok.symm⟩
      · rw [hfails hfirst] at hok
        cases hok
    · rintro ⟨hnone, entries, hentries, rfl⟩
      obtain ⟨entries', hentries', hbuilt⟩ := hbuilds hnone
      have hunique : Relator.RightUnique (Joins calls) := fun _ _ _ => Joins.unique
      have hsame : entries = entries' := List.right_unique_forall₂' hunique hentries hentries'
      rw [hsame, hbuilt]
  · obtain ⟨p, -, hp⟩ := run_of_not_offends h
    exact ⟨hp.distinct, fun pair hpair => (hp.inTurn pair hpair).1⟩
  · obtain ⟨before, after, hbefore, -, hafter, hvars⟩ := run_of_failsFirst h
    exact ⟨before, after, hbefore, hafter, hvars⟩

/-- The first key is replaced before it is used, and the second is used up by the first value. -/
example :
    let calls : List (Role × Data) :=
      [(.key, .text "a"), (.key, .text "b"), (.value, .signed 1), (.value, .signed 2)]
    pairsBefore calls 3 = [(1, 2)] ∧ (Pairing.run {} calls).1.vars.keys = ["b"] ∧
      (Pairing.run {} calls).2 = .some .valueWithoutKey := by
  decide

end Stencil.Data
