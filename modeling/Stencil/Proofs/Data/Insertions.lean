/-
What data puts into the variables that are made of it.

The calls that build a map put in an entry for each value, under the key that waits for it. What
they build is what these entries, inserted in their order, make of new variables
(`toVariables_eq_ofList`).
-/
import Stencil.Data

namespace Stencil.Data

/-- The entries that calls put in, one for each value; `waiting?` is the key that waits for it. -/
def entriesOf (waiting? : Option String) : List (Role × Data) → List Entry
  | [] => []
  | (.key, d) :: rest => entriesOf d.key.toOption rest
  | (.value, d) :: rest =>
    (waiting?.bind fun name => d.value.toOption.map (name, ·)).toList ++ entriesOf .none rest

/-- The entries that a map or a record puts in. -/
def insertions : Data → List Entry
  | .map calls => entriesOf .none calls
  | .record _ fields => entriesOf .none (fields.flatMap fieldCalls)
  | .some inner => inner.insertions
  | .wrapper _ inner => inner.insertions
  | _ => []

theorem vars_of_call {p q : Pairing} {call : Role × Data} {rest : List (Role × Data)}
    (h : p.call call = .ok q) :
    q.vars.extend (entriesOf q.pending? rest) =
      p.vars.extend (entriesOf p.pending? (call :: rest)) := by
  obtain ⟨role, d⟩ := call
  cases role with
  | key =>
    cases hkey : d.key with
    | error fault => rw [Pairing.call, hkey] at h; cases h
    | ok name =>
      rw [Pairing.call, hkey] at h
      cases h
      rw [entriesOf, hkey]
      rfl
  | value =>
    cases hpending : p.pending? with
    | none => rw [Pairing.call, hpending] at h; cases h
    | some name =>
      cases hvalue : d.value with
      | error fault => rw [Pairing.call, hpending, hvalue] at h; cases h
      | ok v =>
        rw [Pairing.call, hpending, hvalue] at h
        cases h
        rw [entriesOf, hvalue]
        rfl

theorem vars_of_calls {calls : List (Role × Data)} {p q : Pairing}
    (h : calls.foldlM Pairing.call p = .ok q) :
    q.vars = p.vars.extend (entriesOf p.pending? calls) := by
  induction calls generalizing p with
  | nil =>
    cases h
    rfl
  | cons call rest ih =>
    rw [List.foldlM_cons] at h
    cases hcall : p.call call with
    | error fault => rw [hcall] at h; cases h
    | ok next =>
      rw [hcall] at h
      rw [ih h, vars_of_call hcall]

theorem vars_of_build {calls : List (Role × Data)} {vars : Variables}
    (h : build calls = .ok vars) : vars = .ofList (entriesOf .none calls) := by
  cases hcalls : calls.foldlM Pairing.call {} with
  | error fault => rw [build, hcalls] at h; cases h
  | ok p =>
    rw [build, hcalls] at h
    cases h
    exact vars_of_calls hcalls

theorem toVariables_eq_ofList {d : Data} {vars : Variables} (h : d.toVariables = .ok vars) :
    vars = .ofList d.insertions := by
  fun_induction toVariables d with
  | case1 calls => exact vars_of_build h
  | case2 name fields => exact vars_of_build h
  | case3 inner ih => exact ih h
  | case4 name inner ih => exact ih h
  | case5 => cases h
  | case6 => cases h

end Stencil.Data
