/-
Faults of a template that can be seen without deciding its conditions.

Where a marker may stand is a matter of the lines alone: an end-marker needs an open block, an
else-if- or else-marker one whose else-marker is not behind. The first line that is out of its
place, or that assigns with no or several `=`, is the first flaw of the template (`firstFlaw?`).

A run knows less of its blocks: in one of which a branch was taken it forgets whether the
else-marker is behind (`Branch.Seen`). Under any evaluator of booleans it reports the first flaw,
but that it may pass over a marker after an else-marker. Whether it does depends on the conditions:
if all hold it does, if none holds it does not. So the templates that fail alike whatever their
conditions are exactly those whose first flaw is of another kind (`failures_agree_iff`).
-/
import Mathlib.Data.List.Forall2
import Stencil.Proofs.Template.Directive
import Stencil.Proofs.Template.Step

namespace Stencil.Template

/-! ## Flaws -/

/-- What is wrong with a line, its condition and those before it not being looked at. -/
inductive Flaw where
  | malformedSet
  /-- A marker that needs an open block, where there is none. -/
  | outside (marker : Marker)
  /-- A marker of another branch, where the else-marker of the block is behind. -/
  | afterElse (marker : Marker)
  deriving Repr, DecidableEq

def Flaw.fault : Flaw → DirectiveFault
  | .malformedSet => .malformedSet
  | .outside m | .afterElse m => .misplaced m

/-- The open blocks after a marker; of each is kept whether its else-marker is behind. -/
def Marker.place (m : Marker) (blocks : List Bool) : Except Flaw (List Bool) :=
  match m, blocks with
  | .ifHolds _, blocks => .ok (false :: blocks)
  | .elseIf _, false :: outer => .ok (false :: outer)
  | .otherwise, false :: outer => .ok (true :: outer)
  | .close, _ :: outer => .ok outer
  | m, true :: _ => .error (.afterElse m)
  | m, [] => .error (.outside m)

/-- The open blocks after a line. -/
def place (blocks : List Bool) (line : List Char) : Except Flaw (List Bool) :=
  match Directive.ofCode (Text.dropEnd Text.isBlank line) with
  | .content | .unsupported _ => .ok blocks
  | .set argument => if argument.count '=' = 1 then .ok blocks else .error .malformedSet
  | .marker m => m.place blocks

/-- The first flaw of the lines, and the number of its line. -/
def firstFlaw? (blocks : List Bool) (number : Nat) : List (List Char) → Option (Nat × Flaw)
  | [] => none
  | line :: rest =>
    match place blocks line with
    | .ok blocks => firstFlaw? blocks (number + 1) rest
    | .error flaw => some (number, flaw)

/-! ## Branches and else-markers -/

/-- Whether the else-marker of a block that is in this branch may be behind, or may not. -/
inductive Branch.Seen : Branch → Bool → Prop
  | ifTaken : Seen .ifTaken false
  | ifSkipped : Seen .ifSkipped false
  | elseIfTaken : Seen .elseIfTaken false
  | elseIfSkipped : Seen .elseIfSkipped false
  | elseTaken : Seen .elseTaken true
  | handled (isBehind : Bool) : Seen .handled isBehind

/-- The branches that a block can be in if the conditions all hold, or none of them does. -/
def Branch.Suits (holds : Bool) : Branch → Prop
  | .ifTaken | .handled => holds = true
  | .ifSkipped | .elseIfSkipped | .elseTaken => holds = false
  | .elseIfTaken => False

open List (Forall₂)

variable {m : Marker} {branches : List Branch} {blocks blocks' : List Bool} {flaw : Flaw}

/-- A marker in its place moves on, and the blocks are seen as it leaves them. -/
theorem Marker.move_of_place_ok (h : Forall₂ Branch.Seen branches blocks)
    (hp : m.place blocks = .ok blocks') :
    (∃ next, m.move branches = .go next ∧ Forall₂ Branch.Seen next blocks') ∨
      ∃ opening condition ifSo ifNot,
        m.move branches = .ask opening condition ifSo ifNot ∧
          Forall₂ Branch.Seen ifSo blocks' ∧ Forall₂ Branch.Seen ifNot blocks' := by
  cases m with
  | ifHolds condition =>
    cases hp
    exact .inr ⟨_, _, _, _, rfl, .cons .ifTaken h, .cons .ifSkipped h⟩
  | elseIf condition =>
    cases h with
    | nil => cases hp
    | @cons innermost isBehind outer _ hseen hrest =>
      cases isBehind with
      | true => cases hp
      | false =>
        cases hp
        cases hseen with
        | ifSkipped | elseIfSkipped =>
          exact .inr ⟨_, _, _, _, rfl, .cons .elseIfTaken hrest, .cons .elseIfSkipped hrest⟩
        | _ => exact .inl ⟨_, rfl, .cons (.handled _) hrest⟩
  | otherwise =>
    cases h with
    | nil => cases hp
    | @cons innermost isBehind outer _ hseen hrest =>
      cases isBehind with
      | true => cases hp
      | false =>
        cases hp
        cases hseen with
        | ifSkipped | elseIfSkipped => exact .inl ⟨_, rfl, .cons .elseTaken hrest⟩
        | _ => exact .inl ⟨_, rfl, .cons (.handled _) hrest⟩
  | close =>
    cases h with
    | nil => cases hp
    | cons hseen hrest =>
      cases hp
      exact .inl ⟨_, rfl, hrest⟩

/-- A marker out of its place is refused, unless it comes after an else-marker in a block of which
a branch was taken. -/
theorem Marker.move_of_place_error (h : Forall₂ Branch.Seen branches blocks)
    (hp : m.place blocks = .error flaw) :
    flaw = .outside m ∧ m.move branches = .misplaced ∨
      flaw = .afterElse m ∧
        (branches.head? = some .elseTaken ∧ m.move branches = .misplaced ∨
          branches.head? = some .handled ∧ m.move branches = .go branches) := by
  cases h with
  | nil => cases m <;> cases hp <;> exact .inl ⟨rfl, rfl⟩
  | @cons innermost isBehind outer _ hseen hrest =>
    -- With a block open, only what follows its else-marker is out of place.
    have hlate : isBehind = true ∧ flaw = .afterElse m := by
      cases m <;> cases isBehind <;> cases hp <;> exact ⟨rfl, rfl⟩
    obtain ⟨rfl, rfl⟩ := hlate
    refine .inr ⟨rfl, ?_⟩
    cases hseen with
    | elseTaken => exact .inl ⟨rfl, by cases m <;> first | rfl | cases hp⟩
    | handled => exact .inr ⟨rfl, by cases m <;> first | rfl | cases hp⟩

/-- A marker with no say of a condition leads from branches that suit a value to such. -/
theorem Marker.suits_of_go {holds : Bool} {next : List Branch}
    (h : ∀ b ∈ branches, b.Suits holds) (hm : m.move branches = .go next) :
    ∀ b ∈ next, b.Suits holds := by
  cases branches with
  | nil => cases m <;> cases hm
  | cons innermost outer =>
    obtain ⟨hinnermost, houter⟩ := List.forall_mem_cons.1 h
    cases m with
    | ifHolds condition => cases hm
    | close => cases hm; exact houter
    | elseIf | otherwise =>
      cases innermost <;> cases hm <;> first
        | exact hinnermost.elim
        | exact List.forall_mem_cons.2 ⟨hinnermost, houter⟩

theorem Marker.suits_of_ask {holds : Bool} {opening : String} {condition : List Char}
    {ifSo ifNot : List Branch} (h : ∀ b ∈ branches, b.Suits holds)
    (hm : m.move branches = .ask opening condition ifSo ifNot) :
    ∀ b ∈ if holds then ifSo else ifNot, b.Suits holds := by
  cases m with
  | ifHolds =>
    cases hm
    cases holds <;> exact List.forall_mem_cons.2 ⟨rfl, h⟩
  | elseIf =>
    cases branches with
    | nil => cases hm
    | cons innermost outer =>
      obtain ⟨hinnermost, houter⟩ := List.forall_mem_cons.1 h
      cases innermost <;> cases hm <;> cases hinnermost <;>
        exact List.forall_mem_cons.2 ⟨rfl, houter⟩
  | otherwise =>
    cases branches with
    | nil => cases hm
    | cons innermost outer => cases innermost <;> cases hm
  | close => cases branches <;> cases hm

/-! ## Runs under evaluators of booleans -/

namespace Progress

variable {e : Engine} {p q : Progress} {line : List Char}

/-- A line with a flaw fails for it, unless it is passed over: a marker after an else-marker, in a
block of which a branch was taken. -/
theorem step_of_place_error (h : Forall₂ Branch.Seen p.blocks blocks)
    (hp : place blocks line = .error flaw) :
    (∃ q error, p.step e line = (q, some error) ∧
        error.gist = (.directive, flaw.fault.message, some p.number) ∧
        (p.blocks.head? = some .elseTaken ∨ ∀ m, flaw ≠ .afterElse m)) ∨
      ∃ q m, p.step e line = (q, none) ∧ flaw = .afterElse m ∧
        p.blocks.head? = some .handled := by
  unfold place at hp
  split at hp
  · cases hp
  · cases hp
  · rename_i argument hd
    split at hp
    · cases hp
    · rename_i hcount
      cases hp
      have ha : Assignment.ofArgument? e.dialect.sigil argument = none := by
        rw [← Option.not_isSome_iff_eq_none, Assignment.isSome_ofArgument?_iff]
        exact hcount
      obtain ⟨events, hs⟩ := step_malformed (p := p) hd ha
      exact .inl ⟨_, _, hs, rfl, .inr (by simp)⟩
  · rename_i m hd
    rcases Marker.move_of_place_error h hp with ⟨rfl, hm⟩ | ⟨rfl, ⟨hhead, hm⟩ | ⟨hhead, hm⟩⟩
    · obtain ⟨events, hs⟩ := step_misplaced (e := e) hd hm
      exact .inl ⟨_, _, hs, rfl, .inr (by simp)⟩
    · obtain ⟨events, hs⟩ := step_misplaced (e := e) hd hm
      exact .inl ⟨_, _, hs, rfl, .inl hhead⟩
    · obtain ⟨events, hs⟩ := step_go (e := e) hd hm
      exact .inr ⟨_, m, hs, rfl, hhead⟩

section

variable (he : ∀ condition, ∃ b, e.judge condition = .ok b)
include he

/-- A line without a flaw is passed. -/
theorem step_of_place_ok (h : Forall₂ Branch.Seen p.blocks blocks)
    (hp : place blocks line = .ok blocks') :
    ∃ q, p.step e line = (q, none) ∧ Forall₂ Branch.Seen q.blocks blocks' := by
  have hshown (hd : (Directive.ofCode (Text.dropEnd Text.isBlank line)).isShown = true) :
      ∃ q, p.step e line = (q, none) ∧ Forall₂ Branch.Seen q.blocks blocks := by
    obtain ⟨events, hs⟩ := step_shown (e := e) (p := p) hd
    exact ⟨_, hs, h⟩
  unfold place at hp
  split at hp
  · rename_i hd
    cases hp
    exact hshown (by rw [hd]; rfl)
  · rename_i name hd
    cases hp
    exact hshown (by rw [hd]; rfl)
  · rename_i argument hd
    split at hp
    · rename_i hcount
      cases hp
      obtain ⟨a, ha⟩ := Option.isSome_iff_exists.1
        ((Assignment.isSome_ofArgument?_iff e.dialect.sigil argument).2 hcount)
      obtain ⟨events, hs⟩ := step_set (e := e) (p := p) hd ha
      exact ⟨_, hs, h⟩
    · cases hp
  · rename_i m hd
    rcases Marker.move_of_place_ok h hp with ⟨next, hm, hnext⟩ | ⟨_, _, ifSo, ifNot, hm, hso, hnot⟩
    · obtain ⟨events, hs⟩ := step_go (e := e) hd hm
      exact ⟨_, hs, hnext⟩
    · obtain ⟨b, hb⟩ := he (call e p.vars _ _)
      obtain ⟨events, hs⟩ := step_ask hd hm hb
      refine ⟨_, hs, ?_⟩
      cases b with
      | true => exact hso
      | false => exact hnot

/-- The lines up to the first flaw are passed. -/
theorem run_to_firstFlaw {n : Nat} {lines : List (List Char)}
    (h : Forall₂ Branch.Seen p.blocks blocks)
    (hf : firstFlaw? blocks p.number lines = some (n, flaw)) :
    ∃ before line rest last blocks', lines = before ++ line :: rest ∧
      p.run e before = (last, none) ∧ last.number = n ∧
      Forall₂ Branch.Seen last.blocks blocks' ∧ place blocks' line = .error flaw := by
  induction lines generalizing p blocks with
  | nil => cases hf
  | cons line rest ih =>
    rw [firstFlaw?] at hf
    split at hf
    · rename_i blocks' hp
      obtain ⟨q, hs, hq⟩ := step_of_place_ok he h hp
      have hnumber : p.number + 1 = q.number := by rw [number, number, count_of_step hs]
      rw [hnumber] at hf
      obtain ⟨before, bad, rest', last, blocks'', rfl, hbefore, hlast⟩ := ih hq hf
      exact ⟨line :: before, bad, rest', last, blocks'', rfl,
        by rw [run_cons_of_step hs, hbefore], hlast⟩
    · rename_i flaw' hp
      cases hf
      exact ⟨[], line, rest, p, blocks, rfl, rfl, rfl, h, hp⟩

theorem run_of_firstFlaw?_eq_none {n : Nat} {lines : List (List Char)}
    (h : Forall₂ Branch.Seen p.blocks blocks)
    (hf : firstFlaw? blocks n lines = none) : ∃ q, p.run e lines = (q, none) := by
  induction lines generalizing p blocks n with
  | nil => exact ⟨p, rfl⟩
  | cons line rest ih =>
    rw [firstFlaw?] at hf
    split at hf
    · rename_i blocks' hp
      obtain ⟨q, hs, hq⟩ := step_of_place_ok he h hp
      rw [run_cons_of_step hs]
      exact ih hq hf
    · cases hf

/-- What fails under an evaluator of booleans is a directive on a line that is not behind. -/
theorem error_of_run {lines : List (List Char)} {error : Error}
    (h : p.run e lines = (q, some error)) :
    error.kind = .directive ∧ ∃ n, error.line? = some n ∧ p.count < n := by
  obtain ⟨before, line, rest, last, -, hbefore, hline⟩ := exists_step_of_run_fail h
  obtain ⟨-, hnumber, -⟩ := error_of_step hline
  refine ⟨?_, last.number, hnumber, by rw [number, count_of_run hbefore]; omega⟩
  have hstep := stepsTo_step e last line
  rw [hline] at hstep
  cases hstep with
  | malformed hd ha => rfl
  | misplaced hd hm => rfl
  | undecided hd hm hj =>
    obtain ⟨b, hb⟩ := he (call e last.vars _ _)
    rw [hb] at hj
    cases hj

end

/-- Conditions that all have one value keep every block in a branch that suits the value. -/
theorem suits_of_run {holds : Bool} (he : ∀ condition, e.judge condition = .ok holds)
    {lines : List (List Char)} (h : ∀ b ∈ p.blocks, b.Suits holds)
    (hr : p.run e lines = (q, none)) : ∀ b ∈ q.blocks, b.Suits holds := by
  induction lines generalizing p with
  | nil => cases hr; exact h
  | cons line rest ih =>
    obtain ⟨next, hs, hnext⟩ := exists_of_run_cons hr
    refine ih ?_ hnext
    have hstep := stepsTo_step e p line
    rw [hs] at hstep
    cases hstep with
    | shown hd => exact h
    | set hd ha => exact h
    | go hd hm => exact Marker.suits_of_go h hm
    | ask hd hm hj =>
      cases (he _).symm.trans hj
      exact Marker.suits_of_ask h hm

end Progress

end Stencil.Template

namespace Stencil

open Template

/-- The first flaw of a source, and the number of its line. -/
def Dialect.firstFlaw? (d : Dialect) (source : String) : Option (Nat × Flaw) :=
  Template.firstFlaw? [] 1 (lines (d.newline?.map (·.toList)) source.toList)

namespace Engine

/-- The engine whose evaluator gives a boolean for every text. -/
def deciding (d : Dialect) (holds : String → Bool) : Engine :=
  ⟨d, fun condition => .ok (.bool (holds condition))⟩

variable {d : Dialect} {source : String} {n : Nat} {flaw : Flaw}

theorem judge_deciding (d : Dialect) (holds : String → Bool) (condition : String) :
    (deciding d holds).judge condition = .ok (holds condition) := rfl

theorem failure?_of_no_flaw (holds : String → Bool) (vars : Variables)
    (hflaw : d.firstFlaw? source = none) :
    ((deciding d holds).render vars source).failure? = none := by
  obtain ⟨q, hq⟩ := Progress.run_of_firstFlaw?_eq_none
    (p := ({ vars } : Progress).record (.processing source.utf8ByteSize vars.size))
    (fun condition => ⟨_, judge_deciding d holds condition⟩) .nil hflaw
  rw [failure?_render]
  exact congrArg (·.2.map Error.gist) hq

/-- The first flaw is reported; or it is a marker after an else-marker, and what is reported, if
anything is, comes later. Neither happens to such a marker whatever the conditions are: it is
reported only if some condition does not hold, and passed over only if some condition does. -/
theorem failure?_of_flaw (holds : String → Bool) (vars : Variables)
    (hflaw : d.firstFlaw? source = some (n, flaw)) :
    ((deciding d holds).render vars source).failure? =
        some (.directive, flaw.fault.message, some n) ∧
        ((∃ condition, holds condition = false) ∨ ∀ m, flaw ≠ .afterElse m) ∨
      (∃ condition, holds condition = true) ∧ (∃ m, flaw = .afterElse m) ∧
        ∀ kind message line?,
          ((deciding d holds).render vars source).failure? = some (kind, message, line?) →
            kind = .directive ∧ ∃ later, line? = some later ∧ n < later := by
  have he : ∀ condition, ∃ b, (deciding d holds).judge condition = .ok b := fun condition =>
    ⟨_, judge_deciding d holds condition⟩
  obtain ⟨before, line, rest, last, blocks, hlines, hbefore, rfl, hseen, hplace⟩ :=
    Progress.run_to_firstFlaw
      (p := ({ vars } : Progress).record (.processing source.utf8ByteSize vars.size)) he .nil hflaw
  have hprocess : (deciding d holds).process vars source =
      last.run (deciding d holds) (line :: rest) := by
    refine Eq.trans ?_ (Progress.run_append_of_ok hbefore)
    rw [← hlines]
    rfl
  -- Before the flaw, conditions of one value leave the innermost block in a branch that suits it.
  have hsuits {b : Branch} (hhead : last.blocks.head? = some b) (value : Bool)
      (hall : ∀ condition, holds condition = value) : b.Suits value :=
    Progress.suits_of_run (fun condition => by rw [judge_deciding, hall])
      (fun _ hnil => absurd hnil List.not_mem_nil) hbefore b (List.mem_of_head? hhead)
  rw [failure?_render, hprocess]
  rcases Progress.step_of_place_error (e := deciding d holds) hseen hplace with
    ⟨q, error, hs, hgist, hhead⟩ | ⟨q, m, hs, hm, hhead⟩
  · left
    rw [Progress.run_cons_of_fail hs, Option.map_some, hgist]
    refine ⟨rfl, hhead.imp_left fun hhead => ?_⟩
    -- An else-branch is taken only where a condition did not hold.
    by_contra hnone
    simp only [not_exists, Bool.not_eq_false] at hnone
    cases hsuits hhead true hnone
  · right
    rw [Progress.run_cons_of_step hs]
    refine ⟨?_, ⟨m, hm⟩, fun kind message line? hfail => ?_⟩
    · -- A block is handled only where a condition held.
      by_contra hnone
      simp only [not_exists, Bool.not_eq_true] at hnone
      cases hsuits hhead false hnone
    · obtain ⟨error, herror, hgist⟩ := Option.map_eq_some_iff.1 hfail
      cases hgist
      obtain ⟨hkind, later, hlater, hlt⟩ := Progress.error_of_run he (Prod.ext rfl herror)
      rw [Progress.count_of_step hs] at hlt
      exact ⟨hkind, later, hlater, hlt⟩

/-- **Which templates fail alike whatever their conditions are.** Under an evaluator of booleans a
template fails with its first flaw, a directive on the line of the flaw, and does not fail if it has
none. But a first flaw that is a marker after an else-marker may be passed over, and then what
fails, if anything does, is a directive on a later line. All evaluators of booleans fail alike just
if the first flaw is no such marker. -/
theorem failures_agree_iff (d : Dialect) (vars : Variables) (source : String) :
    (∀ holds : String → Bool,
      ((deciding d holds).render vars source).failure? =
          (d.firstFlaw? source).map (fun f => (.directive, f.2.fault.message, some f.1)) ∨
        ∃ n m, d.firstFlaw? source = some (n, .afterElse m) ∧
          ∀ kind message line?,
            ((deciding d holds).render vars source).failure? = some (kind, message, line?) →
              kind = .directive ∧ ∃ later, line? = some later ∧ n < later) ∧
    ((∀ holds holds' : String → Bool,
        ((deciding d holds).render vars source).failure? =
          ((deciding d holds').render vars source).failure?) ↔
      ∀ n m, d.firstFlaw? source ≠ some (n, .afterElse m)) := by
  have hreport (holds : String → Bool) (h : ∀ n m, d.firstFlaw? source ≠ some (n, .afterElse m)) :
      ((deciding d holds).render vars source).failure? =
        (d.firstFlaw? source).map (fun f => (.directive, f.2.fault.message, some f.1)) := by
    cases hflaw : d.firstFlaw? source with
    | none => exact failure?_of_no_flaw holds vars hflaw
    | some f =>
      rcases failure?_of_flaw holds vars hflaw with ⟨hfailure, -⟩ | ⟨-, ⟨m, hm⟩, -⟩
      · exact hfailure
      · exact absurd (hflaw.trans (congrArg (fun flaw => some (f.1, flaw)) hm)) (h f.1 m)
  refine ⟨fun holds => ?_, fun h n m hflaw => ?_, fun h holds holds' => ?_⟩
  · by_cases h : ∀ n m, d.firstFlaw? source ≠ some (n, .afterElse m)
    · exact .inl (hreport holds h)
    · simp only [not_forall, not_not] at h
      obtain ⟨n, m, hflaw⟩ := h
      rcases failure?_of_flaw holds vars hflaw with ⟨hfailure, -⟩ | ⟨-, -, hlater⟩
      · exact .inl (by rw [hfailure, hflaw]; rfl)
      · exact .inr ⟨n, m, hflaw, hlater⟩
  · -- The marker is reported if no condition holds, and not if all do.
    have hnone : ((deciding d fun _ => false).render vars source).failure? =
        some (.directive, (Flaw.afterElse m).fault.message, some n) := by
      rcases failure?_of_flaw (fun _ => false) vars hflaw with ⟨hfailure, -⟩ | ⟨⟨_, hc⟩, -⟩
      · exact hfailure
      · cases hc
    rcases failure?_of_flaw (fun _ => true) vars hflaw with ⟨-, ⟨_, hc⟩ | hm⟩ | ⟨-, -, hlater⟩
    · cases hc
    · exact hm m rfl
    · obtain ⟨-, later, hline, hlt⟩ := hlater _ _ _ ((h _ _).trans hnone)
      cases hline
      exact absurd hlt (Nat.lt_irrefl n)
  · rw [hreport holds h, hreport holds' h]

/-- A second else-marker is refused only if no branch was taken before the first. -/
theorem second_else_depends_on_conditions :
    let source := "#if (c)\n#else\n#else\n#end\n"
    ((deciding {} fun _ => true).render {} source).result.toOption = some "" ∧
      ((deciding {} fun _ => false).render {} source).failure? =
        some (.directive, "unexpected `#else`", some 3) ∧
      ¬∀ holds holds' : String → Bool,
        ((deciding {} holds).render {} source).failure? =
          ((deciding {} holds').render {} source).failure? := by
  intro source
  have hflaw : ({} : Dialect).firstFlaw? source = some (3, .afterElse .otherwise) := by
    decide +kernel
  exact ⟨by decide +kernel, by decide +kernel, fun hagree =>
    (failures_agree_iff {} {} source).2.1 hagree 3 .otherwise hflaw⟩

end Engine

end Stencil
