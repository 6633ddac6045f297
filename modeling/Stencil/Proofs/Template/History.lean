/-
The history of each block of a template.

A run is watched line by line (`Histories.note`): of every block it is kept which blocks were open
when it was opened, in which branches it has been, and which conditions were evaluated for it. The
run itself is not changed, all of this is read off what there is before and after a line.

A marker leads a block on from the branch that it is in, so the branches and the answers of a block
are of one of three forms (`Course`), whatever the markers are and whatever stands between them.
That is what every line keeps (`Histories.Keeps.step`), and so at any time of any run each block has
had one live branch at most, and the blocks around it are as they were.
-/
import Stencil.Proofs.Template.Step

namespace Stencil.Template

/-! ## Watching a run -/

/-- What has become of a block. -/
structure History where
  /-- The blocks that were open when this one was opened. -/
  around : List Branch
  /-- The branches that it has been in, one for each marker that led to one. -/
  branches : List Branch
  /-- The conditions that were evaluated for it. -/
  calls : List String
  deriving Repr, DecidableEq

/-- The histories of the blocks of a run, those of open blocks with the innermost first. -/
structure Histories where
  opened : List History := []
  closed : List History := []
  deriving Repr, DecidableEq

/-- The histories after a line that led from a progress to a result. The if-marker that is passed
opens a block; any other marker is one of the innermost block. -/
def Histories.note (h : Histories) (line : List Char) (p : Progress)
    (result : Progress × Option Error) : Histories :=
  let calls := result.1.calls.drop p.calls.length
  let entered := if result.2.isNone then result.1.blocks.take 1 else []
  match Directive.ofCode (Text.dropEnd Text.isBlank line), h.opened with
  | .marker (.ifHolds _), opened =>
    if result.2.isNone then { h with opened := ⟨p.blocks, entered, calls⟩ :: opened } else h
  | .marker (.elseIf _), block :: outer | .marker .otherwise, block :: outer =>
    let block := { block with branches := block.branches ++ entered, calls := block.calls ++ calls }
    { h with opened := block :: outer }
  | .marker .close, block :: outer => ⟨outer, h.closed ++ [block]⟩
  | _, _ => h

/-- The histories after the lines of a run, up to the first that fails. -/
def Progress.histories (e : Engine) (p : Progress) (h : Histories) :
    List (List Char) → Histories
  | [] => h
  | line :: rest =>
    match p.step e line with
    | (q, none) => q.histories e (h.note line p (q, none)) rest
    | (q, some error) => h.note line p (q, some error)

/-! ## The course of a block -/

/-- The branches of a block of which none is taken, after so many conditions. -/
def skippedBranches : Nat → List Branch
  | 0 => []
  | n + 1 => .ifSkipped :: List.replicate n .elseIfSkipped

/-- The branches that a block has been in, with the answers of its conditions. -/
inductive Course : List Branch → List Bool → Prop
  /-- No condition held so far. -/
  | skipping (n : Nat) : Course (skippedBranches (n + 1)) (List.replicate (n + 1) false)
  /-- A condition held, and so many markers came after its branch. -/
  | taking (n after : Nat) :
    Course (skippedBranches n ++ (if n = 0 then .ifTaken else .elseIfTaken) ::
      List.replicate after .handled) (List.replicate n false ++ [true])
  /-- No condition held, and the else-branch is taken. -/
  | falling (n : Nat) :
    Course (skippedBranches (n + 1) ++ [.elseTaken]) (List.replicate (n + 1) false)

/-- The pattern `(ifSkipped elseIfSkipped*)?`, then one live branch at most, then `handled*`. -/
def OneTaken (branches : List Branch) : Prop :=
  ∃ skipped taken handled, branches = skipped ++ taken ++ handled ∧
    (skipped = [] ∨ ∃ n, skipped = .ifSkipped :: List.replicate n .elseIfSkipped) ∧
    taken.length ≤ 1 ∧ (∀ branch ∈ taken, branch.isLive = true) ∧
    ∃ n, handled = List.replicate n .handled

theorem skippedBranches_succ (n : Nat) :
    skippedBranches (n + 2) = skippedBranches (n + 1) ++ [.elseIfSkipped] := by
  simp only [skippedBranches, List.replicate_succ', List.cons_append]

theorem isSkipped_of_getLast? {n : Nat} {branch : Branch}
    (h : (skippedBranches (n + 1)).getLast? = some branch) :
    branch = .ifSkipped ∨ branch = .elseIfSkipped := by
  cases n with
  | zero => exact .inl (Option.some.inj h).symm
  | succ n =>
    rw [skippedBranches_succ, List.getLast?_concat, Option.some.injEq] at h
    exact .inr h.symm

theorem eq_nil_or_of_skippedBranches (n : Nat) :
    skippedBranches n = [] ∨
      ∃ k, skippedBranches n = .ifSkipped :: List.replicate k .elseIfSkipped := by
  cases n with
  | zero => exact .inl rfl
  | succ k => exact .inr ⟨k, rfl⟩

namespace Course

variable {branches : List Branch} {answers : List Bool} {branch : Branch}

theorem oneTaken (h : Course branches answers) : OneTaken branches := by
  cases h with
  | skipping n =>
    exact ⟨_, [], [], by simp, eq_nil_or_of_skippedBranches (n + 1), by simp, by simp, 0, rfl⟩
  | taking n after =>
    refine ⟨_, [if n = 0 then .ifTaken else .elseIfTaken], _, by simp,
      eq_nil_or_of_skippedBranches n, by simp, ?_, after, rfl⟩
    intro branch hbranch
    rw [List.mem_singleton.1 hbranch]
    split <;> rfl
  | falling n =>
    exact ⟨_, [.elseTaken], [], by simp, eq_nil_or_of_skippedBranches (n + 1), by simp,
      by simp [Branch.isLive], 0, rfl⟩

/-- The answers are all negative, but that the last may be positive. -/
theorem answers_eq (h : Course branches answers) :
    ∃ n, answers = List.replicate n false ∨ answers = List.replicate n false ++ [true] := by
  cases h with
  | skipping n => exact ⟨n + 1, .inl rfl⟩
  | taking n after => exact ⟨n, .inr rfl⟩
  | falling n => exact ⟨n + 1, .inl rfl⟩

/-- In a skipped branch another condition is evaluated, and it decides where the block goes on. -/
theorem ask (h : Course branches answers) (hlast : branches.getLast? = some branch)
    (hskipped : branch = .ifSkipped ∨ branch = .elseIfSkipped) :
    (∃ n, answers = List.replicate n false) ∧
      (∀ b : Bool, Course (branches ++ [if b then .elseIfTaken else .elseIfSkipped])
        (answers ++ [b])) ∧
      Course (branches ++ [.elseTaken]) answers := by
  cases h with
  | skipping n =>
    refine ⟨⟨n + 1, rfl⟩, fun b => ?_, .falling n⟩
    cases b with
    | true => exact .taking (n + 1) 0
    | false =>
      have hmore := Course.skipping (n + 1)
      rw [skippedBranches_succ, List.replicate_succ' (n := n + 1)] at hmore
      exact hmore
  | taking n after =>
    -- The last branch is the live one or a handled one.
    cases after with
    | zero =>
      rw [List.replicate_zero, List.getLast?_concat, Option.some.injEq] at hlast
      subst hlast
      split at hskipped <;> simp at hskipped
    | succ after =>
      rw [List.replicate_succ', ← List.cons_append, ← List.append_assoc, List.getLast?_concat,
        Option.some.injEq] at hlast
      subst hlast
      simp at hskipped
  | falling n =>
    rw [List.getLast?_concat, Option.some.injEq] at hlast
    subst hlast
    simp at hskipped

/-- A block of which a branch was taken by its condition is done with. -/
theorem handle (h : Course branches answers) (hlast : branches.getLast? = some branch)
    (hdone : branch = .ifTaken ∨ branch = .elseIfTaken ∨ branch = .handled) :
    Course (branches ++ [.handled]) answers := by
  cases h with
  | skipping n => rcases isSkipped_of_getLast? hlast with rfl | rfl <;> simp at hdone
  | taking n after =>
    have hmore := Course.taking n (after + 1)
    rw [List.replicate_succ', ← List.cons_append, ← List.append_assoc] at hmore
    exact hmore
  | falling n =>
    rw [List.getLast?_concat, Option.some.injEq] at hlast
    subst hlast
    simp at hdone

end Course

/-! ## What every line keeps -/

/-- Whether a history follows a course, its conditions having been decided. -/
def History.Follows (e : Engine) (block : History) : Prop :=
  ∃ answers, Course block.branches answers ∧ block.calls.map e.judge = answers.map .ok

/-- Whether blocks with these histories are open: each in the branch that it came to last, the
blocks around it being those that it was opened in. -/
inductive History.AreOpen : List History → List Branch → Prop
  | nil : AreOpen [] []
  | cons {block : History} {outer : List History} {branch : Branch}
      (hlast : block.branches.getLast? = some branch) (houter : AreOpen outer block.around) :
      AreOpen (block :: outer) (branch :: block.around)

/-- What the histories of a run keep as long as nothing fails. -/
structure Histories.Keeps (e : Engine) (p : Progress) (h : Histories) : Prop where
  areOpen : History.AreOpen h.opened p.blocks
  follows : ∀ block ∈ h.opened ++ h.closed, block.Follows e
  calls : ((h.opened ++ h.closed).flatMap (·.calls)).Perm p.calls

variable {e : Engine} {p q : Progress} {line : List Char} {h : Histories}

namespace History.AreOpen

variable {opened : List History} {blocks : List Branch}

theorem exists_cons {branch : Branch} {around : List Branch}
    (hopen : AreOpen opened (branch :: around)) :
    ∃ block outer, opened = block :: outer ∧ block.around = around ∧
      block.branches.getLast? = some branch ∧ AreOpen outer around := by
  cases hopen with
  | cons hlast houter => exact ⟨_, _, rfl, rfl, hlast, houter⟩

theorem length_eq (hopen : AreOpen opened blocks) : opened.length = blocks.length := by
  induction hopen with
  | nil => rfl
  | cons hlast houter ih => rw [List.length_cons, List.length_cons, ih]

/-- What is around an open block is what was there when it was opened. -/
theorem drop_eq (hopen : AreOpen opened blocks) {inner outer : List History} {block : History}
    (hsplit : opened = inner ++ block :: outer) :
    ∃ branch, block.branches.getLast? = some branch ∧
      blocks.drop inner.length = branch :: block.around := by
  induction hopen generalizing inner with
  | nil => simp at hsplit
  | @cons first rest branch hlast houter ih =>
    cases inner with
    | nil =>
      cases hsplit
      exact ⟨branch, hlast, rfl⟩
    | cons _ inner =>
      cases hsplit
      exact ih rfl

end History.AreOpen

/-- Where the condition of the innermost block is to decide, it is led on by the answer. -/
theorem Marker.elseIf_ask {condition : List Char} {innermost : Branch} {outer : List Branch}
    {opening : String} {argument : List Char} {ifSo ifNot : List Branch}
    (hm : (Marker.elseIf condition).move (innermost :: outer) =
      .ask opening argument ifSo ifNot) :
    ifSo = .elseIfTaken :: outer ∧ ifNot = .elseIfSkipped :: outer ∧
      (innermost = .ifSkipped ∨ innermost = .elseIfSkipped) := by
  cases innermost <;> cases hm <;> simp

/-- Without a condition the innermost block is led on to a branch that is handled, or to its
else-branch if none was taken. -/
theorem Marker.go_cases {m : Marker} {innermost : Branch} {outer next : List Branch}
    (hm : m.move (innermost :: outer) = .go next) (hclose : m ≠ .close) :
    ∃ branch, next = branch :: outer ∧
      (branch = .handled ∧
          (innermost = .ifTaken ∨ innermost = .elseIfTaken ∨ innermost = .handled) ∨
        branch = .elseTaken ∧ (innermost = .ifSkipped ∨ innermost = .elseIfSkipped)) := by
  cases m with
  | ifHolds condition => cases hm
  | elseIf condition => cases innermost <;> cases hm <;> simp
  | otherwise => cases innermost <;> cases hm <;> simp
  | close => exact absurd rfl hclose

/-- An else-marker and an end-marker have no condition. -/
theorem Marker.ask_cases {m : Marker} {blocks : List Branch} {opening : String}
    {argument : List Char} {ifSo ifNot : List Branch}
    (hm : m.move blocks = .ask opening argument ifSo ifNot) :
    (∃ condition, m = .ifHolds condition ∧ ifSo = .ifTaken :: blocks ∧
        ifNot = .ifSkipped :: blocks) ∨
      ∃ condition innermost outer, m = .elseIf condition ∧ blocks = innermost :: outer ∧
        ifSo = .elseIfTaken :: outer ∧ ifNot = .elseIfSkipped :: outer ∧
        (innermost = .ifSkipped ∨ innermost = .elseIfSkipped) := by
  cases m with
  | ifHolds condition =>
    cases hm
    exact .inl ⟨_, rfl, rfl, rfl⟩
  | elseIf condition =>
    cases blocks with
    | nil => cases hm
    | cons innermost outer =>
      obtain ⟨hso, hnot, hskipped⟩ := Marker.elseIf_ask hm
      exact .inr ⟨condition, innermost, outer, rfl, rfl, hso, hnot, hskipped⟩
  | otherwise =>
    cases blocks with
    | nil => cases hm
    | cons innermost outer => cases innermost <;> cases hm
  | close => cases blocks <;> cases hm

namespace Histories

variable {m : Marker} {block : History} {outer : List History} {result : Progress × Option Error}

theorem note_of_not_marker
    (hd : ∀ m, Directive.ofCode (Text.dropEnd Text.isBlank line) ≠ .marker m) :
    h.note line p result = h := by
  unfold note
  cases hd' : Directive.ofCode (Text.dropEnd Text.isBlank line) with
  | marker m => exact absurd hd' (hd m)
  | _ => rfl

theorem note_open {condition : List Char} {branch : Branch} {calls : List String}
    (hd : Directive.ofCode (Text.dropEnd Text.isBlank line) = .marker (.ifHolds condition))
    (hblocks : q.blocks = branch :: p.blocks) (hcalls : q.calls = p.calls ++ calls) :
    h.note line p (q, none) =
      { h with opened := ⟨p.blocks, [branch], calls⟩ :: h.opened } := by
  simp only [note, hd, hblocks, hcalls, List.drop_left]
  rfl

theorem note_close (hd : Directive.ofCode (Text.dropEnd Text.isBlank line) = .marker .close)
    (hopened : h.opened = block :: outer) :
    h.note line p result = ⟨outer, h.closed ++ [block]⟩ := by
  simp only [note, hd, hopened]

/-- The other markers add to the history of the innermost block. -/
theorem note_lead (entered : List Branch) (calls : List String)
    (hd : Directive.ofCode (Text.dropEnd Text.isBlank line) = .marker m) (hclose : m ≠ .close)
    (hif : ∀ condition, m ≠ .ifHolds condition) (hopened : h.opened = block :: outer)
    (hentered : (if result.2.isNone then result.1.blocks.take 1 else []) = entered)
    (hcalls : result.1.calls = p.calls ++ calls) :
    h.note line p result =
      ⟨⟨block.around, block.branches ++ entered, block.calls ++ calls⟩ :: outer, h.closed⟩ := by
  cases m with
  | ifHolds condition => exact absurd rfl (hif condition)
  | close => exact absurd rfl hclose
  | elseIf condition => simp only [note, hd, hopened, hentered, hcalls, List.drop_left]
  | otherwise => simp only [note, hd, hopened, hentered, hcalls, List.drop_left]

theorem note_unopened {condition : List Char} {error : Error}
    (hd : Directive.ofCode (Text.dropEnd Text.isBlank line) = .marker (.ifHolds condition)) :
    h.note line p (q, some error) = h := by
  simp only [note, hd, Option.isNone_some, Bool.false_eq_true, if_false]

/-- A marker that is misplaced changes no history. -/
theorem note_misplaced {error : Error} (hopen : History.AreOpen h.opened p.blocks)
    (hd : Directive.ofCode (Text.dropEnd Text.isBlank line) = .marker m)
    (hm : m.move p.blocks = .misplaced) (hcalls : q.calls = p.calls) :
    h.note line p (q, some error) = h := by
  cases hp : p.blocks with
  | nil =>
    have hopened : h.opened = [] := List.eq_nil_of_length_eq_zero (by rw [hopen.length_eq, hp]; rfl)
    cases m with
    | ifHolds condition => exact note_unopened hd
    | _ => simp only [note, hd, hopened]
  | cons innermost around =>
    rw [hp] at hopen hm
    obtain ⟨block, outer, hblock, -⟩ := hopen.exists_cons
    have hclose : m ≠ .close := by
      rintro rfl
      cases hm
    have hif : ∀ condition, m ≠ .ifHolds condition := by
      rintro condition rfl
      cases hm
    rw [note_lead [] [] hd hclose hif hblock rfl (by simp [hcalls])]
    simp only [List.append_nil, ← hblock]

/-- What is added to the conditions of the innermost block is added to all of them. -/
theorem calls_lead {calls total : List String} {branches : List Branch}
    (hperm : ((block :: outer ++ h.closed).flatMap (·.calls)).Perm total) :
    (((⟨block.around, branches, block.calls ++ calls⟩ :: outer : List History) ++
      h.closed).flatMap (·.calls)).Perm (total ++ calls) := by
  simp only [List.cons_append, List.flatMap_cons, List.append_assoc] at hperm ⊢
  refine (List.Perm.append_left block.calls List.perm_append_comm).trans ?_
  rw [← List.append_assoc]
  exact hperm.append_right calls

namespace Keeps

/-- A marker that leads the innermost block on adds to its history. -/
theorem lead {branch : Branch} {calls : List String} (hk : h.Keeps e p)
    (hd : Directive.ofCode (Text.dropEnd Text.isBlank line) = .marker m) (hclose : m ≠ .close)
    (hif : ∀ condition, m ≠ .ifHolds condition) (hblock : h.opened = block :: outer)
    (hfollows : History.Follows e
      ⟨block.around, block.branches ++ [branch], block.calls ++ calls⟩)
    (hblocks : q.blocks = branch :: p.blocks.tail) (hcalls : q.calls = p.calls ++ calls) :
    (h.note line p (q, none)).Keeps e q := by
  obtain ⟨hopen, hall, hperm⟩ := hk
  rw [hblock] at hopen hall hperm
  have haround : p.blocks.tail = block.around ∧ History.AreOpen outer block.around := by
    generalize p.blocks = blocks at hopen
    cases hopen with
    | cons _ houter => exact ⟨rfl, houter⟩
  rw [note_lead [branch] calls hd hclose hif hblock (by rw [hblocks]; rfl) hcalls]
  refine ⟨?_, List.forall_mem_cons.2 ⟨hfollows, (List.forall_mem_cons.1 hall).2⟩, ?_⟩
  · rw [hblocks, haround.1]
    exact .cons List.getLast?_concat haround.2
  · rw [hcalls]
    exact calls_lead hperm

/-- A marker without a condition leads the innermost block on, or closes it. -/
theorem go {blocks : List Branch} (hk : h.Keeps e p)
    (hd : Directive.ofCode (Text.dropEnd Text.isBlank line) = .marker m)
    (hm : m.move p.blocks = .go blocks) (hblocks : q.blocks = blocks)
    (hcalls : q.calls = p.calls) : (h.note line p (q, none)).Keeps e q := by
  have hopen := hk.areOpen
  cases hp : p.blocks with
  | nil => rw [hp] at hm; cases m <;> cases hm
  | cons innermost around =>
    rw [hp] at hm hopen
    obtain ⟨block, outer, hblock, -, hlast, houter⟩ := hopen.exists_cons
    obtain ⟨-, hall, hperm⟩ := hk
    have hfollows := hall block (by rw [hblock]; simp)
    by_cases hclose : m = .close
    · subst hclose
      cases hm
      rw [note_close hd hblock]
      rw [hblock] at hall hperm
      have hmoved : (outer ++ (h.closed ++ [block])).Perm (block :: outer ++ h.closed) := by
        rw [← List.append_assoc]
        exact List.perm_append_singleton block (outer ++ h.closed)
      refine ⟨hblocks ▸ houter, fun other hother => hall other (hmoved.mem_iff.1 hother), ?_⟩
      rw [hcalls]
      exact (hmoved.flatMap_right _).trans hperm
    · obtain ⟨branch, rfl, hbranch⟩ := Marker.go_cases hm hclose
      have hif : ∀ condition, m ≠ .ifHolds condition := by
        rintro condition rfl
        cases hm
      obtain ⟨answers, hcourse, hanswers⟩ := hfollows
      have hnext : Course (block.branches ++ [branch]) answers := by
        rcases hbranch with ⟨rfl, hdone⟩ | ⟨rfl, hskipped⟩
        · exact hcourse.handle hlast hdone
        · exact (hcourse.ask hlast hskipped).2.2
      have hmore : History.Follows e
          ⟨block.around, block.branches ++ [branch], block.calls ++ []⟩ :=
        ⟨answers, hnext, by simpa using hanswers⟩
      exact lead ⟨hp ▸ hopen, hall, hperm⟩ hd hclose hif hblock hmore (by rw [hblocks, hp]; rfl)
        (by rw [hcalls, List.append_nil])

/-- A condition that is decided opens a block, or leads on one of which no branch was taken. -/
theorem ask {opening : String} {argument : List Char} {ifSo ifNot : List Branch} {b : Bool}
    (hk : h.Keeps e p) (hd : Directive.ofCode (Text.dropEnd Text.isBlank line) = .marker m)
    (hm : m.move p.blocks = .ask opening argument ifSo ifNot) {call : String}
    (hj : e.judge call = .ok b) (hblocks : q.blocks = if b then ifSo else ifNot)
    (hcalls : q.calls = p.calls ++ [call]) : (h.note line p (q, none)).Keeps e q := by
  rcases Marker.ask_cases hm with ⟨condition, rfl, rfl, rfl⟩ |
    ⟨condition, innermost, around, rfl, hp, rfl, rfl, hskipped⟩
  · have hopened : q.blocks = (if b then .ifTaken else .ifSkipped) :: p.blocks := by
      rw [hblocks]
      cases b <;> rfl
    have hcourse : Course [if b then .ifTaken else .ifSkipped] [b] := by
      cases b with
      | true => exact .taking 0 0
      | false => exact .skipping 0
    rw [note_open hd hopened hcalls]
    refine ⟨hopened ▸ .cons rfl hk.areOpen, ?_, ?_⟩
    · exact List.forall_mem_cons.2 ⟨⟨[b], hcourse, by simp [hj]⟩, hk.follows⟩
    · rw [hcalls]
      simp only [List.cons_append, List.nil_append, List.flatMap_cons]
      exact (List.perm_append_singleton _ _).symm.trans (hk.calls.append_right _)
  · have hopen := hk.areOpen
    rw [hp] at hopen
    obtain ⟨block, outer, hblock, -, hlast, -⟩ := hopen.exists_cons
    obtain ⟨answers, hcourse, hanswers⟩ := hk.follows block (by rw [hblock]; simp)
    have hnext := (hcourse.ask hlast hskipped).2.1 b
    refine lead hk hd (by simp) (by simp) hblock
      ⟨answers ++ [b], hnext, by simp [hanswers, hj]⟩ ?_ hcalls
    rw [hblocks, hp]
    cases b <;> rfl

theorem step (hk : h.Keeps e p) (hs : p.step e line = (q, none)) :
    (h.note line p (q, none)).Keeps e q := by
  have hstep := Progress.stepsTo_step e p line
  rw [hs] at hstep
  cases hstep with
  | shown hd =>
    have hmarker (m : Marker) : Directive.ofCode (Text.dropEnd Text.isBlank line) ≠ .marker m := by
      intro hm
      rw [hm] at hd
      cases hd
    rw [note_of_not_marker hmarker]
    exact ⟨hk.areOpen, hk.follows, hk.calls⟩
  | set hd ha =>
    rw [note_of_not_marker (by simp [hd])]
    exact ⟨hk.areOpen, hk.follows, hk.calls⟩
  | go hd hm => exact hk.go hd hm rfl rfl
  | ask hd hm hj => exact hk.ask hd hm hj rfl rfl

end Keeps

end Histories

/-! ## Runs -/

/-- What the histories of a run say at any time, whether or not a line has failed. -/
structure Histories.Lawful (e : Engine) (result : Progress × Option Error) (h : Histories) :
    Prop where
  /-- There is one history of an open block for each block that is open. -/
  length : h.opened.length = result.1.blocks.length
  /-- An open block is in the branch that it came to last, and the blocks around it are those that
  it was opened in. -/
  around : ∀ inner block outer, h.opened = inner ++ block :: outer →
    ∃ branch, block.branches.getLast? = some branch ∧
      result.1.blocks.drop inner.length = branch :: block.around
  oneTaken : ∀ block ∈ h.opened ++ h.closed, OneTaken block.branches
  /-- Of the answers to the conditions of a block all but the last are negative. The last is
  positive, or missing because the run fails for it, or like the others. -/
  answers : ∀ block ∈ h.opened ++ h.closed, ∃ n last,
    block.calls.map e.judge = List.replicate n (.ok false) ++ last ∧
      (last = [] ∨ last = [.ok true] ∨ result.2.isSome ∧ ∃ fault, last = [.error fault])
  /-- No other conditions were evaluated, but for that of an if-marker for which the run fails. -/
  calls : ∃ unopened, ((h.opened ++ h.closed).flatMap (·.calls) ++ unopened).Perm result.1.calls ∧
    (unopened = [] ∨
      result.2.isSome ∧ ∃ call fault, unopened = [call] ∧ e.judge call = .error fault)

theorem History.Follows.answers {block : History} (hfollows : block.Follows e) :
    ∃ n last, block.calls.map e.judge = List.replicate n (.ok false) ++ last ∧
      (last = [] ∨ last = [.ok true]) := by
  obtain ⟨answers, hcourse, hanswers⟩ := hfollows
  obtain ⟨n, rfl | rfl⟩ := hcourse.answers_eq
  · exact ⟨n, [], by simp [hanswers], .inl rfl⟩
  · exact ⟨n, [.ok true], by simp [hanswers], .inr rfl⟩

namespace Histories.Keeps

/-- The histories are lawful where a line that fails has added nothing to them. -/
theorem lawful {result : Progress × Option Error} {unopened : List String} (hk : h.Keeps e p)
    (hblocks : result.1.blocks = p.blocks) (hcalls : result.1.calls = p.calls ++ unopened)
    (hunopened : unopened = [] ∨
      result.2.isSome ∧ ∃ call fault, unopened = [call] ∧ e.judge call = .error fault) :
    h.Lawful e result where
  length := by rw [hk.areOpen.length_eq, hblocks]
  around inner block outer hsplit := hblocks ▸ hk.areOpen.drop_eq hsplit
  oneTaken block hblock := by
    obtain ⟨answers, hcourse, -⟩ := hk.follows block hblock
    exact hcourse.oneTaken
  answers block hblock := by
    obtain ⟨n, last, hanswers, hlast⟩ := (hk.follows block hblock).answers
    exact ⟨n, last, hanswers, hlast.imp_right .inl⟩
  calls := ⟨unopened, hcalls ▸ hk.calls.append_right _, hunopened⟩

/-- Where the innermost block has no branch taken, a condition of it may fail to be decided. -/
theorem lawful_of_undecided {error : Error} {n : Nat} {call : String} {fault : ConditionFault}
    (hk : h.Keeps e p) (hblock : h.opened = block :: outer)
    (hanswers : block.calls.map e.judge = List.replicate n (.ok false))
    (hj : e.judge call = .error fault) (hblocks : q.blocks = p.blocks)
    (hcalls : q.calls = p.calls ++ [call]) :
    Lawful e (q, some error)
      ⟨⟨block.around, block.branches, block.calls ++ [call]⟩ :: outer, h.closed⟩ := by
  have hlawful : h.Lawful e (p, none) := hk.lawful rfl (List.append_nil _).symm (.inl rfl)
  obtain ⟨hopen, -, hperm⟩ := hk
  rw [hblock] at hopen hperm
  have hopen' : History.AreOpen
      (⟨block.around, block.branches, block.calls ++ [call]⟩ :: outer) q.blocks := by
    rw [hblocks]
    generalize p.blocks = blocks at hopen
    cases hopen with
    | cons hlast houter => exact .cons hlast houter
  refine ⟨hopen'.length_eq, fun _ _ _ hsplit => hopen'.drop_eq hsplit, ?_, ?_, ?_⟩
  · have hall := hlawful.oneTaken
    rw [hblock] at hall
    exact List.forall_mem_cons.2 (List.forall_mem_cons.1 hall)
  · have hall := hlawful.answers
    rw [hblock] at hall
    refine List.forall_mem_cons.2 ⟨?_, fun other hother => ?_⟩
    · exact ⟨n, [.error fault], by simp [hanswers, hj], .inr (.inr ⟨rfl, fault, rfl⟩)⟩
    · obtain ⟨k, last, heq, hlast⟩ := (List.forall_mem_cons.1 hall).2 other hother
      exact ⟨k, last, heq, hlast.imp_right (.imp_right fun h => absurd h.1 (by simp))⟩
  · exact ⟨[], by rw [List.append_nil, hcalls]; exact calls_lead hperm, .inl rfl⟩

/-- A line that fails leaves the blocks as they are, and adds to a history no more than the
condition that it fails for. -/
theorem fail {error : Error} (hk : h.Keeps e p) (hs : p.step e line = (q, some error)) :
    (h.note line p (q, some error)).Lawful e (q, some error) := by
  have hstep := Progress.stepsTo_step e p line
  rw [hs] at hstep
  cases hstep with
  | malformed hd ha =>
    rw [note_of_not_marker (by simp [hd])]
    exact hk.lawful rfl (List.append_nil _).symm (.inl rfl)
  | misplaced hd hm =>
    rw [note_misplaced hk.areOpen hd hm]
    · exact hk.lawful rfl (List.append_nil _).symm (.inl rfl)
    · rfl
  | undecided hd hm hj =>
    rcases Marker.ask_cases hm with ⟨condition, rfl, -⟩ |
      ⟨condition, innermost, around, rfl, hp, -, -, hskipped⟩
    · rw [note_unopened hd]
      exact hk.lawful rfl rfl (.inr ⟨rfl, _, _, rfl, hj⟩)
    · have hopen := hk.areOpen
      rw [hp] at hopen
      obtain ⟨block, outer, hblock, -, hlast, -⟩ := hopen.exists_cons
      obtain ⟨answers, hcourse, hanswers⟩ := hk.follows block (by rw [hblock]; simp)
      -- The block is in a skipped branch, so all its conditions so far failed to hold.
      obtain ⟨n, rfl⟩ := (hcourse.ask hlast hskipped).1
      rw [note_lead [] _ hd (by simp) (by simp) hblock rfl rfl, List.append_nil]
      exact hk.lawful_of_undecided hblock (by simpa using hanswers) hj rfl rfl

/-- The histories of a run are lawful if they are kept up to its first line. -/
theorem run (hk : h.Keeps e p) (lines : List (List Char)) :
    (p.histories e h lines).Lawful e (p.run e lines) := by
  induction lines generalizing p h with
  | nil => exact hk.lawful rfl (List.append_nil _).symm (.inl rfl)
  | cons line rest ih =>
    rw [Progress.histories]
    cases hs : p.step e line with
    | mk q error? =>
      cases error? with
      | none =>
        rw [Progress.run_cons_of_step hs]
        exact ih (hk.step hs)
      | some error =>
        rw [Progress.run_cons_of_fail hs]
        exact hk.fail hs

end Histories.Keeps

end Stencil.Template

namespace Stencil.Engine

open Template

/-- At most one branch of each block is taken. At any line of any source, and where processing
ends, each block that was opened has been in branches of which none was taken, then in one that was
taken at most, and from there on only in branches that are passed over. Its conditions have all
failed to hold but perhaps the last, and around an open block is what was there when it was
opened. -/
theorem lawful_histories (e : Engine) (vars : Variables) (source : String) :
    let start : Progress :=
      ({ vars } : Progress).record (.processing source.utf8ByteSize vars.size)
    let lines := lines (e.dialect.newline?.map (·.toList)) source.toList
    (∀ n, (start.histories e {} (lines.take n)).Lawful e (start.run e (lines.take n))) ∧
      (start.histories e {} lines).Lawful e (e.process vars source) := by
  intro start lines
  have hk : Histories.Keeps e start {} :=
    ⟨.nil, fun block hblock => absurd hblock List.not_mem_nil, .nil⟩
  exact ⟨fun n => hk.run (lines.take n), hk.run lines⟩

/-- The if-branch was taken, so the condition `b` of the else-if-branch is never asked for, and
every other branch of the outer block is passed over. The inner one is still open. -/
example :
    let e : Engine := { evaluator := fun text => .ok (.bool (text == "a")) }
    let lines := ["#if (a)", "#elseif (b)", "#if (c)", "#else", "#end", "#else", "#if (a)"]
    ({} : Progress).histories e {} (lines.map (·.toList)) =
      { opened := [⟨[.handled], [.ifTaken], ["a"]⟩, ⟨[], [.ifTaken, .handled, .handled], ["a"]⟩]
        closed := [⟨[.handled], [.ifSkipped, .elseTaken], ["c"]⟩] } := by
  decide +kernel

end Stencil.Engine
