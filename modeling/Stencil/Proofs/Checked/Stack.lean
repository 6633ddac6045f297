/-
The stack of states, with a root that is never to be taken off.

Every line asks for the innermost state and every marker moves the stack, and both go wrong where
the stack is not as it should be. It always is: the branches of the open blocks, with the root below
them (`stackOf`). On such a stack a marker has the transition that `Marker.move` says, which can be
applied (`transition_go`, `transition_ask`) unless the marker is misplaced.
-/
import Stencil.Proofs.Checked.Hazard
import Stencil.Proofs.Checked.Line
import Stencil.Template.Block

namespace Stencil.Checked

open Template

/-- A state on the stack: the root, one of two that are set aside for other kinds of blocks, or the
branch that a block is in. -/
inductive State where
  | root
  | plain
  | loop
  | branch (b : Branch)
  deriving DecidableEq

def State.isLive : State → Bool
  | .root | .plain | .loop => true
  | .branch b => b.isLive

/-- What a marker does to the stack. -/
inductive Transition where
  | push (s : State)
  | replace (s : State)
  | pop
  | unexpected
  deriving DecidableEq

/-- The innermost state; the stack has it in front. -/
def top : List State → Checked State
  | [] => throw .noState
  | s :: _ => return s

/-- The number of open blocks, the root not being one. -/
def depth (stack : List State) : Checked Nat := minus stack.length 1

def Transition.apply (t : Transition) (stack : List State) : Checked (List State) := do
  match t with
  | .push s => return s :: stack
  | .replace s =>
    match stack with
    | [] => return []
    | _ :: outer => return s :: outer
  | .pop => if 0 < (← depth stack) then return stack.tail else throw .rootPopped
  | .unexpected => throw .notAllowed

/-- What a marker does where `top` is the innermost state. The condition is evaluated only if that
depends on it. -/
def transition {m : Type → Type} [Monad m] (top : State) (marker : Marker) (holds : m Bool) :
    m Transition := do
  match marker, top with
  | .ifHolds _, _ => return .push (.branch (if ← holds then .ifTaken else .ifSkipped))
  | .elseIf _, .branch .ifTaken | .elseIf _, .branch .elseIfTaken
  | .elseIf _, .branch .handled => return .replace (.branch .handled)
  | .elseIf _, .branch .ifSkipped | .elseIf _, .branch .elseIfSkipped =>
    return .replace (.branch (if ← holds then .elseIfTaken else .elseIfSkipped))
  | .elseIf _, .root | .elseIf _, .plain | .elseIf _, .loop | .elseIf _, .branch .elseTaken =>
    return .unexpected
  | .otherwise, .branch .ifTaken | .otherwise, .branch .elseIfTaken
  | .otherwise, .branch .handled => return .replace (.branch .handled)
  | .otherwise, .branch .ifSkipped | .otherwise, .branch .elseIfSkipped =>
    return .replace (.branch .elseTaken)
  | .otherwise, .root | .otherwise, .plain | .otherwise, .loop | .otherwise, .branch .elseTaken =>
    return .unexpected
  | .close, .root => return .unexpected
  | .close, .plain | .close, .loop | .close, .branch _ => return .pop

/-- The stack where these blocks are open. -/
def stackOf (blocks : List Branch) : List State := blocks.map .branch ++ [.root]

/-- The innermost state where these blocks are open. -/
def topOf : List Branch → State
  | [] => .root
  | innermost :: _ => .branch innermost

@[simp] theorem top_stackOf (blocks : List Branch) : top (stackOf blocks) = pure (topOf blocks) := by
  cases blocks <;> rfl

@[simp] theorem depth_stackOf (blocks : List Branch) :
    depth (stackOf blocks) = pure blocks.length := by
  rw [depth, stackOf, List.length_append, List.length_map]
  exact add_minus_cancel _ 1

theorem isLive_topOf (blocks : List Branch) : (topOf blocks).isLive = isLive blocks := by
  cases blocks <;> rfl

section Transition

variable {m : Type → Type} [Monad m] {marker : Marker} {blocks : List Branch}

/-- A marker that goes on without a condition has a transition that can be applied. -/
theorem transition_go {next : List Branch} (h : marker.move blocks = .go next) (holds : m Bool) :
    ∃ t, transition (topOf blocks) marker holds = pure t ∧ t ≠ .unexpected ∧
      t.apply (stackOf blocks) = pure (stackOf next) := by
  cases blocks with
  | nil => cases marker <;> cases h
  | cons innermost outer =>
    cases marker with
    | ifHolds condition => cases h
    | elseIf condition =>
      cases innermost <;> cases h <;>
        exact ⟨.replace (.branch .handled), rfl, by simp, rfl⟩
    | otherwise => cases innermost <;> cases h <;> exact ⟨.replace _, rfl, by simp, rfl⟩
    | close =>
      cases h
      refine ⟨.pop, rfl, by simp, ?_⟩
      simp only [Transition.apply, depth_stackOf, pure_bind, List.length_cons, Nat.zero_lt_succ,
        if_true]
      rfl

theorem transition_misplaced (h : marker.move blocks = .misplaced) (holds : m Bool) :
    transition (topOf blocks) marker holds = pure .unexpected := by
  cases blocks with
  | nil => cases marker <;> cases h <;> rfl
  | cons innermost outer =>
    cases marker with
    | ifHolds condition => cases h
    | close => cases h
    | _ =>
      cases innermost <;> cases h
      rfl

/-- A marker with a condition has a transition that can be applied for either answer. -/
theorem transition_ask {opening : String} {argument : List Char}
    {ifSo ifNot : List Branch} (h : marker.move blocks = .ask opening argument ifSo ifNot) :
    ∃ t : Bool → Transition,
      (∀ holds : m Bool,
        transition (topOf blocks) marker holds = holds >>= fun b => pure (t b)) ∧
      ∀ b, t b ≠ .unexpected ∧
        (t b).apply (stackOf blocks) = pure (stackOf (if b then ifSo else ifNot)) := by
  cases marker with
  | ifHolds condition =>
    cases h
    refine ⟨fun b => .push (.branch (if b then .ifTaken else .ifSkipped)), fun holds => ?_,
      fun b => ⟨by simp, ?_⟩⟩
    · rfl
    · cases b <;> rfl
  | elseIf condition =>
    cases blocks with
    | nil => cases h
    | cons innermost outer =>
      refine ⟨fun b => .replace (.branch (if b then .elseIfTaken else .elseIfSkipped)),
        fun holds => ?_, fun b => ⟨by simp, ?_⟩⟩
      · cases innermost <;> cases h <;> rfl
      · cases innermost <;> cases h <;> cases b <;> rfl
  | otherwise =>
    cases blocks with
    | nil => cases h
    | cons innermost outer => cases innermost <;> cases h
  | close => cases blocks <;> cases h

end Transition

end Stencil.Checked
