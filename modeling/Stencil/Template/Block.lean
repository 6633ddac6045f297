/-
Blocks of a template, each an if-marker up to its end-marker.

An open block is in one of six states, its `Branch`. The open blocks are a list, the innermost
first. Content is live if the innermost block is, whatever the blocks around it are. A marker moves
on the innermost block, and only where the move depends on it is the condition asked for.
-/
import Stencil.Template.Directive

namespace Stencil.Template

/-- Where in its chain of branches a block is. -/
inductive Branch where
  /-- After an if-marker whose condition held. -/
  | ifTaken
  /-- After an if-marker whose condition did not hold. -/
  | ifSkipped
  /-- After an else-if-marker, the first whose condition held. -/
  | elseIfTaken
  /-- After an else-if-marker, no condition having held so far. -/
  | elseIfSkipped
  /-- After an else-marker, no branch having been taken. -/
  | elseTaken
  /-- In a branch after the one that was taken. -/
  | handled
  deriving Repr, DecidableEq

/-- Whether content of the branch is shown. -/
def Branch.isLive : Branch → Bool
  | .ifTaken | .elseIfTaken | .elseTaken => true
  | .ifSkipped | .elseIfSkipped | .handled => false

/-- Whether content is shown where these blocks are open. -/
def isLive : List Branch → Bool
  | [] => true
  | innermost :: _ => innermost.isLive

/-- The branch that an else-marker leads to; none after an else-branch that was taken. -/
def Branch.afterElse? : Branch → Option Branch
  | .ifTaken | .elseIfTaken | .handled => some .handled
  | .ifSkipped | .elseIfSkipped => some .elseTaken
  | .elseTaken => none

/-- What a marker does to the open blocks. -/
inductive Move where
  /-- The condition decides. -/
  | ask (opening : String) (condition : List Char) (ifSo ifNot : List Branch)
  | go (blocks : List Branch)
  | misplaced
  deriving Repr, DecidableEq

def Marker.move (m : Marker) (blocks : List Branch) : Move :=
  match m, blocks with
  | .ifHolds condition, blocks =>
    .ask ifOpening condition (.ifTaken :: blocks) (.ifSkipped :: blocks)
  | .elseIf condition, innermost :: outer =>
    match innermost with
    | .ifTaken | .elseIfTaken | .handled => .go (.handled :: outer)
    | .ifSkipped | .elseIfSkipped =>
      .ask elseIfOpening condition (.elseIfTaken :: outer) (.elseIfSkipped :: outer)
    | .elseTaken => .misplaced
  | .otherwise, innermost :: outer =>
    match innermost.afterElse? with
    | some branch => .go (branch :: outer)
    | none => .misplaced
  | .close, _ :: outer => .go outer
  | _, [] => .misplaced

end Stencil.Template
