import MissionScript.CommandId
import MissionScript.Conditional

/-!
# MissionScript.Flow

The part that a command plays in the flow of control. It follows from the conditional in front of
the command and from the command's number alone.
-/

namespace MissionScript

/-- The part that a command plays in the flow of control. -/
inductive Flow
  | plain
  | ifBlock
  | elseIfBlock
  | elseBlock
  | blockEnd
  | whileLoop
  | forLoop
  | foreachLoop
  | skip
  | breakLoop
  | continueLoop
  | goto
  | gosub
  | finish
  deriving DecidableEq, Repr, Inhabited

namespace Flow

/-- The part of a command, from its conditional and its number. A test decides alone. -/
def ofCommand (id : Option Nat) (condition : Conditional) : Flow :=
  match condition with
  | .ifTrue | .ifNot => .ifBlock
  | .elseIf | .elseIfNot => .elseIfBlock
  | .whileTrue | .whileNot => .whileLoop
  | .skipIf | .skipIfNot => .skip
  | .unconditional | .start =>
    if id = some CommandId.elseBranch then .elseBlock
    else if id = some CommandId.blockEnd then .blockEnd
    else if id = some CommandId.forLoop then .forLoop
    else if id = some CommandId.foreachLoop then .foreachLoop
    else if id = some CommandId.breakLoop then .breakLoop
    else if id = some CommandId.continueLoop then .continueLoop
    else if id = some CommandId.gotoLabel then .goto
    else if id = some CommandId.gosub then .gosub
    else if id = some CommandId.finish then .finish
    else .plain

/-- Does the command run its block again and again? -/
def isLoop : Flow → Bool
  | .whileLoop | .forLoop | .foreachLoop => true
  | _ => false

/-- Does the command own the lines up to the one that ends it? -/
def opensBlock : Flow → Bool
  | .ifBlock | .elseIfBlock | .elseBlock | .whileLoop | .forLoop | .foreachLoop => true
  | _ => false

/-- The name that a listing of the tree shows. -/
def name : Flow → String
  | .plain => "None"
  | .ifBlock => "If"
  | .elseIfBlock => "ElseIf"
  | .elseBlock => "Else"
  | .blockEnd => "End"
  | .whileLoop => "While"
  | .forLoop => "For"
  | .foreachLoop => "Foreach"
  | .skip => "Skip"
  | .breakLoop => "Break"
  | .continueLoop => "Continue"
  | .goto => "Goto"
  | .gosub => "Gosub"
  | .finish => "Return"

/-- Every loop opens a block. -/
theorem opensBlock_of_isLoop {f : Flow} (h : f.isLoop = true) : f.opensBlock = true := by
  cases f <;> simp_all [isLoop, opensBlock]

end Flow

end MissionScript
