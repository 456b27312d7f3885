/-!
# MissionScript.Conditional

The words that can stand in front of a command. Most of them make its result a test; `start` starts
the command as a task of its own.
-/

namespace MissionScript

/-- The conditional in front of a command. -/
inductive Conditional
  | unconditional
  | start
  | ifTrue
  | ifNot
  | elseIf
  | elseIfNot
  | whileTrue
  | whileNot
  | skipIf
  | skipIfNot
  deriving DecidableEq, Repr, Inhabited

namespace Conditional

/-- The number that the return value slot stores for a conditional. -/
def code : Conditional → Int
  | .unconditional => 0
  | .start => 1
  | .ifTrue => 2
  | .ifNot => 3
  | .elseIf => 4
  | .elseIfNot => 5
  | .whileTrue => 6
  | .whileNot => 7
  | .skipIf => 8
  | .skipIfNot => 9

/-- Does the conditional test the result of the command? -/
def isTest : Conditional → Bool
  | .unconditional | .start => false
  | _ => true

/-- The words of a conditional. -/
def words : Conditional → String
  | .unconditional => ""
  | .start => "start"
  | .ifTrue => "if"
  | .ifNot => "if not"
  | .elseIf => "else if"
  | .elseIfNot => "else if not"
  | .whileTrue => "while"
  | .whileNot => "while not"
  | .skipIf => "skip if"
  | .skipIfNot => "skip if not"

end Conditional

end MissionScript
