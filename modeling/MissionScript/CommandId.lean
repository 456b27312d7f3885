/-!
# MissionScript.CommandId

The numbers of the commands that the compiler itself relies on. Everything else it knows about a
command comes from the catalog.
-/

namespace MissionScript

namespace CommandId

/-- A blank line. -/
def blankLine : Nat := 0

/-- A comment. -/
def comment : Nat := 1

/-- A call of another script. -/
def callScript : Nat := 102

/-- The end of a run of the script. -/
def finish : Nat := 103

/-- An assignment or test of an expression. -/
def expression : Nat := 104

/-- The declaration of a label. -/
def defineLabel : Nat := 105

/-- A jump to a label. -/
def gotoLabel : Nat := 106

/-- A call of the subroutine at a label. -/
def gosub : Nat := 107

/-- The end of a subroutine. -/
def endsub : Nat := 108

/-- The last branch of an `if`. -/
def elseBranch : Nat := 109

/-- The end of a block. -/
def blockEnd : Nat := 110

/-- Leaves the innermost loop. -/
def breakLoop : Nat := 111

/-- Goes on with the innermost loop. -/
def continueLoop : Nat := 112

/-- A jump that no line of source stands for. -/
def hiddenJump : Nat := 113

/-- A counting loop. -/
def forLoop : Nat := 114

/-- A loop over an array. -/
def foreachLoop : Nat := 115

end CommandId

end MissionScript
