import MissionScript.Script
import MissionScript.Tree.Check
import MissionScript.Tree.Lowering

/-!
# MissionScript.Compile

Compiles a script: reads its lines, checks the tree, and lowers it when there is no problem.
-/

namespace MissionScript

/-- What compiling a script gives. -/
structure Compiled where
  tree : Tree
  /-- The problems, by line and column. -/
  diagnostics : List Diagnostic
  /-- The compiled script; there is one exactly when there is no problem. -/
  code : Option Code

/-- Was the script compiled without a problem? -/
def Compiled.isSuccessful (c : Compiled) : Bool := c.diagnostics.isEmpty

namespace Language

/-- Compiles a script. Problems in its lines are reported together; a block without end keeps the
script from being checked at all. -/
def compile (lang : Language) (lines : List String) : Except Failure Compiled :=
  let script := Script.readLines lang lines
  if script.isUnterminated then
    .ok { tree := script.tree, diagnostics := script.problems, code := none }
  else
    let (tree, found) := script.tree.check
    let diagnostics := (script.problems ++ found).mergeSort Diagnostic.before
    if diagnostics.isEmpty then
      match tree.lower lang with
      | (tree, .ok code) => .ok { tree, diagnostics, code := some code }
      | (_, .error failure) => .error failure
    else .ok { tree, diagnostics, code := none }

end Language

end MissionScript
