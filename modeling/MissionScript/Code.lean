import MissionScript.Definition
import MissionScript.Parameter

/-!
# MissionScript.Code

A compiled script: the commands in the order of their execution, the comments and blank lines
between them, and the names of the variables.
-/

namespace MissionScript

/-- A parameter of a compiled command. A variable is given by its position in the table. -/
structure CodeParameter where
  dataType : DataType
  value : Value
  deriving DecidableEq, Repr

/-- A command of a compiled script. -/
structure Command where
  /-- Its position. -/
  index : Nat
  /-- The line of the source it comes from. -/
  line : Nat
  /-- The number of the command in the catalog. -/
  id : Nat
  kind : CommandKind
  /-- The parameters in physical order. An expression holds its return value and then its operands
  and operators as evaluated. -/
  parameters : List CodeParameter
  /-- An expression as written: the number of an operator, or `-(n + 1)` for the `n`-th of the
  operands and operators as evaluated. -/
  written : List Int := []
  /-- The position that the command jumps to. -/
  jump : Option Nat := none
  deriving DecidableEq, Repr

/-- A comment, blank line or commented command. It stands before the command at `reference`. -/
structure Auxiliary where
  reference : Nat
  line : Nat
  id : Nat
  kind : CommandKind
  /-- The number of the command that is commented out. -/
  inner : Option Nat := none
  parameters : List CodeParameter
  deriving DecidableEq, Repr

/-- A compiled script. -/
structure Code where
  commands : List Command := []
  auxiliary : List Auxiliary := []
  vars : List String := []
  deriving DecidableEq, Repr

namespace Code

/-- Adds a command at the end. -/
def push (c : Code) (command : Command) : Code := { c with commands := c.commands ++ [command] }

/-- Adds an auxiliary entry at the end. -/
def pushAuxiliary (c : Code) (entry : Auxiliary) : Code :=
  { c with auxiliary := c.auxiliary ++ [entry] }

end Code

/-- The table with the variable `name` in it, and the position of the variable. A variable that is
not there yet is added at the end. -/
def internVar (vars : List String) (name : String) : List String × Nat :=
  match vars.idxOf? name with
  | some position => (vars, position)
  | none => (vars ++ [name], vars.length)

/-- Adds a variable to the table of a compiled script. -/
def Code.addVar (c : Code) (name : String) : Code × Nat :=
  let (vars, position) := internVar c.vars name
  ({ c with vars }, position)

end MissionScript
