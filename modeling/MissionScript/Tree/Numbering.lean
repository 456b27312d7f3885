import MissionScript.Diagnostic
import MissionScript.Tree

/-!
# MissionScript.Tree.Numbering

Numbers the executable nodes of a tree, and finds the commands that jumps lead to, in one walk.

A node that is not executable stands for the next one that is, so it waits until that one is reached.
When it is reached, it is placed together with all that waits. The jump of a node that has been reached
is resolved at once when its target has been placed. Otherwise the target lies ahead, and the jump is
pending until it is placed. What is pending in the end leads to no command.
-/

namespace MissionScript

namespace Tree

/-- A tree of which the nodes up to some place have been numbered. -/
structure Numbering where
  tree : Tree
  /-- The position of the next command. -/
  next : Nat := 0
  /-- The nodes that have been placed, with their positions. -/
  location : List (Nat × Nat) := []
  /-- The nodes whose jumps have been resolved, with the positions that they lead to. -/
  resolved : List (Nat × Nat) := []
  /-- The targets that lie ahead, with the nodes that jump there. -/
  pending : List (Nat × Nat) := []
  /-- The nodes that wait for the next command. -/
  waiting : List Nat := []

namespace Numbering

/-- Places a node at a position, and resolves the jumps that were pending for it. -/
def place (position : Nat) (n : Numbering) (id : Nat) : Numbering :=
  let (reached, pending) := n.pending.partition (·.1 == id)
  { n with
    location := (id, position) :: n.location
    resolved := reached.map (fun entry => (entry.2, position)) ++ n.resolved
    pending }

/-- Resolves the jump of a node, or leaves it pending. -/
def aim (n : Numbering) (id : Nat) : Numbering :=
  match (n.tree.node id).target with
  | none => n
  | some target =>
    match n.location.lookup target with
    | some position => { n with resolved := (id, position) :: n.resolved }
    | none => { n with pending := n.pending ++ [(target, id)] }

/-- Passes a node. One that is executable takes the next position, for itself and all that waits. -/
def visit (n : Numbering) (id : Nat) : Numbering :=
  let waiting := n.waiting ++ [id]
  if (n.tree.statement id).isExecutable then
    let placed := waiting.foldl (place n.next) n
    aim { placed with tree := n.tree.setIndex id n.next, next := n.next + 1, waiting := [] } id
  else { n with waiting }

/-- Where all nodes are that have been passed. What still waits stands after the last command. -/
def locations (n : Numbering) : List (Nat × Nat) :=
  n.waiting.foldl (fun found id => (id, n.next) :: found) n.location

/-- The lines of the jumps that are pending. -/
def pendingLines (n : Numbering) : List Nat :=
  n.pending.map fun entry => (n.tree.statement entry.2).line

/-- The table of what has been found out: the position that each jump leads to, and the position before
which each auxiliary node stands. -/
def table (n : Numbering) : List (Nat × Nat) :=
  n.locations.filter (fun entry => (n.tree.statement entry.1).isAuxiliary) ++ n.resolved

end Numbering

/-- The walk through a whole tree. -/
def numbering (t : Tree) : Numbering := t.preorder.foldl Numbering.visit { tree := t }

/-- Numbers the executable nodes, and finds out where the jumps lead and the auxiliary nodes stand. A jump
that leads to no command is reported by the first line that has one. -/
def assignIndices (t : Tree) : Tree × Except Failure (List (Nat × Nat)) :=
  let n := t.numbering
  match n.pendingLines.min? with
  | some line => (n.tree, .error (.unresolvedJump line))
  | none => (n.tree, .ok n.table)

end Tree

end MissionScript
