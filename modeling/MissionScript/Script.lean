import MissionScript.Statement.Reader
import MissionScript.Tree

/-!
# MissionScript.Script

Reads a whole script. Each line becomes one node of the tree, numbered like the line; a block owns
the lines up to its end, and a `skip if` owns the one command after it.

The blocks that are still open are a stack. A line that opens a block is pushed; `else if` and
`else` take the place of the branch they continue; `end` takes one off. A `skip if` waits aside for
its command while comments and blank lines pass by.
-/

namespace MissionScript

/-- A script of which some lines have been read. -/
structure Script where
  tree : Tree := {}
  /-- The problems with the lines read so far. -/
  diagnostics : List Diagnostic := []
  /-- The blocks that are open, the innermost first. -/
  blocks : List Nat := []
  /-- The `skip if` that waits for its command. -/
  waiting : Option Nat := none

namespace Script

/-- The node that owns the next line. -/
def owner (s : Script) : Nat := s.blocks.head?.getD Tree.root

/-- Records the label that a node declares or jumps to. -/
def recordSymbol (t : Tree) (id : Nat) : Tree :=
  let s := t.statement id
  match s.parameters.head? with
  | none => t
  | some p =>
    let symbol : Symbol :=
      { name := p.text, kind := .label, node := id, line := s.line, start := p.start,
        stop := p.stop, declaration := s.isLabel }
    if s.isLabel then { t with symbols := t.symbols.declare symbol }
    else if s.isLabelJump then { t with symbols := t.symbols.reference symbol }
    else t

/-- Adds a statement below a node and records its label. -/
def place (t : Tree) (parent : Nat) (s : Statement) : Tree :=
  recordSymbol (t.add parent s) t.size

/-- Can the statement be the one command that a `skip if` owns? -/
def isSkippable (s : Statement) : Bool :=
  !s.flow.opensBlock && s.flow != .blockEnd && s.flow != .skip

/-- Does an `else if` or `else` at this place continue a branch? -/
def continuesBranch (s : Script) : Bool :=
  s.blocks.head?.any fun top =>
    s.tree.flow top == .ifBlock || s.tree.flow top == .elseIfBlock

/-- Adds a statement to the innermost block, and opens or closes blocks as it says. -/
def insertInBlock (s : Script) (st : Statement) : Script :=
  let id := s.tree.size
  match st.flow with
  | .ifBlock | .whileLoop | .forLoop | .foreachLoop =>
    { s with tree := place s.tree s.owner st, blocks := id :: s.blocks }
  | .elseIfBlock | .elseBlock =>
    if s.continuesBranch then
      -- a branch is a sibling of the one before it
      let s := { s with blocks := s.blocks.tail }
      { s with tree := place s.tree s.owner st, blocks := id :: s.blocks }
    else { s with tree := place s.tree s.owner st }
  | .blockEnd =>
    -- an end stands beside the block it closes, and one that closes nothing stays where it is
    let s := { s with blocks := s.blocks.tail }
    { s with tree := place s.tree s.owner st }
  | .skip => { s with tree := place s.tree s.owner st, waiting := some id }
  | _ => { s with tree := place s.tree s.owner st }

/-- Adds a statement. The first one that is not auxiliary ends the wait of a `skip if`. -/
def insert (s : Script) (st : Statement) : Script :=
  match s.waiting with
  | none => s.insertInBlock st
  | some skip =>
    -- comments and blank lines do not count as the skipped command
    if st.isAuxiliary then s.insertInBlock st
    else
      let s := { s with waiting := none }
      if isSkippable st then { s with tree := place s.tree skip st } else s.insertInBlock st

/-- Reads the next line. -/
def readLine (lang : Language) (s : Script) (numbered : String × Nat) : Script :=
  let (st, problem) := lang.readLine numbered.2 numbered.1
  let s := s.insert st
  { s with diagnostics := s.diagnostics ++ problem.toList }

/-- Reads the lines of a script, which are numbered from one. -/
def readLines (lang : Language) (lines : List String) : Script :=
  (lines.zipIdx 1).foldl (readLine lang) {}

/-! ### Blocks without end -/

/-- The line that opens the construct to which a branch belongs. -/
def opener (t : Tree) (id : Nat) : Nat :=
  if t.flow id = .elseIfBlock ∨ t.flow id = .elseBlock then
    match t.previousSibling? id with
    | some previous => if previous < id then opener t previous else id
    | none => id
  else id
termination_by id

/-- The problem of a block that is never ended. -/
def missingEnd (t : Tree) (id : Nat) : Diagnostic :=
  let s := t.statement (opener t id)
  ⟨.missingEnd (Text.trim s.text), s.line, s.start, s.stop⟩

/-- Is a block still open? -/
def isUnterminated (s : Script) : Bool := !s.blocks.isEmpty

/-- All problems with the lines of a script, those of blocks without end after the others and
outermost first. -/
def problems (s : Script) : List Diagnostic :=
  s.diagnostics ++ s.blocks.reverse.map (missingEnd s.tree)

end Script

end MissionScript
