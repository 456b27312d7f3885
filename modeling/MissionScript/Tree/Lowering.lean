import MissionScript.Catalog
import MissionScript.Code
import MissionScript.Tree.Numbering

/-!
# MissionScript.Tree.Lowering

Turns the tree of a script into a flat list of commands.

Structured control becomes jumps in four steps, each of which changes the tree:

1. a `return` is added at the end, so that there is a command after every block;
2. a hidden jump is added at the end of each branch that another branch follows, and at the end of
   each loop;
3. every node that transfers control gets the node it jumps to;
4. the executable nodes are numbered in the order of the tree, which shows where the jumps lead
   (`MissionScript.Tree.Numbering`).

Then the commands can be written down one after the other.
-/

namespace MissionScript

namespace Tree

/-! ### The final return -/

/-- Does the script end with a `return` outside of all blocks? -/
def endsWithReturn (t : Tree) : Bool :=
  (t.preorder.reverse.find? fun id => (t.statement id).isExecutable).any fun id =>
    t.flow id == .finish && (t.node id).parent == some root

/-- The line after the last one. -/
def lineAfter (t : Tree) : Nat := t.preorder.foldl (fun line id => max line (t.statement id).line) 0 + 1

/-- The first slot of a command that the compiler adds. -/
def firstSlot (d : Definition) (fault : DefinitionFault) : Except Failure Slot :=
  match d.slot? 0 with
  | some slot => .ok slot
  | none => .error (.invalidDefinition d.id fault)

/-- A command that the compiler adds. -/
def addedCommand (lang : Language) (id : Nat) : Except Failure Definition :=
  match lang.find? id with
  | some d => .ok d
  | none => .error (.missingCommand id lang.version)

/-- Adds a `return` at the end of a script that does not end with one. -/
def addReturn (lang : Language) (t : Tree) : Except Failure Tree :=
  if t.endsWithReturn then .ok t
  else do
    let d ← addedCommand lang CommandId.finish
    let slot ← firstSlot d .noReturnValue
    return t.add root (Statement.added d [Parameter.null slot] t.lineAfter)

/-! ### Hidden jumps -/

/-- The `end` of a construct, looked for among the siblings after one of its branches. -/
def endAmong (t : Tree) : List Nat → Option Nat
  | [] => none
  | id :: rest =>
    match t.flow id with
    | .blockEnd => some id
    | .elseIfBlock | .elseBlock => t.endAmong rest
    | _ => none

/-- The `end` of the construct that a node opens or continues. -/
def findEnd? (t : Tree) (id : Nat) : Option Nat :=
  t.endAmong ((t.siblings id).filter (id < ·))

/-- A hidden jump: the block at whose end it stands, the node it leads to, and its line. -/
structure HiddenJump where
  block : Nat
  target : Nat
  line : Nat
  deriving Repr

/-- The hidden jump at the end of a block. A branch that another branch follows jumps to the end of
the construct, a loop jumps back to itself. -/
def hiddenJump? (t : Tree) (id : Nat) : Option HiddenJump :=
  if (t.statement id).commented then none
  else match t.flow id with
    | .ifBlock | .elseIfBlock => do
      let next ← t.nextSibling? id
      if t.flow next = .elseIfBlock ∨ t.flow next = .elseBlock then
        return ⟨id, ← t.findEnd? id, (t.statement next).line⟩
      else none
    | .whileLoop | .forLoop | .foreachLoop =>
      let line := match t.findEnd? id with
        | some e => (t.statement e).line
        | none => (t.statement id).line
      some ⟨id, id, line⟩
    | _ => none

/-- The statement of a hidden jump. Its label is filled in when positions are known. -/
def jumpStatement (d : Definition) (slot : Slot) (line : Nat) : Statement :=
  Statement.added d [{ slot, dataType := .integer, value := .int 0 }] line

/-- Adds the hidden jumps of all blocks. -/
def addJumps (lang : Language) (t : Tree) : Except Failure Tree :=
  let jumps := t.preorder.filterMap t.hiddenJump?
  if jumps.isEmpty then .ok t
  else do
    let d ← addedCommand lang CommandId.hiddenJump
    let slot ← firstSlot d .noJumpLabel
    return jumps.foldl
      (fun t jump =>
        t.addNode jump.block
          { statement := jumpStatement d slot jump.line, target := some jump.target })
      t

/-! ### Targets -/

/-- Where a node transfers control to, when it is not the next command; the inner value is missing
when there is no such node. -/
def transfer? (t : Tree) (id : Nat) : Option (Option Nat) :=
  if (t.statement id).commented || (t.node id).target.isSome then none
  else match t.flow id with
    -- the next branch, or the end of the construct
    | .ifBlock | .elseIfBlock => some (t.nextSibling? id)
    -- what follows the whole block
    | .whileLoop | .forLoop | .foreachLoop | .skip => some (t.successor? id)
    | .breakLoop => some ((t.enclosingLoop? id).bind t.successor?)
    | .continueLoop => some (t.enclosingLoop? id)
    | .goto | .gosub => some (t.symbols.target? id)
    | _ => none

/-- Gives the nodes of a list their targets, up to the first that has none. -/
def setTargets (t : Tree) : List Nat → Tree × Option Failure
  | [] => (t, none)
  | id :: rest =>
    match t.transfer? id with
    | none => t.setTargets rest
    | some (some target) => (t.setTarget id target).setTargets rest
    | some none => (t, some (.unresolvedJump (t.statement id).line))

/-! ### Commands -/

/-- A parameter of a command. The label of a jump becomes the position it leads to, and a variable
becomes its position in the table. -/
def encodeParameter (jump : Option Nat) (vars : List String) (p : Parameter) :
    List String × CodeParameter :=
  match (if p.slot.type = .labelNumber then jump else none) with
  | some position => (vars, ⟨.integer, .int (Number.ofCount position)⟩)
  | none =>
    match p.varName? with
    | some name =>
      let (vars, position) := internVar vars name
      (vars, ⟨.var, .int (Number.ofCount position)⟩)
    | none => (vars, ⟨p.dataType, p.value⟩)

/-- The parameters of a command, from left to right. -/
def encodeParameters (jump : Option Nat) : List String → List Parameter →
    List String × List CodeParameter
  | vars, [] => (vars, [])
  | vars, p :: ps =>
    let (vars, q) := encodeParameter jump vars p
    let (vars, qs) := encodeParameters jump vars ps
    (vars, q :: qs)

/-- The positions of the operands in an expression as evaluated. -/
def operandPositions (evaluated : List Parameter) : List Nat :=
  evaluated.zipIdx.filterMap fun (p, position) =>
    if p.dataType = .operator then none else some position

/-- An expression as written, when its operands stand at the given positions of the evaluated
order. -/
def interlace : List Nat → List Parameter → List Int
  | _, [] => []
  | positions, p :: ps =>
    match p.dataType, p.value with
    | .operator, .int code => code :: interlace positions ps
    -- an operand is told from an operator by its sign
    | _, _ => -(Number.ofCount (positions.head?.getD 0) + 1) :: interlace positions.tail ps

/-- The parameters and the written order of a statement that is executed. -/
def encodeStatement (jump : Option Nat) (vars : List String) (s : Statement)
    (kind : CommandKind) : List String × List CodeParameter × List Int :=
  match kind with
  | .expression =>
    -- the first parameter is the return value, the others are the expression as written
    let (vars, ps) := encodeParameters none vars (s.parameters.take 1 ++ s.evaluated)
    (vars, ps, interlace (operandPositions s.evaluated) s.parameters.tail)
  | _ =>
    let (vars, ps) := encodeParameters jump vars s.parameters
    (vars, ps, [])

/-- The auxiliary entry of a statement. A commented command is kept as a comment. -/
def encodeAuxiliary (reference : Nat) (s : Statement) (d : Definition) : Auxiliary :=
  let parameters := s.parameters.map fun p => ⟨p.dataType, p.value⟩
  if s.commented then
    { reference, line := s.line, id := CommandId.comment, kind := .commentedCommand,
      inner := some d.id, parameters }
  else { reference, line := s.line, id := d.id, kind := d.kind, parameters }

/-- Adds what a node stands for to the compiled script: a command that jumps to `jump`, an auxiliary
entry or nothing. -/
def addEntry (t : Tree) (code : Code) (id position : Nat) (jump : Option Nat) : Code :=
  let s := t.statement id
  match s.command with
  | none => code
  | some d =>
    if s.isExecutable then
      let (vars, parameters, written) := encodeStatement jump code.vars s d.kind
      { code with vars }.push
        { index := position, line := s.line, id := d.id, kind := d.kind, parameters, written, jump }
    else if s.isAuxiliary then code.pushAuxiliary (encodeAuxiliary position s d)
    else code

/-- Adds what a node stands for by the table of the positions that jumps lead to and that auxiliary
nodes have. -/
def emitEntry (t : Tree) (resolved : List (Nat × Nat)) (code : Code) (id : Nat) : Code :=
  let found := resolved.lookup id
  let position := if (t.statement id).isExecutable then (t.node id).index else found
  t.addEntry code id (position.getD code.commands.length) found

/-! ### All steps -/

/-- Numbers the commands and compiles a tree whose targets are set. -/
def assemble (t : Tree) : Tree × Except Failure Code :=
  match t.assignIndices with
  | (t, .error failure) => (t, .error failure)
  | (t, .ok resolved) => (t, .ok (t.preorder.foldl (t.emitEntry resolved) {}))

/-- Compiles a tree. The changes that the steps make to it stay even when a later one fails. -/
def lower (lang : Language) (t : Tree) : Tree × Except Failure Code :=
  match t.addReturn lang with
  | .error failure => (t, .error failure)
  | .ok t =>
    match t.addJumps lang with
    | .error failure => (t, .error failure)
    | .ok t =>
      match t.setTargets t.preorder with
      | (t, some failure) => (t, .error failure)
      | (t, none) => t.assemble

end Tree

end MissionScript
