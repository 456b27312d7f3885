import MissionScript.Statement
import MissionScript.Symbol

/-!
# MissionScript.Tree

The statements of a script as a tree: a block owns the statements inside it.

Nodes are numbered in the order in which they are added, and each remembers its parent. Node 0 is
the root, which stands for the script as a whole and is no statement. The children of a node are the
later nodes that name it as their parent, so they are in the order in which they were added, and a
walk down the tree ends because numbers grow on the way.
-/

namespace MissionScript

/-- A statement in its place in the tree. -/
structure Node where
  /-- The node that owns this one; none for the root. -/
  parent : Option Nat := none
  statement : Statement := {}
  /-- The node that this one jumps to. -/
  target : Option Nat := none
  /-- The position of the command in the compiled script. -/
  index : Option Nat := none
  deriving Repr, Inhabited

/-- The statements of a script as a tree. -/
structure Tree where
  nodes : Array Node := #[{}]
  symbols : SymbolTable := {}
  deriving Repr

namespace Tree

/-- The tree without statements. -/
def empty : Tree := {}

/-- The number of the root. -/
def root : Nat := 0

/-- The number of nodes, the root included. -/
def size (t : Tree) : Nat := t.nodes.size

/-- The node of a number. -/
def node (t : Tree) (id : Nat) : Node := t.nodes.getD id {}

/-- The statement of a node. -/
def statement (t : Tree) (id : Nat) : Statement := (t.node id).statement

/-- The part that a node plays in the flow of control. -/
def flow (t : Tree) (id : Nat) : Flow := (t.statement id).flow

/-! ### Changes -/

/-- Adds a node as the last child of `parent`. Its number is the size of the tree before. -/
def addNode (t : Tree) (parent : Nat) (n : Node) : Tree :=
  { t with nodes := t.nodes.push { n with parent := some parent } }

/-- Adds a statement as the last child of `parent`. -/
def add (t : Tree) (parent : Nat) (s : Statement) : Tree := t.addNode parent { statement := s }

/-- Changes a node. -/
def modify (t : Tree) (id : Nat) (f : Node → Node) : Tree :=
  { t with nodes := t.nodes.modify id f }

/-- Lets a node jump to another one. -/
def setTarget (t : Tree) (id target : Nat) : Tree :=
  t.modify id fun n => { n with target := some target }

/-- Gives a node a position in the compiled script. -/
def setIndex (t : Tree) (id index : Nat) : Tree :=
  t.modify id fun n => { n with index := some index }

/-! ### Relatives -/

/-- The children of a node, in the order in which they were added. -/
def children (t : Tree) (id : Nat) : List Nat :=
  (List.range t.size).filter fun c => id < c && (t.node c).parent == some id

theorem mem_children {t : Tree} {id c : Nat} :
    c ∈ t.children id ↔ c < t.size ∧ id < c ∧ (t.node c).parent = some id := by
  simp [children]

/-- A node and everything below it, each node before its children. -/
def subtree (t : Tree) (id : Nat) : List Nat :=
  id :: (t.children id).attach.flatMap fun ⟨c, _⟩ => t.subtree c
termination_by t.size - id
decreasing_by
  have h := mem_children.1 ‹_›
  omega

/-- Every node below the root, each before its children. -/
def preorder (t : Tree) : List Nat := (t.children root).flatMap t.subtree

/-- The children of a node's parent, the node among them. -/
def siblings (t : Tree) (id : Nat) : List Nat :=
  match (t.node id).parent with
  | none => []
  | some parent => t.children parent

/-- The sibling just before a node. -/
def previousSibling? (t : Tree) (id : Nat) : Option Nat := ((t.siblings id).filter (· < id)).getLast?

/-- The sibling just after a node. -/
def nextSibling? (t : Tree) (id : Nat) : Option Nat := (t.siblings id).find? (id < ·)

/-- The first node after a node and everything below it. -/
def successor? (t : Tree) (id : Nat) : Option Nat :=
  match t.nextSibling? id with
  | some next => some next
  | none =>
    match (t.node id).parent with
    | some parent => if parent < id then t.successor? parent else none
    | none => none
termination_by id

/-- The nodes that own a node, the innermost first and the root left out. -/
def ancestors (t : Tree) (id : Nat) : List Nat :=
  match (t.node id).parent with
  | some parent => if parent < id ∧ parent ≠ root then parent :: t.ancestors parent else []
  | none => []
termination_by id

/-- The number of nodes that own a node, the root left out. -/
def depth (t : Tree) (id : Nat) : Nat := (t.ancestors id).length

/-- The innermost loop that a node is in. -/
def enclosingLoop? (t : Tree) (id : Nat) : Option Nat :=
  (t.ancestors id).find? fun a => (t.flow a).isLoop

/-- The innermost block that a node is in. -/
def enclosingBlock? (t : Tree) (id : Nat) : Option Nat :=
  (t.ancestors id).find? fun a => (t.flow a).opensBlock

/-! ### Symbols -/

/-- The places where a label stands, by line and column. -/
def findLabel (t : Tree) (name : String) : List Symbol :=
  ((t.symbols.labels ++ t.symbols.references).filter (·.name == name)).mergeSort Symbol.before

/-- The places where a statement uses a variable. The first parameter declares it when it is a
return value. -/
def varSymbols (t : Tree) (name : String) (id : Nat) : List Symbol :=
  let s := t.statement id
  s.parameters.zipIdx.filterMap fun (p, position) =>
    if p.varName? = some name then
      some { name, kind := .var, node := id, line := s.line, start := p.start, stop := p.stop,
             declaration := position == 0 && p.slot.type.isReturnValue }
    else none

/-- A name without the dollar sign of a variable. -/
def bareName (name : String) : String :=
  match name.toList with
  | '$' :: rest => String.ofList rest
  | _ => name

/-- The places where a variable stands, in the order of the script. The name may be given with or
without its dollar sign. -/
def findVar (t : Tree) (name : String) : List Symbol :=
  t.preorder.flatMap (t.varSymbols (bareName name))

/-- The places where a name stands. -/
def findSymbols (t : Tree) (name : String) : SymbolKind → List Symbol
  | .label => t.findLabel name
  | .var => t.findVar name

/-! ### How changes show -/

@[simp] theorem size_empty : empty.size = 1 := rfl

@[simp] theorem size_addNode (t : Tree) (parent : Nat) (n : Node) :
    (t.addNode parent n).size = t.size + 1 := by
  simp [addNode, size]

@[simp] theorem size_add (t : Tree) (parent : Nat) (s : Statement) :
    (t.add parent s).size = t.size + 1 := by
  simp [add]

@[simp] theorem size_modify (t : Tree) (id : Nat) (f : Node → Node) :
    (t.modify id f).size = t.size := by
  simp [modify, size]

end Tree

end MissionScript
