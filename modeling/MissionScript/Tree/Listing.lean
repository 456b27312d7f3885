import MissionScript.Text.Characters
import MissionScript.Tree

/-!
# MissionScript.Tree.Listing

The tree of a script as text, one node on a line: its line in the source, its position in the
compiled script, its text indented by its depth, the part it plays in the flow of control, and where
it jumps to. Numbers stand in columns of a fixed width.
-/

namespace MissionScript

/-! ### Columns

Text that is wider than its column is not cut. -/

namespace Text

/-- The text at the right edge of a column. -/
def alignRight (width : Nat) (s : String) : String :=
  String.ofList (List.replicate (width - s.length) ' ') ++ s

/-- The text at the left edge of a column. -/
def alignLeft (width : Nat) (s : String) : String :=
  s ++ String.ofList (List.replicate (width - s.length) ' ')

end Text

/-! ### Trees -/

namespace Tree

open Text

/-- Where a node jumps to: a position in the compiled script, or a line when there is none. -/
def targetText (t : Tree) (target : Nat) : String :=
  match (t.node target).index with
  | some index => s!" -> {index}"
  | none =>
    let line := (t.statement target).line
    s!" -> line {line}"

/-- The line of a node in the listing. -/
def nodeText (t : Tree) (id : Nat) : String :=
  let s := t.statement id
  let index := match (t.node id).index with
    | some index => alignRight 3 (toString index)
    | none => "  -"
  let text := if s.synthetic then "<" ++ s.text ++ ">" else trim s.text
  let flow := if s.flow = .plain then "" else " [" ++ s.flow.name ++ "]"
  let target := match (t.node id).target with
    | some target => t.targetText target
    | none => ""
  alignRight 4 (toString s.line) ++ " " ++ index ++ " " ++
    String.ofList (List.replicate (2 * t.depth id) ' ') ++ text ++ flow ++ target

/-- The listing of a tree. -/
def listing (t : Tree) : String :=
  String.join (t.preorder.map fun id => t.nodeText id ++ "\n")

end Tree

end MissionScript
