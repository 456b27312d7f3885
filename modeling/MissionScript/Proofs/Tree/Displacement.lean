import MissionScript.Proofs.Script.Labels
import MissionScript.Proofs.Tree.Order

/-!
# MissionScript.Proofs.Tree.Displacement

Trees that differ only in where their statements are written.

A parameter, a statement or a symbol is *bare* when it is not said where on its line it stands.
`Displaced t t'` says that the trees have the same structure and that their nodes have the same bare
statements. It is kept by whatever adds the same node to both trees or changes a jump in both
(`Displaced.addNode`, `Displaced.setTarget`), and by binding the labels (`Displaced.bindLabels`).
-/

namespace MissionScript

/-! ### Bare statements -/

/-- The parameter without its place on the line. -/
def Parameter.bare (p : Parameter) : Parameter := { p with start := 0, stop := 0 }

/-- What the statement says, without where it is written. -/
def Statement.bare (s : Statement) : Statement :=
  { s with
    parameters := s.parameters.map Parameter.bare
    evaluated := s.evaluated.map Parameter.bare
    start := 0
    stop := 0
    text := "" }

/-- The symbol without its place on the line. -/
def Symbol.bare (s : Symbol) : Symbol := { s with start := 0, stop := 0 }

namespace SymbolTable

/-- The table without the places of its symbols on their lines. -/
def bare (table : SymbolTable) : SymbolTable :=
  { table with
    labels := table.labels.map Symbol.bare
    references := table.references.map Symbol.bare }

theorem declaration?_bare (table : SymbolTable) (name : String) :
    table.bare.declaration? name = (table.declaration? name).map Symbol.bare := by
  rw [declaration?, bare, List.find?_map]
  rfl

end SymbolTable

namespace Tree

/-- Binding the labels does not ask where they stand. -/
theorem bare_bindLabels (table : SymbolTable) :
    (bindLabels table).bare = bindLabels table.bare := by
  have hfoldl : ∀ (refs : List Symbol) (bound : SymbolTable),
      (refs.foldl (bindLabel table) bound).bare
        = (refs.map Symbol.bare).foldl (bindLabel table.bare) bound.bare := by
    intro refs
    induction refs with
    | nil => exact fun _ => rfl
    | cons r refs ih =>
        intro bound
        have hstep : (bindLabel table bound r).bare
            = bindLabel table.bare bound.bare r.bare := by
          rw [bindLabel, bindLabel, show r.bare.name = r.name from rfl,
            SymbolTable.declaration?_bare]
          cases table.declaration? r.name <;> rfl
        rw [List.map_cons, List.foldl_cons, List.foldl_cons, ih, hstep]
  rw [bindLabels_eq, bindLabels_eq, hfoldl]
  rfl

/-! ### Trees -/

/-- The trees differ at most in where their statements are written. -/
structure Displaced (t t' : Tree) : Prop extends SameStructure t t' where
  bare_eq : ∀ id, (t'.statement id).bare = (t.statement id).bare
  target_eq : ∀ id, (t'.node id).target = (t.node id).target
  symbols_eq : t'.symbols.bare = t.symbols.bare
  flow_eq id := (congrArg Statement.flow (bare_eq id) :)

namespace Displaced

variable {t t' : Tree}

theorem line_eq (h : t.Displaced t') (id : Nat) : (t'.statement id).line = (t.statement id).line :=
  (congrArg Statement.line (h.bare_eq id) :)

theorem command_eq (h : t.Displaced t') (id : Nat) :
    (t'.statement id).command = (t.statement id).command :=
  (congrArg Statement.command (h.bare_eq id) :)

theorem commented_eq (h : t.Displaced t') (id : Nat) :
    (t'.statement id).commented = (t.statement id).commented :=
  (congrArg Statement.commented (h.bare_eq id) :)

theorem isExecutable_eq (h : t.Displaced t') (id : Nat) :
    (t'.statement id).isExecutable = (t.statement id).isExecutable :=
  (congrArg Statement.isExecutable (h.bare_eq id) :)

theorem isAuxiliary_eq (h : t.Displaced t') (id : Nat) :
    (t'.statement id).isAuxiliary = (t.statement id).isAuxiliary :=
  (congrArg Statement.isAuxiliary (h.bare_eq id) :)

theorem isLabel_eq (h : t.Displaced t') (id : Nat) :
    (t'.statement id).isLabel = (t.statement id).isLabel :=
  (congrArg Statement.isLabel (h.bare_eq id) :)

theorem isLabelJump_eq (h : t.Displaced t') (id : Nat) :
    (t'.statement id).isLabelJump = (t.statement id).isLabelJump :=
  (congrArg Statement.isLabelJump (h.bare_eq id) :)

theorem of_nodes (hsize : t'.size = t.size)
    (hnode : ∀ id, (t'.node id).parent = (t.node id).parent ∧
      (t'.node id).statement.bare = (t.node id).statement.bare ∧
      (t'.node id).target = (t.node id).target)
    (hsymbols : t'.symbols.bare = t.symbols.bare) : t.Displaced t' where
  size_eq := hsize
  parent_eq id := (hnode id).1
  bare_eq id := (hnode id).2.1
  target_eq id := (hnode id).2.2
  symbols_eq := hsymbols

/-- The same node is added to both trees, but for where its statement is written. -/
theorem addNode (h : t.Displaced t') (p : Nat) {n n' : Node}
    (hstatement : n'.statement.bare = n.statement.bare) (htarget : n'.target = n.target) :
    (t.addNode p n).Displaced (t'.addNode p n') := by
  refine of_nodes (by rw [size_addNode, size_addNode, h.size_eq]) (fun id => ?_) h.symbols_eq
  rw [node_addNode, node_addNode, h.size_eq]
  split
  · exact ⟨rfl, hstatement, htarget⟩
  · exact ⟨h.parent_eq id, h.bare_eq id, h.target_eq id⟩

theorem setTarget (h : t.Displaced t') (id target : Nat) :
    (t.setTarget id target).Displaced (t'.setTarget id target) := by
  refine of_nodes (by rw [Tree.setTarget, Tree.setTarget, size_modify, size_modify, h.size_eq])
    (fun n => ?_) h.symbols_eq
  by_cases hn : n < t.size
  · rw [Tree.setTarget, Tree.setTarget, node_modify t id _ n hn,
      node_modify t' id _ n (h.size_eq ▸ hn)]
    split
    · exact ⟨h.parent_eq n, h.bare_eq n, rfl⟩
    · exact ⟨h.parent_eq n, h.bare_eq n, h.target_eq n⟩
  · have hle : t.size ≤ n := Nat.le_of_not_lt hn
    rw [node_of_size_le (by rw [Tree.setTarget, size_modify, h.size_eq]; exact hle),
      node_of_size_le (by rw [Tree.setTarget, size_modify]; exact hle)]
    exact ⟨rfl, rfl, rfl⟩

/-- The labels of both trees are bound. -/
theorem bindLabels (h : t.Displaced t') :
    ({ t with symbols := Tree.bindLabels t.symbols } : Tree).Displaced
      { t' with symbols := Tree.bindLabels t'.symbols } :=
  of_nodes h.size_eq (fun id => ⟨h.parent_eq id, h.bare_eq id, h.target_eq id⟩)
    (by rw [bare_bindLabels, bare_bindLabels, h.symbols_eq])

end Displaced

end Tree

end MissionScript
