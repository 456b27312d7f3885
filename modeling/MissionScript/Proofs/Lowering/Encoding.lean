import MissionScript.Proofs.Lowering.Positions
import MissionScript.Proofs.Statement.Proper

/-!
# MissionScript.Proofs.Lowering.Encoding

What the entries of a compiled script hold.

* `Encodes t l c id` — the command `c` is what the node `id` stands for. The commands are those of the
  executable nodes, one for one (`encodes_emit`).
* `auxiliary_emit` — the auxiliary entries are those of the auxiliary nodes, each with the number of
  commands before it; so their references grow along the list (`pairwise_reference`).
* `encodeParameter_cases` — a parameter keeps its type and, unless it is a variable, its value; only
  the label of a jump becomes a position.

A compiled script is put together by a fold over the nodes and their positions. Each lemma about an
entry comes in three steps: what one node adds, what the fold over a list adds, and what is in the
whole script. Only what is executed adds a command, only what is auxiliary an entry of the other
list, and all that is needed is in `Encodes` and `auxiliaryAt?`.
-/

namespace MissionScript

namespace Tree

/-! ### Parameters

The type of a parameter is what the check has seen, except for labels. The slots for labels accept
numbers, too, so all slots accept what they hold in the end. -/

/-- The label of a jump becomes the position that it leads to. -/
theorem encodeParameter_of_label {p : Parameter} (h : p.slot.type = .labelNumber) (position : Nat)
    (vars : List String) :
    (encodeParameter (some position) vars p).2 = ⟨.integer, .int (Number.ofCount position)⟩ := by
  simp [encodeParameter, h]

/-- Only variables have a name. -/
theorem dataType_of_varName? {p : Parameter} {name : String} (h : p.varName? = some name) :
    p.dataType = .var := by
  unfold Parameter.varName? at h
  split at h
  · assumption
  · cases h

/-- What becomes of a parameter. -/
theorem encodeParameter_cases (jump : Option Nat) (vars : List String) (p : Parameter) :
    (p.slot.type = .labelNumber ∧ (encodeParameter jump vars p).2.dataType = .integer) ∨
      ((encodeParameter jump vars p).2.dataType = p.dataType ∧
        (p.dataType ≠ .var → (encodeParameter jump vars p).2.value = p.value)) := by
  unfold encodeParameter
  cases hjump : (if p.slot.type = .labelNumber then jump else none) with
  | some position =>
      left
      refine ⟨?_, rfl⟩
      split at hjump
      · assumption
      · cases hjump
  | none =>
      right
      cases hname : p.varName? with
      | none => exact ⟨rfl, fun _ => rfl⟩
      | some name =>
          have hvar := dataType_of_varName? hname
          exact ⟨hvar.symm, fun hne => absurd hvar hne⟩

/-- What a slot accepts it accepts in the compiled script. -/
theorem accepts_encodeParameter {p : Parameter} {type : ParameterType} (hslot : p.slot.type = type)
    (h : type.accepts p.dataType = true) (jump : Option Nat) (vars : List String) :
    type.accepts (encodeParameter jump vars p).2.dataType = true := by
  rcases encodeParameter_cases jump vars p with ⟨hlabel, htype⟩ | ⟨htype, -⟩
  · rw [htype, ← hslot, hlabel]
    rfl
  · rw [htype]
    exact h

/-- The parameters of a command are encoded one by one. -/
theorem getElem?_encodeParameters (jump : Option Nat) (vars : List String) {ps : List Parameter}
    {i : Nat} {p : Parameter} (h : ps[i]? = some p) :
    ∃ vars', (encodeParameters jump vars ps).2[i]? = some (encodeParameter jump vars' p).2 := by
  induction ps generalizing vars i with
  | nil => simp at h
  | cons q ps ih =>
      cases i with
      | zero =>
          cases h
          exact ⟨vars, rfl⟩
      | succ i =>
          rw [List.getElem?_cons_succ] at h
          exact ih _ h

/-- There are as many parameters as before. -/
theorem length_encodeParameters (jump : Option Nat) (vars : List String) (ps : List Parameter) :
    (encodeParameters jump vars ps).2.length = ps.length := by
  induction ps generalizing vars with
  | nil => rfl
  | cons p ps ih => exact congrArg (· + 1) (ih _)

/-! ### Commands

The commands and the executable nodes are listed side by side. What the table of variables is at a
node is left open here (`MissionScript.Proofs.Lowering.Table`). -/

/-- The command `c` is what the node stands for. -/
structure Encodes (t : Tree) (l : Layout) (c : Command) (id : Nat) : Prop where
  statement_eq : ∃ d vars, (t.statement id).command = some d ∧ c.id = d.id ∧ c.kind = d.kind ∧
    c.parameters = (encodeStatement c.jump vars (t.statement id) d.kind).2.1
  line_eq : c.line = (t.statement id).line
  jump_eq : c.jump = (t.node id).target.bind l.landing?

/-- A command has the number of its node. -/
theorem Encodes.id?_eq {t : Tree} {l : Layout} {c : Command} {id : Nat} (h : t.Encodes l c id) :
    (t.statement id).id? = some c.id := by
  obtain ⟨d, vars, hcommand, hid, -, -⟩ := h.statement_eq
  rw [Statement.id?, hcommand, Option.map_some, hid]

/-- A node that is executed adds its command, and no other node adds one. -/
theorem encodes_emitNode (t : Tree) (l : Layout) (code : Code) (id position : Nat) :
    ∃ added, (t.emitNode l code (id, position)).commands = code.commands ++ added ∧
      List.Forall₂ (t.Encodes l) added
        (if (t.statement id).isExecutable then [id] else []) := by
  unfold emitNode addEntry
  dsimp only
  cases hcommand : (t.statement id).command with
  | none =>
      have hexec : (t.statement id).isExecutable = false := by
        simp [Statement.isExecutable, Statement.kind?, hcommand]
      rw [hexec]
      exact ⟨[], (List.append_nil _).symm, .nil⟩
  | some d =>
      cases hexec : (t.statement id).isExecutable with
      | true =>
          refine ⟨_, rfl, .cons ?_ .nil⟩
          exact ⟨⟨d, code.vars, hcommand, rfl, rfl, rfl⟩, rfl, rfl⟩
      | false =>
          refine ⟨[], ?_, .nil⟩
          cases (t.statement id).isAuxiliary <;> simp [Code.pushAuxiliary]

/-- The nodes of a list add their commands, one for one. -/
theorem encodes_foldl (t : Tree) (l : Layout) (ids : List Nat) (start : Nat) (code : Code) :
    ∃ added, ((t.positionsFrom start ids).foldl (t.emitNode l) code).commands
        = code.commands ++ added ∧
      List.Forall₂ (t.Encodes l) added
        (ids.filter fun id => (t.statement id).isExecutable) := by
  induction ids generalizing start code with
  | nil => exact ⟨[], (List.append_nil _).symm, .nil⟩
  | cons id ids ih =>
      obtain ⟨first, hfirst, hencodes⟩ := encodes_emitNode t l code id start
      obtain ⟨rest, hrest, hencodes'⟩ :=
        ih (if (t.statement id).isExecutable then start + 1 else start)
          (t.emitNode l code (id, start))
      refine ⟨first ++ rest, ?_, ?_⟩
      · rw [positionsFrom, List.foldl_cons, hrest, hfirst, List.append_assoc]
      · rw [show id :: ids = [id] ++ ids from rfl, List.filter_append]
        refine List.rel_append ?_ hencodes'
        rw [List.filter_singleton, cond_eq_ite]
        exact hencodes

/-- The commands are those of the executable nodes, one for one. -/
theorem encodes_emit (t : Tree) :
    List.Forall₂ (t.Encodes t.layout) (t.emit t.layout).commands t.executables := by
  obtain ⟨added, heq, hencodes⟩ := encodes_foldl t t.layout t.preorder 0 {}
  rw [show (t.emit t.layout).commands = added from heq]
  exact hencodes

/-- Every command stands for a node that is executed. -/
theorem exists_encodes {t : Tree} {c : Command} (h : c ∈ (t.emit t.layout).commands) :
    ∃ id ∈ t.executables, t.Encodes t.layout c id := by
  obtain ⟨k, hk, rfl⟩ := List.getElem_of_mem h
  have hencodes := encodes_emit t
  have hlt : k < t.executables.length := hencodes.length_eq ▸ hk
  exact ⟨t.executables[k], List.getElem_mem hlt, hencodes.get hk hlt⟩

/-- The lines and numbers of the commands are those of the executable nodes. -/
theorem origins_emit (t : Tree) :
    (t.emit t.layout).commands.map (fun c => (c.line, some c.id))
      = t.executables.map fun id => ((t.statement id).line, (t.statement id).id?) := by
  rw [← List.forall₂_eq_eq_eq, List.forall₂_map_left_iff, List.forall₂_map_right_iff]
  refine (encodes_emit t).imp ?_
  intro c id h
  rw [h.line_eq, h.id?_eq]

/-! ### Auxiliary entries

An auxiliary node has no position of its own. It keeps the number of commands that have been passed,
which is the position of the next one. -/

/-- The auxiliary entry of a node, when `placed.2` commands stand before it. -/
def auxiliaryAt? (t : Tree) (placed : Nat × Nat) : Option Auxiliary :=
  if (t.statement placed.1).isAuxiliary then
    (t.statement placed.1).command.map (encodeAuxiliary placed.2 (t.statement placed.1))
  else none

/-- A node adds its entry, if it is auxiliary. -/
theorem auxiliary_emitNode (t : Tree) (l : Layout) (code : Code) (placed : Nat × Nat) :
    (t.emitNode l code placed).auxiliary = code.auxiliary ++ (t.auxiliaryAt? placed).toList := by
  unfold emitNode addEntry auxiliaryAt?
  dsimp only
  cases (t.statement placed.1).command with
  | none => simp
  | some d =>
      cases hexec : (t.statement placed.1).isExecutable with
      | true =>
          rw [Statement.isAuxiliary_eq_false_of_isExecutable hexec]
          simp [Code.push]
      | false => cases (t.statement placed.1).isAuxiliary <;> simp [Code.pushAuxiliary]

/-- The auxiliary entries are those of the auxiliary nodes, in their order. -/
theorem auxiliary_emit (t : Tree) :
    (t.emit t.layout).auxiliary = t.layout.positions.filterMap t.auxiliaryAt? := by
  have run : ∀ (placed : List (Nat × Nat)) (code : Code),
      (placed.foldl (t.emitNode t.layout) code).auxiliary
        = code.auxiliary ++ placed.filterMap t.auxiliaryAt? := by
    intro placed
    induction placed with
    | nil => simp
    | cons x placed ih =>
        intro code
        rw [List.foldl_cons, ih, auxiliary_emitNode, List.append_assoc, List.filterMap_cons]
        cases t.auxiliaryAt? x <;> rfl
  exact run t.layout.positions {}

/-- An entry refers to the position, and is on the line of its node. -/
theorem reference_of_auxiliaryAt? {t : Tree} {placed : Nat × Nat} {a : Auxiliary}
    (h : t.auxiliaryAt? placed = some a) :
    a.reference = placed.2 ∧ a.line = (t.statement placed.1).line := by
  unfold auxiliaryAt? at h
  split at h
  · obtain ⟨d, -, rfl⟩ := Option.map_eq_some_iff.mp h
    unfold encodeAuxiliary
    dsimp only
    split <;> exact ⟨rfl, rfl⟩
  · cases h

/-- A proper statement is kept exactly when it is auxiliary. -/
theorem isSome_auxiliaryAt? {t : Tree} {placed : Nat × Nat}
    (hcommand : (t.statement placed.1).command.isSome = true) :
    (t.auxiliaryAt? placed).isSome = (t.statement placed.1).isAuxiliary := by
  unfold auxiliaryAt?
  cases (t.statement placed.1).isAuxiliary with
  | false => rfl
  | true => simpa using hcommand

/-- Each node has one position. -/
theorem map_fst_positionsFrom (t : Tree) (start : Nat) (ids : List Nat) :
    (t.positionsFrom start ids).map Prod.fst = ids := by
  induction ids generalizing start with
  | nil => rfl
  | cons id ids ih => rw [positionsFrom, List.map_cons, ih]

/-- The lines of the auxiliary entries are those of the auxiliary nodes. -/
theorem lines_auxiliary {t : Tree}
    (h : ∀ id ∈ t.preorder, (t.statement id).command.isSome = true) :
    (t.emit t.layout).auxiliary.map (·.line)
      = (t.preorder.filter fun id => (t.statement id).isAuxiliary).map
          fun id => (t.statement id).line := by
  have keep : ∀ (placed : List (Nat × Nat)),
      (∀ x ∈ placed, (t.statement x.1).command.isSome = true) →
      (placed.filterMap t.auxiliaryAt?).map (·.line)
        = ((placed.map Prod.fst).filter fun id => (t.statement id).isAuxiliary).map
            fun id => (t.statement id).line := by
    intro placed
    induction placed with
    | nil => intro _; rfl
    | cons x placed ih =>
        intro hplaced
        have hrest := ih fun y hy => hplaced y (List.mem_cons_of_mem _ hy)
        have hsome := isSome_auxiliaryAt? (hplaced x List.mem_cons_self)
        rw [List.filterMap_cons, List.map_cons, List.filter_cons]
        cases hentry : t.auxiliaryAt? x with
        | none =>
            rw [hentry] at hsome
            rw [← hsome]
            exact hrest
        | some a =>
            rw [hentry] at hsome
            rw [← hsome, if_pos Option.isSome_some, List.map_cons, List.map_cons, hrest,
              (reference_of_auxiliaryAt? hentry).2]
  have hfst : t.layout.positions.map Prod.fst = t.preorder := map_fst_positionsFrom t 0 t.preorder
  rw [auxiliary_emit, keep, hfst]
  intro x hx
  refine h x.1 ?_
  rw [← hfst]
  exact List.mem_map_of_mem hx

/-! ### Positions grow

Positions count upwards along the list, so references do as well. -/

/-- A position is at least the first and counts the commands before it. -/
theorem bounds_positionsFrom (t : Tree) (start : Nat) (ids : List Nat) :
    ∀ x ∈ t.positionsFrom start ids, start ≤ x.2 ∧
      x.2 ≤ start + (ids.filter fun id => (t.statement id).isExecutable).length := by
  induction ids generalizing start with
  | nil => simp [positionsFrom]
  | cons id ids ih =>
      intro x hx
      rw [positionsFrom] at hx
      rcases List.mem_cons.mp hx with rfl | hmem
      · exact ⟨Nat.le_refl _, Nat.le_add_right _ _⟩
      · have hbounds := ih _ x hmem
        cases hexec : (t.statement id).isExecutable with
        | true =>
            rw [hexec, if_pos rfl] at hbounds
            rw [List.filter_cons_of_pos (by simpa using hexec), List.length_cons]
            omega
        | false =>
            rw [hexec, if_neg Bool.false_ne_true] at hbounds
            rw [List.filter_cons_of_neg (by simp [hexec])]
            exact hbounds

/-- No position is less than one before it. -/
theorem pairwise_positionsFrom (t : Tree) (start : Nat) (ids : List Nat) :
    (t.positionsFrom start ids).Pairwise fun x y => x.2 ≤ y.2 := by
  induction ids generalizing start with
  | nil => exact .nil
  | cons id ids ih =>
      rw [positionsFrom]
      refine .cons ?_ (ih _)
      intro x hx
      have hbounds := bounds_positionsFrom t _ ids x hx
      cases hexec : (t.statement id).isExecutable with
      | true =>
          rw [hexec, if_pos rfl] at hbounds
          show start ≤ x.2
          omega
      | false =>
          rw [hexec, if_neg Bool.false_ne_true] at hbounds
          exact hbounds.1

/-- An auxiliary entry refers to a command or to the end of the script, -/
theorem reference_le {t : Tree} {a : Auxiliary} (h : a ∈ (t.emit t.layout).auxiliary) :
    a.reference ≤ t.executables.length := by
  rw [auxiliary_emit] at h
  obtain ⟨placed, hplaced, ha⟩ := List.mem_filterMap.mp h
  have hbounds := bounds_positionsFrom t 0 t.preorder placed hplaced
  rw [Nat.zero_add] at hbounds
  rw [(reference_of_auxiliaryAt? ha).1]
  exact hbounds.2

/-- and a later one to the same place or a later one. -/
theorem pairwise_reference (t : Tree) :
    (t.emit t.layout).auxiliary.Pairwise fun a b => a.reference ≤ b.reference := by
  rw [auxiliary_emit, List.pairwise_filterMap]
  refine (pairwise_positionsFrom t 0 t.preorder).imp ?_
  intro x y hxy a ha b hb
  rw [(reference_of_auxiliaryAt? ha).1, (reference_of_auxiliaryAt? hb).1]
  exact hxy

end Tree

end MissionScript
