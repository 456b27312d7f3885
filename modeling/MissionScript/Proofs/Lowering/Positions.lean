import MissionScript.Proofs.Tree.Order
import MissionScript.Tree.Lowering

/-!
# MissionScript.Proofs.Lowering.Positions

Where nodes stand in the compiled script.

* `StartsAt t k l` — the end `l` of the order begins when `k` nodes have been executed. A node that is
  not executed does not count (`StartsAt.skip`), one that is takes the position (`StartsAt.take`).
* `landing?_of_startsAt` — a jump to a node lands where the end that begins with the node does, as
  long as something is executed there.
* `summary_emit`, `index_setIndices` — the commands are the executable nodes in their order, and each
  node knows its position.
-/

namespace MissionScript

namespace Tree

/-! ### The layout -/

/-- The positions of the nodes of a list, when `before` executable nodes stand before them: each
node with the number of executable nodes before it. -/
def positionsFrom (t : Tree) (before : Nat) : List Nat → List (Nat × Nat)
  | [] => []
  | id :: rest =>
    (id, before) ::
      t.positionsFrom (if (t.statement id).isExecutable then before + 1 else before) rest

/-- The executable nodes in the order of the tree. -/
def executables (t : Tree) : List Nat := t.preorder.filter fun id => (t.statement id).isExecutable

/-- Where the nodes of a tree are in the compiled script. -/
structure Layout where
  /-- Each node in the order of the tree, with the number of executable nodes before it. -/
  positions : List (Nat × Nat)
  /-- The number of executable nodes. -/
  count : Nat
  deriving Repr

/-- Where the nodes are in the compiled script. -/
def layout (t : Tree) : Layout := ⟨t.positionsFrom 0 t.preorder, t.executables.length⟩

/-- The position of the command that stands for a node, if a command does. -/
def Layout.landing? (l : Layout) (target : Nat) : Option Nat :=
  (l.positions.lookup target).filter (· < l.count)

/-- The lines of the jumps that lead to no command. -/
def unresolvedLines (t : Tree) (l : Layout) : List Nat :=
  t.executables.filterMap fun id =>
    match (t.node id).target with
    | some target => if (l.landing? target).isSome then none else some (t.statement id).line
    | none => none

/-- Numbers the executable nodes. -/
def setIndices (t : Tree) : Tree :=
  t.executables.zipIdx.foldl (fun t (id, index) => t.setIndex id index) t

/-- Adds what a node stands for to the compiled script, by the layout. -/
def emitNode (t : Tree) (l : Layout) (code : Code) (placed : Nat × Nat) : Code :=
  t.addEntry code placed.1 placed.2 ((t.node placed.1).target.bind l.landing?)

/-- The compiled script of a tree whose targets are set, by the layout. -/
def emit (t : Tree) (l : Layout) : Code := l.positions.foldl (t.emitNode l) {}

/-- The layout depends on the structure and on what is executed. -/
theorem SameStructure.layout_eq {t t' : Tree} (h : t.SameStructure t')
    (hexec : ∀ id, (t'.statement id).isExecutable = (t.statement id).isExecutable) :
    t'.layout = t.layout := by
  have hpositions : ∀ (ids : List Nat) (start : Nat),
      t'.positionsFrom start ids = t.positionsFrom start ids := by
    intro ids
    induction ids with
    | nil => exact fun _ => rfl
    | cons id ids ih =>
        intro start
        rw [positionsFrom, positionsFrom, hexec, ih]
  rw [layout, layout, executables, executables, h.preorder_eq, hpositions, funext hexec]

/-! ### Ends of the order -/

/-- The end `l` of the order begins when `k` nodes have been executed. -/
def StartsAt (t : Tree) (k : Nat) (l : List Nat) : Prop :=
  ∃ before, t.preorder = before ++ l ∧
    (before.filter fun id => (t.statement id).isExecutable).length = k

namespace StartsAt

variable {t : Tree} {k : Nat} {l : List Nat}

theorem of_suffix (h : l <:+ t.preorder) : ∃ k, t.StartsAt k l := by
  obtain ⟨before, heq⟩ := h
  exact ⟨_, before, heq.symm, rfl⟩

/-- The executable nodes of an end are those from its position on. -/
theorem executables_eq (h : t.StartsAt k l) :
    ∃ before, before.length = k ∧
      t.executables = before ++ l.filter fun id => (t.statement id).isExecutable := by
  obtain ⟨before, heq, hk⟩ := h
  exact ⟨_, hk, by rw [executables, heq, List.filter_append]⟩

/-- What is executed first in an end stands at its position. -/
theorem take {id : Nat} (h : t.StartsAt k (id :: l))
    (hexec : (t.statement id).isExecutable = true) :
    t.executables[k]? = some id ∧ t.StartsAt (k + 1) l := by
  constructor
  · obtain ⟨before, rfl, heq⟩ := h.executables_eq
    rw [heq, List.filter_cons, if_pos hexec, List.getElem?_append_right (Nat.le_refl _), Nat.sub_self,
      List.getElem?_cons_zero]
  · obtain ⟨before, heq, rfl⟩ := h
    refine ⟨before ++ [id], by rw [heq, List.append_assoc, List.singleton_append], ?_⟩
    rw [List.filter_append, List.length_append, List.filter_cons, if_pos hexec]
    rfl

/-- What is not executed takes no position. -/
theorem skip {passed : List Nat} (h : t.StartsAt k (passed ++ l))
    (hexec : ∀ id ∈ passed, (t.statement id).isExecutable = false) : t.StartsAt k l := by
  obtain ⟨before, heq, rfl⟩ := h
  refine ⟨before ++ passed, by rw [heq, List.append_assoc], ?_⟩
  have hnone : (passed.filter fun id => (t.statement id).isExecutable) = [] := by
    rw [List.filter_eq_nil_iff]
    intro id hid
    rw [hexec id hid]
    simp
  rw [List.filter_append, hnone, List.append_nil]

end StartsAt

/-- The position of an end is below the number of commands when something is executed in it. -/
theorem StartsAt.lt_length {t : Tree} {k : Nat} {l : List Nat} (h : t.StartsAt k l) {x : Nat}
    (hx : x ∈ l) (hexec : (t.statement x).isExecutable = true) : k < t.executables.length := by
  obtain ⟨before, rfl, heq⟩ := h.executables_eq
  have hmem : x ∈ l.filter fun id => (t.statement id).isExecutable :=
    List.mem_filter.mpr ⟨hx, hexec⟩
  have hpos := List.length_pos_of_mem hmem
  rw [heq, List.length_append]
  omega

/-! ### Landing -/

theorem lookup_positionsFrom (t : Tree) {before rest : List Nat} {id : Nat} (hid : id ∉ before)
    (start : Nat) :
    (t.positionsFrom start (before ++ id :: rest)).lookup id
      = some (start + (before.filter fun x => (t.statement x).isExecutable).length) := by
  induction before generalizing start with
  | nil => simp [positionsFrom]
  | cons x before ih =>
      rw [List.mem_cons, not_or] at hid
      have hne : (id == x) = false := by simpa using hid.1
      rw [List.cons_append, positionsFrom, List.lookup_cons, hne, ih hid.2]
      cases hexec : (t.statement x).isExecutable with
      | true =>
          rw [List.filter_cons, if_pos hexec, List.length_cons, if_pos rfl]
          exact congrArg some (by omega)
      | false =>
          have hnot : ¬ (t.statement x).isExecutable = true := by simp [hexec]
          rw [List.filter_cons, if_neg hnot, if_neg Bool.false_ne_true]

/-- A jump to a node lands where the end that begins with the node does. -/
theorem landing?_of_startsAt {t : Tree} (hnodup : t.preorder.Nodup) {k id : Nat} {l : List Nat}
    (h : t.StartsAt k (id :: l)) {x : Nat} (hx : x ∈ id :: l)
    (hexec : (t.statement x).isExecutable = true) : t.layout.landing? id = some k := by
  have hlt := h.lt_length hx hexec
  obtain ⟨before, heq, rfl⟩ := h
  have hid : id ∉ before := by
    rw [heq, List.nodup_append] at hnodup
    exact fun hmem => hnodup.2.2 id hmem id List.mem_cons_self rfl
  rw [Layout.landing?, layout, heq]
  dsimp only
  rw [lookup_positionsFrom t hid, Nat.zero_add, Option.filter_some, if_pos (by simpa using hlt)]

/-! ### Commands -/

/-- What is said about a node's place in the flow of control: its position, line, command and the
position it jumps to. -/
def summaryOf (t : Tree) (l : Layout) (id position : Nat) : Nat × Nat × Option Nat × Option Nat :=
  (position, (t.statement id).line, (t.statement id).id?, (t.node id).target.bind l.landing?)

end Tree

/-- What a command says about its place in the flow of control. -/
def Command.summary (c : Command) : Nat × Nat × Option Nat × Option Nat :=
  (c.index, c.line, some c.id, c.jump)

namespace Tree

/-- A node that is executed adds a command, and no other node does. -/
theorem summary_emitNode (t : Tree) (l : Layout) (code : Code) (id position : Nat) :
    (t.emitNode l code (id, position)).commands.map Command.summary
      = code.commands.map Command.summary
        ++ if (t.statement id).isExecutable then [t.summaryOf l id position] else [] := by
  unfold emitNode addEntry
  dsimp only
  cases hcommand : (t.statement id).command with
  | none =>
      have hexec : (t.statement id).isExecutable = false := by
        simp [Statement.isExecutable, Statement.kind?, hcommand]
      rw [hexec]
      simp
  | some d =>
      cases hexec : (t.statement id).isExecutable with
      | true => simp [Code.push, Command.summary, summaryOf, Statement.id?, hcommand]
      | false =>
          cases (t.statement id).isAuxiliary with
          | true => simp [Code.pushAuxiliary]
          | false => simp

theorem summary_foldl (t : Tree) (l : Layout) (ids : List Nat) (start : Nat) (code : Code) :
    ((t.positionsFrom start ids).foldl (t.emitNode l) code).commands.map Command.summary
      = code.commands.map Command.summary
        ++ ((ids.filter fun id => (t.statement id).isExecutable).zipIdx start).map
            fun x => t.summaryOf l x.1 x.2 := by
  induction ids generalizing start code with
  | nil => simp [positionsFrom]
  | cons id ids ih =>
      rw [positionsFrom, List.foldl_cons, ih, summary_emitNode, List.append_assoc, List.filter_cons]
      cases (t.statement id).isExecutable with
      | true => simp
      | false => simp

/-- The commands are the executable nodes in their order. -/
theorem summary_emit (t : Tree) :
    (t.emit t.layout).commands.map Command.summary
      = t.executables.zipIdx.map fun x => t.summaryOf t.layout x.1 x.2 := by
  rw [emit, layout, summary_foldl]
  rfl

/-- The command at the position of a node. -/
theorem exists_command {t : Tree} {k id : Nat} (h : t.executables[k]? = some id) :
    ∃ c, (t.emit t.layout).commands[k]? = some c ∧ c.index = k ∧ c.line = (t.statement id).line ∧
      (t.statement id).id? = some c.id ∧ c.jump = (t.node id).target.bind t.layout.landing? := by
  have hget := congrArg (·[k]?) (summary_emit t)
  simp only [List.getElem?_map, List.getElem?_zipIdx, h, Option.map_some, Nat.zero_add] at hget
  obtain ⟨c, hc, hsummary⟩ := Option.map_eq_some_iff.mp hget
  simp only [Command.summary, summaryOf, Prod.mk.injEq] at hsummary
  obtain ⟨hindex, hline, hid, hjump⟩ := hsummary
  exact ⟨c, hc, hindex, hline, hid.symm, hjump⟩

/-- What a command says of the node at its position. -/
theorem of_command {t : Tree} {k id : Nat} {c : Command} (h : t.executables[k]? = some id)
    (hc : (t.emit t.layout).commands[k]? = some c) :
    (t.statement id).id? = some c.id ∧ c.jump = (t.node id).target.bind t.layout.landing? := by
  obtain ⟨c', hc', -, -, hid, hjump⟩ := exists_command h
  rw [hc] at hc'
  cases hc'
  exact ⟨hid, hjump⟩

theorem length_commands (t : Tree) :
    (t.emit t.layout).commands.length = t.executables.length := by
  have hlength := congrArg List.length (summary_emit t)
  simpa using hlength

/-! ### The index of a node -/

theorem index_foldl {t : Tree} (placed : List (Nat × Nat)) {id : Nat} (hid : id < t.size) :
    (∀ x ∈ placed, x.1 ≠ id) →
      ((placed.foldl (fun t x => t.setIndex x.1 x.2) t).node id).index = (t.node id).index := by
  induction placed generalizing t with
  | nil => intro _; rfl
  | cons x placed ih =>
      intro hne
      have hshape := SameShape.setIndex t x.1 x.2
      rw [List.foldl_cons, ih (by rw [hshape.size_eq]; exact hid)
        fun y hy => hne y (List.mem_cons_of_mem _ hy), setIndex, node_modify t _ _ _ hid,
        if_neg (hne x List.mem_cons_self)]

theorem index_of_mem {t : Tree} (placed : List (Nat × Nat))
    (hnodup : (placed.map Prod.fst).Nodup) {id k : Nat} (hid : id < t.size)
    (hmem : (id, k) ∈ placed) :
    ((placed.foldl (fun t x => t.setIndex x.1 x.2) t).node id).index = some k := by
  induction placed generalizing t with
  | nil => cases hmem
  | cons x placed ih =>
      obtain ⟨hnot, hrest⟩ := List.nodup_cons.mp hnodup
      have hshape := SameShape.setIndex t x.1 x.2
      rw [List.foldl_cons]
      rcases List.mem_cons.mp hmem with rfl | hmem'
      · rw [index_foldl placed (by rw [hshape.size_eq]; exact hid), setIndex,
          node_modify t _ _ _ hid, if_pos rfl]
        intro y hy heq
        exact hnot (List.mem_map.mpr ⟨y, hy, heq⟩)
      · exact ih hrest (by rw [hshape.size_eq]; exact hid) hmem'

/-- A node that is executed knows its position. -/
theorem index_setIndices {t : Tree} {k id : Nat} (h : t.executables[k]? = some id) :
    (t.setIndices.node id).index = some k := by
  have hid : id ∈ t.preorder := (List.mem_filter.mp (List.mem_of_getElem? h)).1
  refine index_of_mem _ ?_ (bounds_of_mem_preorder hid).2 ?_
  · rw [List.zipIdx_map_fst]
    exact (nodup_preorder _).filter _
  · rw [List.mem_zipIdx_iff_getElem?]
    exact h

end Tree

end MissionScript
