import MissionScript.Proofs.Lowering.Numbering
import Mathlib.Order.Bounds.Basic

/-!
# MissionScript.Proofs.Lowering.Resolution

What the walk that numbers commands finds out.

* `lookup_table_of_executable`, `lookup_table_of_auxiliary` — its table holds the positions of the layout,
  so a tree is assembled by the layout (`assemble_eq_layout`, `assemble_eq`).
* `assignIndices_resolves` — the numbers and the jumps of a tree, in terms of the order alone: a jump leads
  to the first command from its target on, and numbering fails for those jumps that have none.

The walk keeps nodes waiting until the next command, and jumps pending until their targets are
placed. None of this is part of what positions and landings are. The layout of a tree says it
without a walk: the position of a node is the number of commands before it, and a jump lands where
the first command from its target on stands.
-/

namespace MissionScript

namespace Tree

/-! ### The layout

Positions are counted over the order of the tree, so that those of a part follow from the number of
commands before it. -/

/-- Positions in a part of the order. -/
theorem positionsFrom_eq {t : Tree} {before after : List Nat} (h : t.preorder = before ++ after) :
    t.positionsFrom (before.filter fun x => (t.statement x).isExecutable).length after
      = after.map fun id => (id, t.position id) := by
  induction after generalizing before with
  | nil => rfl
  | cons id after ih =>
      have hid : t.preorder = (before ++ [id]) ++ after := by
        rw [h, List.append_assoc, List.singleton_append]
      have hnext := ih hid
      rw [positionsFrom, List.map_cons, position_eq h, ← hnext, List.filter_append]
      cases hexec : (t.statement id).isExecutable <;> simp [hexec]

/-- Each node of the tree has its position. -/
theorem positions_layout (t : Tree) :
    t.layout.positions = t.preorder.map fun id => (id, t.position id) :=
  positionsFrom_eq (show t.preorder = [] ++ t.preorder from rfl)

/-- A jump lands at the position of its target, unless no command comes after it. -/
theorem landing?_eq_ite (t : Tree) (y : Nat) :
    t.layout.landing? y =
      if y ∈ t.preorder ∧ t.position y < t.executables.length then some (t.position y) else none := by
  rw [Layout.landing?, positions_layout, lookup_map_self, show t.layout.count = t.executables.length from rfl]
  by_cases hy : y ∈ t.preorder
  · simp [hy, Option.filter_some]
  · simp [hy]

/-! ### What the tables hold

When the walk has been through all nodes, a node has been placed if it is a command or one comes
after it, and still waits if not. -/

/-- The tree after the walk has the indices of the layout, -/
theorem tree_numbering (t : Tree) : t.numbering.tree = t.setIndices :=
  (Numbering.reaches_numbering t).tree_eq

/-- and its statements are as they were. -/
theorem statement_numbering (t : Tree) (id : Nat) :
    t.numbering.tree.statement id = t.statement id :=
  (Numbering.reaches_numbering t).statement_eq id

/-- A node is placed in the end when a command stands for it. -/
theorem lookup_location_numbering (t : Tree) (y : Nat) :
    t.numbering.location.lookup y = t.layout.landing? y := by
  have hreaches := Numbering.reaches_numbering t
  rw [hreaches.location_eq, landing?_eq_ite, hreaches.next_eq, executables]

/-- A node that waits is placed where the next command would be. -/
theorem lookup_locations (n : Numbering) (x : Nat) :
    n.locations.lookup x = if x ∈ n.waiting then some n.next else n.location.lookup x := by
  unfold Numbering.locations
  generalize n.location = entries
  induction n.waiting generalizing entries with
  | nil => simp
  | cons id ids ih =>
      rw [List.foldl_cons, ih, lookup_cons_eq_ite]
      by_cases hx : x ∈ ids
      · simp [hx]
      · simp [hx]

/-- After the walk every node has its position. -/
theorem lookup_locations_numbering (t : Tree) {x : Nat} (hx : x ∈ t.preorder) :
    t.numbering.locations.lookup x = some (t.position x) := by
  have hreaches := Numbering.reaches_numbering t
  have hle : t.position x ≤ t.numbering.next := by
    rw [hreaches.next_eq]
    exact position_le (List.append_nil _).symm hx
  rw [lookup_locations, hreaches.location_eq]
  by_cases hwait : x ∈ t.numbering.waiting
  · rw [if_pos hwait, ((hreaches.mem_waiting_iff x).mp hwait).2]
  · have hne : t.position x ≠ t.numbering.next :=
      fun heq => hwait ((hreaches.mem_waiting_iff x).mpr ⟨hx, heq⟩)
    rw [if_neg hwait, if_pos ⟨hx, by omega⟩]

/-- Auxiliary nodes are looked up first, then the jumps. -/
theorem lookup_table (n : Numbering) (id : Nat) :
    n.table.lookup id = (if (n.tree.statement id).isAuxiliary then n.locations.lookup id else none).or
      (n.resolved.lookup id) := by
  rw [Numbering.table, List.lookup_append,
    lookup_filter_fst (fun x => (n.tree.statement x).isAuxiliary) n.locations id]

/-- The table has the landing of a jump, -/
theorem lookup_table_of_executable {t : Tree} {id : Nat} (h : id ∈ t.executables) :
    t.numbering.table.lookup id = (t.node id).target.bind t.layout.landing? := by
  have hexec := List.mem_filter.mp h
  rw [lookup_table, statement_numbering, Statement.isAuxiliary_eq_false_of_isExecutable hexec.2,
    if_neg Bool.false_ne_true, Option.none_or, (Numbering.reaches_numbering t).resolved_eq, if_pos hexec]
  simp only [lookup_location_numbering]

/-- the position of an auxiliary node, -/
theorem lookup_table_of_auxiliary {t : Tree} {id : Nat} (h : id ∈ t.preorder)
    (hauxiliary : (t.statement id).isAuxiliary = true) :
    t.numbering.table.lookup id = some (t.position id) := by
  rw [lookup_table, statement_numbering, if_pos hauxiliary, lookup_locations_numbering t h, Option.some_or]

/-- and nothing else. -/
theorem of_lookup_table {t : Tree} {id position : Nat}
    (h : t.numbering.table.lookup id = some position) :
    id ∈ t.preorder ∧ ((t.statement id).isAuxiliary = true ∨
      (t.statement id).isExecutable = true ∧ (t.node id).target.isSome = true) := by
  have hreaches := Numbering.reaches_numbering t
  rw [lookup_table, statement_numbering, Option.or_eq_some_iff] at h
  rcases h with hlocation | ⟨-, hresolved⟩
  · split at hlocation
    · next hauxiliary =>
      refine ⟨?_, Or.inl hauxiliary⟩
      rw [lookup_locations] at hlocation
      split at hlocation
      · next hwait => exact ((hreaches.mem_waiting_iff id).mp hwait).1
      · rw [hreaches.location_eq] at hlocation
        split at hlocation
        · next hplaced => exact hplaced.1
        · cases hlocation
    · cases hlocation
  · rw [hreaches.resolved_eq] at hresolved
    split at hresolved
    · next hexec =>
      obtain ⟨y, hy, -⟩ := Option.bind_eq_some_iff.mp hresolved
      exact ⟨hexec.1, Or.inr ⟨hexec.2, by simp [hy]⟩⟩
    · cases hresolved

/-- The jumps that are left pending are those that land nowhere. -/
theorem mem_pendingLines_iff (t : Tree) (line : Nat) :
    line ∈ t.numbering.pendingLines ↔ line ∈ t.unresolvedLines t.layout := by
  have hpending := (Numbering.reaches_numbering t).mem_pending_iff
  simp only [lookup_location_numbering] at hpending
  constructor
  · intro h
    obtain ⟨⟨y, id⟩, hmem, rfl⟩ := List.mem_map.mp h
    obtain ⟨hexec, htarget, hnone⟩ := (hpending y id).mp hmem
    refine List.mem_filterMap.mpr ⟨id, List.mem_filter.mpr hexec, ?_⟩
    simp [htarget, hnone, statement_numbering]
  · intro h
    obtain ⟨id, hid, hline⟩ := List.mem_filterMap.mp h
    cases htarget : (t.node id).target with
    | none => simp [htarget] at hline
    | some y =>
        cases hlanding : t.layout.landing? y with
        | some position => simp [htarget, hlanding] at hline
        | none =>
            simp only [htarget, hlanding, Option.isSome_none, if_neg Bool.false_ne_true,
              Option.some.injEq] at hline
            refine List.mem_map.mpr ⟨(y, id), ?_, by rw [statement_numbering]; exact hline⟩
            exact (hpending y id).mpr ⟨List.mem_filter.mp hid, htarget, hlanding⟩

/-- Numbering, by the layout. -/
theorem assignIndices_eq (t : Tree) :
    t.assignIndices = (t.setIndices,
      match (t.unresolvedLines t.layout).min? with
      | some line => .error (.unresolvedJump line)
      | none => .ok t.numbering.table) := by
  unfold assignIndices
  dsimp only
  rw [min?_congr (mem_pendingLines_iff t), tree_numbering]
  cases (t.unresolvedLines t.layout).min? <;> rfl

/-! ### Assembling

From here on the walk does not matter: the compiled script is that of the layout, or there is none
because a jump is left pending. -/

/-- What a node stands for does not depend on how its position and jump have been found. -/
theorem emitEntry_eq {t : Tree} {id : Nat} (h : id ∈ t.preorder) (code : Code) :
    t.setIndices.emitEntry t.numbering.table code id
      = t.emitNode t.layout code (id, t.position id) := by
  have hstatement := (sameShape_setIndices t).statement_eq
  unfold emitEntry emitNode addEntry
  dsimp only
  rw [hstatement]
  cases (t.statement id).command with
  | none => rfl
  | some d =>
      cases hexec : (t.statement id).isExecutable with
      | true =>
          have hid : id ∈ t.executables := List.mem_filter.mpr ⟨h, hexec⟩
          simp only [if_true, index_position hid, lookup_table_of_executable hid, Option.getD_some]
      | false =>
          cases hauxiliary : (t.statement id).isAuxiliary with
          | true => simp [lookup_table_of_auxiliary h hauxiliary]
          | false => simp

/-- Assembling, by the layout. -/
theorem assemble_eq_layout (t : Tree) :
    t.assemble = (t.setIndices,
      match (t.unresolvedLines t.layout).min? with
      | some line => .error (.unresolvedJump line)
      | none => .ok (t.emit t.layout)) := by
  have hemit : t.setIndices.preorder.foldl (t.setIndices.emitEntry t.numbering.table) {}
      = t.emit t.layout := by
    rw [(sameShape_setIndices t).preorder_eq, emit, positions_layout, List.foldl_map]
    exact List.foldl_ext _ _ _ fun code id hid => emitEntry_eq hid code
  rw [assemble, assignIndices_eq]
  cases (t.unresolvedLines t.layout).min? with
  | none => exact congrArg (fun code => (t.setIndices, Except.ok code)) hemit
  | some line => rfl

/-- When every jump lands, the tree can be assembled. -/
theorem assemble_eq {t : Tree}
    (h : ∀ id ∈ t.executables, ∀ y, (t.node id).target = some y →
      (t.layout.landing? y).isSome = true) :
    t.assemble = (t.setIndices, .ok (t.emit t.layout)) := by
  have hnone : t.unresolvedLines t.layout = [] := by
    rw [unresolvedLines, List.filterMap_eq_nil_iff]
    intro id hid
    cases htarget : (t.node id).target with
    | none => rfl
    | some y =>
        dsimp only
        rw [if_pos (h id hid y htarget)]
  rw [assemble_eq_layout, hnone]
  rfl

/-! ### Numbers and jumps

A jump is left pending when nothing is executed from its target on. The failure names the least line
of such a jump, whatever the order in which the walk has found them. -/

/-- The node is executed and jumps, but nothing is executed from its target on. -/
def LeadsNowhere (t : Tree) (id : Nat) : Prop :=
  id ∈ t.executables ∧ ∃ y, (t.node id).target = some y ∧
    ∀ x ∈ t.nodesFrom y, (t.statement x).isExecutable = false

/-- A jump lands exactly when a command stands for its target. -/
theorem landing?_eq_map (t : Tree) (y : Nat) :
    t.layout.landing? y = (t.standIn? y).map t.position := by
  rw [landing?_eq_ite]
  cases hstand : t.standIn? y with
  | none =>
      rw [if_neg]
      · rfl
      · rw [← isSome_standIn?_iff, hstand]
        simp
  | some z =>
      rw [if_pos (isSome_standIn?_iff.mp (by rw [hstand]; rfl)), Option.map_some,
        (position_standIn? hstand).2]

/-- The lines of jumps that land nowhere, without the layout. -/
theorem mem_unresolvedLines_iff {t : Tree} {line : Nat} :
    line ∈ t.unresolvedLines t.layout ↔ ∃ id, t.LeadsNowhere id ∧ (t.statement id).line = line := by
  have hnone : ∀ y, t.standIn? y = none ↔ ∀ x ∈ t.nodesFrom y, (t.statement x).isExecutable = false := by
    intro y
    simp [standIn?, List.find?_eq_none]
  unfold unresolvedLines LeadsNowhere
  rw [List.mem_filterMap]
  constructor
  · intro h
    obtain ⟨id, hid, hline⟩ := h
    cases htarget : (t.node id).target with
    | none => simp [htarget] at hline
    | some y =>
        cases hstand : t.standIn? y with
        | none =>
            simp only [htarget, landing?_eq_map, hstand, Option.map_none, Option.isSome_none,
              if_neg Bool.false_ne_true, Option.some.injEq] at hline
            exact ⟨id, ⟨hid, y, htarget, (hnone y).mp hstand⟩, hline⟩
        | some z => simp [htarget, landing?_eq_map, hstand] at hline
  · intro h
    obtain ⟨id, ⟨hid, y, htarget, hrest⟩, hline⟩ := h
    refine ⟨id, hid, ?_⟩
    simp [htarget, landing?_eq_map, (hnone y).mpr hrest, hline]

/-- The numbers of the executable nodes. -/
theorem indices_setIndices (t : Tree) :
    (t.executables.map fun id => (t.setIndices.node id).index)
      = (List.range t.executables.length).map some := by
  refine List.ext_getElem (by simp) fun k hk _ => ?_
  rw [List.length_map] at hk
  rw [List.getElem_map, List.getElem_map, List.getElem_range]
  exact index_setIndices (List.getElem?_eq_getElem hk)

/-- The least line that is reported, in terms of the order. -/
theorem min?_unresolvedLines_eq_some_iff {t : Tree} {line : Nat} :
    (t.unresolvedLines t.layout).min? = some line ↔
      IsLeast {line | ∃ id, t.LeadsNowhere id ∧ (t.statement id).line = line} line := by
  rw [List.min?_eq_some_iff, mem_unresolvedLines_iff]
  refine and_congr_right fun _ => forall_congr' fun other => ?_
  rw [mem_unresolvedLines_iff]
  rfl

/-- No line is reported when every jump leads somewhere. -/
theorem min?_unresolvedLines_eq_none_iff {t : Tree} :
    (t.unresolvedLines t.layout).min? = none ↔ ∀ id, ¬ t.LeadsNowhere id := by
  rw [List.min?_eq_none_iff, List.eq_nil_iff_forall_not_mem]
  constructor
  · intro h id hid
    exact h _ (mem_unresolvedLines_iff.mpr ⟨id, hid, rfl⟩)
  · intro h line hline
    obtain ⟨id, hid, -⟩ := mem_unresolvedLines_iff.mp hline
    exact h id hid

/-- Numbering fails at the least line of a jump that leads nowhere. -/
theorem assignIndices_eq_error_iff {t : Tree} {failure : Failure} :
    t.assignIndices.2 = .error failure ↔ ∃ line, failure = .unresolvedJump line ∧
      IsLeast {line | ∃ id, t.LeadsNowhere id ∧ (t.statement id).line = line} line := by
  simp only [← min?_unresolvedLines_eq_some_iff, assignIndices_eq]
  cases (t.unresolvedLines t.layout).min? with
  | none => simp
  | some line => simp [eq_comm]

/-- Numbering succeeds when every jump leads somewhere, and gives the table of the walk. -/
theorem assignIndices_eq_ok_iff {t : Tree} {table : List (Nat × Nat)} :
    t.assignIndices.2 = .ok table ↔ (∀ id, ¬ t.LeadsNowhere id) ∧ table = t.numbering.table := by
  rw [← min?_unresolvedLines_eq_none_iff, assignIndices_eq]
  cases (t.unresolvedLines t.layout).min? with
  | none => simp [eq_comm]
  | some line => simp

/-- The executable nodes are numbered from zero on in the order of the tree. Numbering fails exactly when
some jump leads nowhere, and it reports the least line of such a jump. Otherwise its table has, for each
executable node with a target, the number of the first executable node from the target on, and for each
auxiliary node the number of executable nodes before it; and it has nothing else. -/
theorem assignIndices_resolves (t : Tree) :
    (t.executables.map fun id => (t.assignIndices.1.node id).index)
      = (List.range t.executables.length).map some ∧
    ((∃ failure, t.assignIndices.2 = .error failure) ↔ ∃ id, t.LeadsNowhere id) ∧
    (∀ failure, t.assignIndices.2 = .error failure → ∃ line, failure = .unresolvedJump line ∧
      IsLeast {line | ∃ id, t.LeadsNowhere id ∧ (t.statement id).line = line} line) ∧
    ∀ table, t.assignIndices.2 = .ok table →
      (∀ id ∈ t.executables, ∀ y, (t.node id).target = some y → ∃ z position,
        t.standIn? y = some z ∧ (t.assignIndices.1.node z).index = some position ∧
          table.lookup id = some position) ∧
      (∀ id ∈ t.preorder, (t.statement id).isAuxiliary = true →
        table.lookup id = some (t.position id)) ∧
      ∀ id position, table.lookup id = some position → id ∈ t.preorder ∧
        ((t.statement id).isAuxiliary = true ∨
          (t.statement id).isExecutable = true ∧ (t.node id).target.isSome = true) := by
  have htree : t.assignIndices.1 = t.setIndices := by rw [assignIndices_eq]
  rw [htree]
  refine ⟨t.indices_setIndices, ?_, fun _ => assignIndices_eq_error_iff.mp, ?_⟩
  · constructor
    · intro hfails
      obtain ⟨failure, hfailure⟩ := hfails
      obtain ⟨line, -, ⟨id, hid, -⟩, -⟩ := assignIndices_eq_error_iff.mp hfailure
      exact ⟨id, hid⟩
    · intro hnowhere
      obtain ⟨id, hid⟩ := hnowhere
      cases hresult : t.assignIndices.2 with
      | error failure => exact ⟨failure, rfl⟩
      | ok table => exact absurd hid ((assignIndices_eq_ok_iff.mp hresult).1 id)
  · intro table htable
    obtain ⟨hall, rfl⟩ := assignIndices_eq_ok_iff.mp htable
    refine ⟨?_, fun id => lookup_table_of_auxiliary, fun id position => of_lookup_table⟩
    intro id hid y htarget
    cases hstand : t.standIn? y with
    | none =>
        -- nothing is executed from the target on, so the jump would lead nowhere
        refine absurd ⟨hid, y, htarget, ?_⟩ (hall id)
        simpa [standIn?, List.find?_eq_none] using hstand
    | some z =>
        refine ⟨z, _, rfl, index_position (position_standIn? hstand).1, ?_⟩
        rw [lookup_table_of_executable hid, htarget, Option.bind_some, landing?_eq_map, hstand,
          Option.map_some]

end Tree

end MissionScript
