import MissionScript.Proofs.Lowering.Return

/-!
# MissionScript.Proofs.Lowering.Jumps

The hidden jumps at the ends of blocks.

`addJumps_spec` says how the second step of lowering changes a tree (`Jumped`): each block for which
`hiddenJump?` asks gets one more child, a hidden jump that leads to the given node, and nothing else
changes.

A block may ask for a jump at its end: a loop goes back to its head, and a branch that another
branch follows goes on at the end of the construct. The step collects these jumps first and adds
them afterwards, so that the nodes it looks at are still those of the source. Since no two of the
jumps are in one block, the order in which they are added does not matter.
-/

namespace MissionScript

/-- The statement is a hidden jump. -/
structure Statement.IsHiddenJump (s : Statement) : Prop where
  id?_eq : s.id? = some CommandId.hiddenJump
  executable : s.isExecutable = true

namespace Tree

/-- How the second step of lowering changes a tree. -/
structure Jumped (t t' : Tree) : Prop where
  grows : t.Grows t'
  sound : t'.Sound
  symbols_eq : t'.symbols = t.symbols
  node_eq : ∀ id < t.size, t'.node id = t.node id
  children_same : ∀ p, p ∉ t.preorder ∨ t.hiddenJump? p = none → t'.children p = t.children p
  children_jump : ∀ p ∈ t.preorder, ∀ jump, t.hiddenJump? p = some jump →
    ∃ id, t.size ≤ id ∧ t'.children p = t.children p ++ [id] ∧
      (t'.node id).target = some jump.target
  jump_of_added : ∀ id, t.size ≤ id → id < t'.size →
    (t'.statement id).IsHiddenJump ∧ ∃ p ∈ t.preorder, ∃ jump, t.hiddenJump? p = some jump ∧
      (t'.node id).parent = some p ∧ (t'.node id).target = some jump.target

/-- The node of a hidden jump. -/
def jumpNode (d : Definition) (slot : Slot) (jump : HiddenJump) : Node :=
  { statement := jumpStatement d slot jump.line, target := some jump.target }

/-- Adds a list of hidden jumps. -/
def withJumps (d : Definition) (slot : Slot) (t : Tree) (jumps : List HiddenJump) : Tree :=
  jumps.foldl (fun t jump => t.addNode jump.block (jumpNode d slot jump)) t

theorem withJumps_cons (d : Definition) (slot : Slot) (t : Tree) (jump : HiddenJump)
    (jumps : List HiddenJump) :
    t.withJumps d slot (jump :: jumps)
      = (t.addNode jump.block (jumpNode d slot jump)).withJumps d slot jumps := rfl

/-! ### What stays

New nodes come behind the old ones, and a node only gets another child if a jump is in its block. -/

section

variable {d : Definition} {slot : Slot} {t : Tree} {jumps : List HiddenJump}

theorem size_withJumps : (t.withJumps d slot jumps).size = t.size + jumps.length := by
  induction jumps generalizing t with
  | nil => rfl
  | cons jump jumps ih =>
      rw [withJumps_cons, ih, size_addNode, List.length_cons]
      omega

theorem symbols_withJumps : (t.withJumps d slot jumps).symbols = t.symbols := by
  induction jumps generalizing t with
  | nil => rfl
  | cons jump jumps ih =>
      rw [withJumps_cons, ih]
      rfl

theorem node_withJumps_of_lt {id : Nat} (hid : id < t.size) :
    (t.withJumps d slot jumps).node id = t.node id := by
  induction jumps generalizing t with
  | nil => rfl
  | cons jump jumps ih =>
      rw [withJumps_cons, ih (by rw [size_addNode]; omega), node_addNode_of_lt hid]

/-- All old nodes stay as they are. -/
theorem grows_withJumps : t.Grows (t.withJumps d slot jumps) where
  size_le := by rw [size_withJumps]; omega
  parent_eq id hid := by rw [node_withJumps_of_lt hid]
  statement_eq id hid := by rw [statement, node_withJumps_of_lt hid, statement]

/-- The tree stays sound, since every jump goes into a block that is there. -/
theorem sound_withJumps (hs : t.Sound) (hblocks : ∀ j ∈ jumps, j.block < t.size) :
    (t.withJumps d slot jumps).Sound := by
  induction jumps generalizing t with
  | nil => exact hs
  | cons jump jumps ih =>
      rw [withJumps_cons]
      refine ih (hs.addNode (hblocks jump List.mem_cons_self) _) fun j hj => ?_
      have := hblocks j (List.mem_cons_of_mem _ hj)
      rw [size_addNode]
      omega

theorem children_withJumps_of_ne (hblocks : ∀ j ∈ jumps, j.block < t.size) {p : Nat}
    (hp : ∀ j ∈ jumps, j.block ≠ p) : (t.withJumps d slot jumps).children p = t.children p := by
  induction jumps generalizing t with
  | nil => rfl
  | cons jump jumps ih =>
      have hne : p ≠ jump.block := (hp jump List.mem_cons_self).symm
      rw [withJumps_cons, ih, children_addNode t (hblocks jump List.mem_cons_self), if_neg hne,
        List.append_nil]
      · intro j hj
        have := hblocks j (List.mem_cons_of_mem _ hj)
        rw [size_addNode]
        omega
      · exact fun j hj => hp j (List.mem_cons_of_mem _ hj)

/-! ### What is added

Which node number a jump gets depends on the order of the jumps; what it is does not. -/

/-- A block that has one jump in the list gets one child. -/
theorem children_withJumps (hblocks : ∀ j ∈ jumps, j.block < t.size)
    (hdistinct : jumps.Pairwise fun a b => a.block ≠ b.block) {jump : HiddenJump}
    (hjump : jump ∈ jumps) :
    ∃ id, t.size ≤ id ∧
      (t.withJumps d slot jumps).children jump.block = t.children jump.block ++ [id] ∧
      (t.withJumps d slot jumps).node id
        = { jumpNode d slot jump with parent := some jump.block } := by
  induction jumps generalizing t with
  | nil => cases hjump
  | cons first rest ih =>
      obtain ⟨hfirst, hrest⟩ := List.pairwise_cons.mp hdistinct
      have hblock := hblocks first List.mem_cons_self
      have hblocks' : ∀ j ∈ rest,
          j.block < (t.addNode first.block (jumpNode d slot first)).size := by
        intro j hj
        have := hblocks j (List.mem_cons_of_mem _ hj)
        rw [size_addNode]
        omega
      rw [withJumps_cons]
      rcases List.mem_cons.mp hjump with rfl | hmem
      · refine ⟨t.size, Nat.le_refl _, ?_, ?_⟩
        · rw [children_withJumps_of_ne hblocks' fun j hj => (hfirst j hj).symm,
            children_addNode t hblock, if_pos rfl]
        · rw [node_withJumps_of_lt (by rw [size_addNode]; omega), node_addNode, if_pos rfl]
      · obtain ⟨id, hle, hchildren, hnode⟩ := ih hblocks' hrest hmem
        rw [size_addNode] at hle
        refine ⟨id, by omega, ?_, hnode⟩
        rw [hchildren, children_addNode t hblock, if_neg (hfirst jump hmem).symm, List.append_nil]

/-- Every node that is new is a jump of the list. -/
theorem node_withJumps_of_le {id : Nat} (hle : t.size ≤ id)
    (hlt : id < (t.withJumps d slot jumps).size) :
    ∃ jump ∈ jumps, (t.withJumps d slot jumps).node id
      = { jumpNode d slot jump with parent := some jump.block } := by
  induction jumps generalizing t with
  | nil => exact absurd hlt (Nat.not_lt.mpr hle)
  | cons first rest ih =>
      rw [withJumps_cons] at hlt ⊢
      rcases Nat.eq_or_lt_of_le hle with rfl | hlt'
      · refine ⟨first, List.mem_cons_self, ?_⟩
        rw [node_withJumps_of_lt (by rw [size_addNode]; omega), node_addNode, if_pos rfl]
      · obtain ⟨jump, hmem, hnode⟩ := ih (by rw [size_addNode]; omega) hlt
        exact ⟨jump, List.mem_cons_of_mem _ hmem, hnode⟩

end

/-! ### The step

It fails only if the catalog has no hidden jump, and a reachable catalog has one. -/

/-- A node asks for a jump at its own end. -/
theorem block_of_hiddenJump? {t : Tree} {id : Nat} {jump : HiddenJump}
    (h : t.hiddenJump? id = some jump) : jump.block = id := by
  unfold hiddenJump? at h
  split at h
  · cases h
  · split at h
    · obtain ⟨next, -, h⟩ := Option.bind_eq_some_iff.mp h
      split at h
      · obtain ⟨target, -, h⟩ := Option.bind_eq_some_iff.mp h
        cases h
        rfl
      · cases h
    · obtain ⟨next, -, h⟩ := Option.bind_eq_some_iff.mp h
      split at h
      · obtain ⟨target, -, h⟩ := Option.bind_eq_some_iff.mp h
        cases h
        rfl
      · cases h
    · cases h
      rfl
    · cases h
      rfl
    · cases h
      rfl
    · cases h

/-- The statement that is added is a hidden jump. -/
theorem isHiddenJump_jumpStatement {d : Definition} (hid : d.id = CommandId.hiddenJump)
    (hkind : d.kind = .standard) (slot : Slot) (line : Nat) :
    (jumpStatement d slot line).IsHiddenJump := by
  have hflow : (jumpStatement d slot line).flow = .plain := by
    simp only [jumpStatement, Statement.added, Statement.ofLine, Option.map_some, hid]
    decide
  have hcommand : (jumpStatement d slot line).command = some d := rfl
  have hcommented : (jumpStatement d slot line).commented = false := rfl
  refine ⟨by rw [Statement.id?, hcommand, Option.map_some, hid], ?_⟩
  simp [Statement.isExecutable, Statement.isVirtual, Statement.kind?, hflow, hcommand, hcommented,
    hkind]

/-- The step adds just the jumps that the nodes of the order ask for. -/
theorem addJumps_eq {lang : Language} {t : Tree} {d : Definition} {slot : Slot}
    (hd : addedCommand lang CommandId.hiddenJump = .ok d)
    (hslot : firstSlot d .noJumpLabel = .ok slot) :
    t.addJumps lang = .ok (t.withJumps d slot (t.preorder.filterMap t.hiddenJump?)) := by
  unfold addJumps
  dsimp only
  split
  · next hempty =>
    rw [List.isEmpty_iff.mp hempty]
    rfl
  · rw [hd]
    simp only [bind, Except.bind, hslot]
    rfl

/-- The second step of lowering succeeds, and adds the hidden jumps that the blocks ask for. -/
theorem addJumps_spec {lang : Language} (hcat : lang.catalog.Reachable) {t : Tree}
    (hs : t.Sound) : ∃ t', t.addJumps lang = .ok t' ∧ t.Jumped t' := by
  obtain ⟨d, slot, hd, hid, hkind, hslot⟩ :=
    addedCommand_builtin hcat (Or.inr rfl) .noJumpLabel
  refine ⟨_, addJumps_eq hd hslot, ?_⟩
  -- what is added are the jumps that blocks of the tree ask for, one for each
  have hmem : ∀ j ∈ t.preorder.filterMap t.hiddenJump?,
      j.block ∈ t.preorder ∧ t.hiddenJump? j.block = some j := by
    intro j hj
    obtain ⟨id, hid, hjump⟩ := List.mem_filterMap.mp hj
    have hblock := block_of_hiddenJump? hjump
    rw [hblock]
    exact ⟨hid, hjump⟩
  have hblocks : ∀ j ∈ t.preorder.filterMap t.hiddenJump?, j.block < t.size :=
    fun j hj => ((mem_preorder_iff hs).mp (hmem j hj).1).2
  have hdistinct : (t.preorder.filterMap t.hiddenJump?).Pairwise
      fun a b => a.block ≠ b.block := by
    rw [List.pairwise_filterMap]
    refine (nodup_preorder _).imp ?_
    intro a b hab x hx y hy
    rw [block_of_hiddenJump? hx, block_of_hiddenJump? hy]
    exact hab
  exact {
    grows := grows_withJumps
    sound := sound_withJumps hs hblocks
    symbols_eq := symbols_withJumps
    node_eq := fun id hlt => node_withJumps_of_lt hlt
    children_same := fun p hp => by
      refine children_withJumps_of_ne hblocks fun j hj hjp => ?_
      subst hjp
      rcases hp with hnot | hnone
      · exact hnot (hmem j hj).1
      · rw [(hmem j hj).2] at hnone
        cases hnone
    children_jump := fun p hp jump hjump => by
      have hblock := block_of_hiddenJump? hjump
      have hmem : jump ∈ t.preorder.filterMap t.hiddenJump? := List.mem_filterMap.mpr ⟨p, hp, hjump⟩
      obtain ⟨id, hle, hchildren, hnode⟩ :=
        @children_withJumps d slot t _ hblocks hdistinct jump hmem
      rw [hblock] at hchildren
      exact ⟨id, hle, hchildren, by rw [hnode]; rfl⟩
    jump_of_added := fun id hle hlt => by
      obtain ⟨jump, hjump, hnode⟩ := node_withJumps_of_le hle hlt
      refine ⟨?_, jump.block, (hmem jump hjump).1, jump, (hmem jump hjump).2, ?_, ?_⟩
      · rw [statement, hnode]
        exact isHiddenJump_jumpStatement hid hkind slot jump.line
      · rw [hnode]
      · rw [hnode]
        rfl }

end Tree

end MissionScript
