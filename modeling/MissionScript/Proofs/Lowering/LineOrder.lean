import MissionScript.Proofs.Lowering.Additions
import MissionScript.Proofs.Lowering.Encoding
import MissionScript.Proofs.Script.Sequence

/-!
# MissionScript.Proofs.Lowering.LineOrder

The lines of the commands of a compiled script grow.

In the source every node stands for the line of its number (`Numbered`) and the nodes are in order
(`Sequenced`). The `return` that may be added stands on the line after the last one. A hidden jump stands
on the line of what follows its block, and just before it (`Steps.exists_next`). So the lines of two
commands are compared by comparing two nodes of the source (`Steps.exists_anchor`).

Only commands are compared, and not auxiliary nodes: a comment between a `skip if` and its command
comes after the command in the tree, so its line is not in order. Among commands that are no hidden
jumps, the lines are different; a hidden jump shares its line with the `end` or the branch behind
it, and this is the one case in which two lines are equal.
-/

namespace MissionScript

namespace Tree

/-- Every node stands for the line of its number. -/
def Numbered (t : Tree) : Prop := ∀ id, 0 < id → id < t.size → (t.statement id).line = id

/-! ### The line after the last

The numbers of lines and of nodes both count from one, so the next free line has the number of the
next node. -/

/-- The maximum of a list is bounded when all of it is. -/
theorem foldl_max_le_iff {l : List Nat} {f : Nat → Nat} {a b : Nat} :
    l.foldl (fun m x => max m (f x)) a ≤ b ↔ a ≤ b ∧ ∀ x ∈ l, f x ≤ b := by
  induction l generalizing a with
  | nil => simp
  | cons x l ih =>
      rw [List.foldl_cons, ih, List.forall_mem_cons, Nat.max_le, and_assoc]

/-- The line after the last has the number of the next node. -/
theorem lineAfter_eq {t : Tree} (hs : t.Sound) (h : t.Numbered) : t.lineAfter = t.size := by
  have hpos := hs.size_pos
  have hline : ∀ x ∈ t.preorder, (t.statement x).line = x := by
    intro x hx
    have hbounds := (mem_preorder_iff hs).mp hx
    exact h x hbounds.1 hbounds.2
  have hle : t.preorder.foldl (fun line id => max line (t.statement id).line) 0 ≤ t.size - 1 := by
    rw [foldl_max_le_iff]
    refine ⟨Nat.zero_le _, fun x hx => ?_⟩
    rw [hline x hx]
    have := (mem_preorder_iff hs).mp hx
    omega
  have hge : t.size - 1 ≤ t.preorder.foldl (fun line id => max line (t.statement id).line) 0 := by
    rcases Nat.eq_zero_or_pos (t.size - 1) with hzero | hlast
    · omega
    · have hmem : t.size - 1 ∈ t.preorder := (mem_preorder_iff hs).mpr ⟨hlast, by omega⟩
      have hall := (foldl_max_le_iff.mp (Nat.le_refl
        (t.preorder.foldl (fun line id => max line (t.statement id).line) 0))).2 _ hmem
      rwa [hline _ hmem] at hall
  unfold lineAfter
  omega

/-! ### The tree with its return

The return that is added comes last in the order and on the last line, so it fits in. -/

/-- The `return` that is added comes last. -/
theorem Returned.sequenced {t t₁ : Tree} {r : Nat} (h : t.Returned t₁ r) (hs : t.Sound)
    (hseq : t.Sequenced) : t₁.Sequenced := by
  intro x y hxy hx hy
  have hs₁ := h.nested.sound
  obtain ⟨hxmem, hymem⟩ := hxy.mem_preorder
  obtain ⟨hxpos, hxlt⟩ := (mem_preorder_iff hs₁).mp hxmem
  obtain ⟨hypos, hylt⟩ := (mem_preorder_iff hs₁).mp hymem
  have hne := hxy.ne
  have hsize := h.size_eq
  by_cases hxold : x < t.size
  · by_cases hyold : y < t.size
    · rw [h.grows.statement_eq x hxold] at hx
      rw [h.grows.statement_eq y hyold] at hy
      exact hseq x y ((h.grows.precedes_iff hs hs₁ hxold hyold).mp hxy) hx hy
    · omega
  · -- nothing comes later than the added return
    split at hsize
    · next hle =>
      have hxr : x = r := by
        have := h.eq_size hle
        omega
      have hroot : t₁.children root = t.children root ++ r :: [] := by
        rw [h.children_eq, if_pos ⟨rfl, hle⟩]
      have hchildren : t₁.children r = [] := by
        refine h.nested.children_eq_nil ?_ ?_ ?_
        · exact Nat.ne_of_gt (show 0 < r by omega)
        · rw [h.final.flow_eq]
          rfl
        · rw [h.final.flow_eq]
          simp
      subst hxr
      rw [precedes_iff hs₁ hxpos hxlt, hchildren, after_of_parent hs₁ h.final.parent_eq,
        later_of_children hroot, after_root hs₁] at hxy
      simp at hxy
    · omega

/-- A flow that continues a block is not that of an auxiliary statement. -/
theorem Nested.not_auxiliary_of_continuesBlock {t : Tree} {blocks : List Nat}
    {waiting : Option Nat} (h : t.Nested blocks waiting) {y : Nat} (hpos : 0 < y) (hlt : y < t.size)
    (hflow : (t.flow y).continuesBlock = true) : (t.statement y).isAuxiliary = false := by
  cases haux : (t.statement y).isAuxiliary with
  | false => rfl
  | true =>
      have hplain : t.flow y = .plain := (h.proper y hpos hlt).flow_of_auxiliary haux
      rw [hplain] at hflow
      cases hflow

namespace Steps

variable {lang : Language} {t t₁ t₂ t₃ : Tree} {r : Nat}

/-- With its return, every node still stands for its line. -/
theorem numbered_returned (h : Steps lang t t₁ t₂ t₃ r) (hn : t.Numbered) : t₁.Numbered := by
  intro id hpos hlt
  have hlt₃ : id < t₃.size := by
    have := h.prepared.size_le
    rw [h.shape.size_eq]
    omega
  have hstatement : t₃.statement id = t₁.statement id := by
    rw [h.shape.statement_eq, h.prepared.statement_eq hlt]
  rw [← hstatement]
  rcases h.node_cases hlt₃ with hold | ⟨hid, -, hreturn⟩ | ⟨p, -, jump, hle, -⟩
  · rw [h.grows.statement_eq id hold]
    exact hn id hpos hold
  · rw [(of_isAddedReturn hreturn).1, lineAfter_eq h.nested.sound hn, hid]
  · omega

/-! ### Where the hidden jumps stand

A hidden jump is the last node in its block. What comes after it in the order is what comes after
the block, which begins with the `end` or the branch that the jump has its line from. -/

/-- A hidden jump owns nothing. -/
theorem children_jump_eq_nil (h : Steps lang t t₁ t₂ t₃ r) {id : Nat} (hle : t₁.size ≤ id) :
    t₂.children id = [] := by
  rw [List.eq_nil_iff_forall_not_mem]
  intro c hc
  obtain ⟨hlt, hidc, hparent⟩ := mem_children.mp hc
  obtain ⟨-, p, hp, -, -, hparent', -⟩ := h.prepared.jumped.jump_of_added c (by omega) hlt
  rw [hparent] at hparent'
  cases hparent'
  have := ((mem_preorder_iff h.returned.nested.sound).mp hp).2
  omega

/-- A hidden jump stands just before what follows its block, and on its line. -/
theorem exists_next (h : Steps lang t t₁ t₂ t₃ r) {id : Nat} (hle : t₁.size ≤ id)
    (hlt : id < t₂.size) :
    ∃ y, 0 < y ∧ y < t₁.size ∧ (t₁.statement y).isAuxiliary = false ∧
      (t₂.statement id).line = (t₁.statement y).line ∧
      ∀ z, t₂.Precedes id z ↔ z ∈ t₂.onward y := by
  have hs₁ := h.returned.nested.sound
  have hs₂ := h.prepared.sound
  obtain ⟨p, hp, jump, hjump, hparent, hadded⟩ := jump_of_addJumps h.addJumps_eq hle hlt
  obtain ⟨hppos, hplt⟩ := (mem_preorder_iff hs₁).mp hp
  obtain ⟨q, before, y, rest, hc, hcontinues, hline⟩ :=
    exists_next_of_hiddenJump? h.returned.nested hppos hplt hjump
  have hy := mem_children.mp (show y ∈ t₁.children q by rw [hc]; simp)
  refine ⟨y, by omega, hy.1,
    h.returned.nested.not_auxiliary_of_continuesBlock (by omega) hy.1 hcontinues, ?_, ?_⟩
  · rw [(of_isAddedJump hadded).1, hline]
  -- the jump is the last child of the block
  have hlast : t₂.children p = t₁.children p ++ id :: [] := by
    obtain ⟨id', -, hchildren, -⟩ := h.prepared.jumped.children_jump p hp jump hjump
    have hmem : id ∈ t₂.children p := hs₂.mem_children_iff.mpr hparent
    rw [hchildren] at hmem ⊢
    rcases List.mem_append.mp hmem with hold | hnew
    · have := (mem_children.mp hold).1
      omega
    · rw [List.mem_singleton.mp hnew]
  have hafter : t₂.after id = t₂.onward y := by
    obtain ⟨added, hsiblings⟩ := h.prepared.exists_children q
    rw [hc, List.append_assoc, List.cons_append] at hsiblings
    rw [after_of_parent hs₂ hparent, later_of_children hlast, List.flatMap_nil, List.nil_append,
      after_of_later hs₂ (later_of_children hsiblings)]
  intro z
  rw [precedes_iff hs₂ (by omega) hlt, h.children_jump_eq_nil hle, List.flatMap_nil,
    List.nil_append, hafter]

/-- The line of a node is that of a node of the source, which comes with it or just after it. -/
theorem exists_anchor (h : Steps lang t t₁ t₂ t₃ r) (hn : t.Numbered) {x : Nat} (hpos : 0 < x)
    (hlt : x < t₂.size) (haux : (t₂.statement x).isAuxiliary = false) :
    ∃ y, 0 < y ∧ y < t₁.size ∧ (t₁.statement y).isAuxiliary = false ∧ (t₂.statement x).line = y ∧
      (x = y ∨ t₂.Precedes x y) ∧ ∀ z, t₂.Precedes x z → z = y ∨ t₂.Precedes y z := by
  by_cases hold : x < t₁.size
  · rw [h.prepared.statement_eq hold] at haux ⊢
    exact ⟨x, hpos, hold, haux, h.numbered_returned hn x hpos hold, Or.inl rfl, fun z => Or.inr⟩
  · obtain ⟨y, hypos, hylt, hyaux, hline, hnext⟩ := h.exists_next (Nat.le_of_not_lt hold) hlt
    have hylt₂ := Nat.lt_of_lt_of_le hylt h.prepared.size_le
    refine ⟨y, hypos, hylt, hyaux, hline.trans (h.numbered_returned hn y hypos hylt),
      Or.inr ((hnext y).mpr (self_mem_onward t₂ y)), ?_⟩
    intro z hz
    rw [hnext, onward_eq_cons, List.mem_cons, ← precedes_iff h.prepared.sound hypos hylt₂] at hz
    exact hz

/-! ### Lines grow

Two commands are compared by their anchors. The anchor of a node of the source is the node itself,
and that of a hidden jump is what comes right after it, so going from one to the other changes no
order. -/

/-- The nodes of the source and the added `return` are on different lines. -/
theorem lt_of_precedes (h : Steps lang t t₁ t₂ t₃ r) (hseq : t.Sequenced) {x y : Nat}
    (hxy : t₂.Precedes x y) (hx : x < t₁.size) (hy : y < t₁.size)
    (hxaux : (t₁.statement x).isAuxiliary = false) (hyaux : (t₁.statement y).isAuxiliary = false) :
    x < y :=
  h.returned.sequenced h.nested.sound hseq x y
    ((h.prepared.jumped.grows.precedes_iff h.returned.nested.sound h.prepared.sound hx hy).mp hxy)
    hxaux hyaux

/-- A later command does not have an earlier line. -/
theorem line_le_of_precedes (h : Steps lang t t₁ t₂ t₃ r) (hn : t.Numbered) (hseq : t.Sequenced)
    {x z : Nat} (hxz : t₂.Precedes x z) (hx : (t₂.statement x).isAuxiliary = false)
    (hz : (t₂.statement z).isAuxiliary = false) :
    (t₂.statement x).line ≤ (t₂.statement z).line := by
  have hs₂ := h.prepared.sound
  obtain ⟨hxmem, hzmem⟩ := hxz.mem_preorder
  obtain ⟨hxpos, hxlt⟩ := (mem_preorder_iff hs₂).mp hxmem
  obtain ⟨hzpos, hzlt⟩ := (mem_preorder_iff hs₂).mp hzmem
  obtain ⟨x', -, hx'lt, hx'aux, hxline, -, hxnext⟩ := h.exists_anchor hn hxpos hxlt hx
  obtain ⟨z', -, hz'lt, hz'aux, hzline, hzat, -⟩ := h.exists_anchor hn hzpos hzlt hz
  rw [hxline, hzline]
  have hanchors : z' = x' ∨ t₂.Precedes x' z' := by
    rcases hzat with rfl | hzz'
    · exact hxnext z hxz
    · exact hxnext z' (hxz.trans hzz')
  rcases hanchors with rfl | hprecedes
  · exact Nat.le_refl _
  · exact Nat.le_of_lt (h.lt_of_precedes hseq hprecedes hx'lt hz'lt hx'aux hz'aux)

/-- What holds of two executable nodes in their order holds of two commands. -/
theorem pairwise_commands (t₃ : Tree) {Q : Nat × Option Nat → Nat × Option Nat → Prop}
    (hQ : ∀ x y, t₃.Precedes x y → (t₃.statement x).isExecutable = true →
      (t₃.statement y).isExecutable = true →
      Q ((t₃.statement x).line, (t₃.statement x).id?) ((t₃.statement y).line, (t₃.statement y).id?)) :
    (t₃.emit t₃.layout).commands.Pairwise
      fun c d => Q (c.line, some c.id) (d.line, some d.id) := by
  have horder : t₃.executables.Pairwise fun x y =>
      Q ((t₃.statement x).line, (t₃.statement x).id?)
        ((t₃.statement y).line, (t₃.statement y).id?) := by
    rw [executables, List.pairwise_filter, pairwise_preorder_iff]
    exact hQ
  rw [← List.pairwise_map (f := fun id => ((t₃.statement id).line, (t₃.statement id).id?)) (R := Q),
    ← origins_emit, List.pairwise_map] at horder
  exact horder

/-- The lines of the commands do not decrease. -/
theorem pairwise_line (h : Steps lang t t₁ t₂ t₃ r) (hn : t.Numbered) (hseq : t.Sequenced) :
    (t₃.emit t₃.layout).commands.Pairwise fun c d => c.line ≤ d.line := by
  refine pairwise_commands t₃ (Q := fun c d => c.1 ≤ d.1) ?_
  intro x y hxy hx hy
  rw [h.shape.statement_eq] at hx hy
  rw [h.shape.statement_eq, h.shape.statement_eq]
  refine h.line_le_of_precedes hn hseq ?_ (Statement.isAuxiliary_eq_false_of_isExecutable hx)
    (Statement.isAuxiliary_eq_false_of_isExecutable hy)
  obtain ⟨rest, hsuffix, hmem⟩ := hxy
  exact ⟨rest, h.shape.preorder_eq ▸ hsuffix, hmem⟩

/-- A node that is no hidden jump is one of the source, or the added `return`. -/
theorem lt_of_not_jump (h : Steps lang t t₁ t₂ t₃ r) {x : Nat} (hlt : x < t₃.size)
    (hid : (t₃.statement x).id? ≠ some CommandId.hiddenJump) : x < t₁.size := by
  rw [h.shape.size_eq] at hlt
  rw [h.shape.statement_eq] at hid
  by_contra hnot
  exact hid (h.prepared.jumped.jump_of_added x (Nat.le_of_not_lt hnot) hlt).1.id?_eq

/-- The lines of the commands that are no hidden jumps grow. -/
theorem pairwise_line_lt (h : Steps lang t t₁ t₂ t₃ r) (hn : t.Numbered) (hseq : t.Sequenced) :
    (t₃.emit t₃.layout).commands.Pairwise fun c d =>
      c.id ≠ CommandId.hiddenJump → d.id ≠ CommandId.hiddenJump → c.line < d.line := by
  have hpairwise := pairwise_commands t₃ (Q := fun c d =>
    c.2 ≠ some CommandId.hiddenJump → d.2 ≠ some CommandId.hiddenJump → c.1 < d.1) ?_
  · simpa using hpairwise
  intro x y hxy hx hy hxid hyid
  obtain ⟨hxmem, hymem⟩ := hxy.mem_preorder
  obtain ⟨hxpos, hxlt₃⟩ := (mem_preorder_iff h.sound).mp hxmem
  obtain ⟨hypos, hylt₃⟩ := (mem_preorder_iff h.sound).mp hymem
  have hxlt := h.lt_of_not_jump hxlt₃ hxid
  have hylt := h.lt_of_not_jump hylt₃ hyid
  have hold : ∀ {z}, z < t₁.size → t₃.statement z = t₁.statement z := by
    intro z hz
    rw [h.shape.statement_eq, h.prepared.statement_eq hz]
  have hprecedes : t₂.Precedes x y := by
    obtain ⟨rest, hsuffix, hmem⟩ := hxy
    exact ⟨rest, h.shape.preorder_eq ▸ hsuffix, hmem⟩
  dsimp only
  rw [hold hxlt] at hx ⊢
  rw [hold hylt] at hy ⊢
  rw [h.numbered_returned hn x hxpos hxlt, h.numbered_returned hn y hypos hylt]
  exact h.lt_of_precedes hseq hprecedes hxlt hylt
    (Statement.isAuxiliary_eq_false_of_isExecutable hx)
    (Statement.isAuxiliary_eq_false_of_isExecutable hy)

end Steps

end Tree

end MissionScript
