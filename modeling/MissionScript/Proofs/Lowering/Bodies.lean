import MissionScript.Proofs.Lowering.Structured
import MissionScript.Proofs.Lowering.Success

/-!
# MissionScript.Proofs.Lowering.Bodies

What lowering makes of the bodies of a tree, said in terms of the tree before.

A body stays what it was, except that it may end with one more node: the final return at the end of
the script (`Lowered.children_root`), a jump back at the end of a loop (`Lowered.children_loop`), and a
jump to the `end` after a branch that another one follows (`Lowered.children_branch`).

Nodes that are added have larger numbers than those of the source and come last in their body, so a
body of the source is the beginning of what it becomes. What follows a node in the order can then be
said in terms of its later siblings and what comes after the block around it (`ahead`).
-/

namespace MissionScript

namespace Tree

/-- The node is a hidden jump to `y`. -/
structure JumpsTo (t : Tree) (j y : Nat) : Prop where
  mem : j ∈ t.preorder
  hidden : (t.statement j).IsHiddenJump
  target_eq : (t.node j).target = some y

/-- What stands ahead when the children `rest` of `p` are still to come. -/
def ahead (t : Tree) (p : Nat) (rest : List Nat) : List Nat := rest.flatMap t.subtree ++ t.after p

/-- After the last child comes what comes after the block. -/
theorem ahead_nil (t : Tree) (p : Nat) : t.ahead p [] = t.after p := rfl

/-- The next child comes first, with its body, and then the others. -/
theorem ahead_cons (t : Tree) (p id : Nat) (rest : List Nat) :
    t.ahead p (id :: rest) = id :: ((t.children id).flatMap t.subtree ++ t.ahead p rest) := by
  rw [ahead, List.flatMap_cons, subtree_eq, List.append_assoc, List.cons_append, ahead]

/-- From a node on, it is followed by its body. -/
theorem onward_eq_cons_ahead (t : Tree) (id : Nat) :
    t.onward id = id :: t.ahead id (t.children id) :=
  onward_eq_cons t id

/-! ### Which blocks ask for a hidden jump

A loop always does, and a branch when another branch follows it. -/

section

variable {t : Tree} {id : Nat}

/-- A loop asks for a jump to itself. -/
theorem hiddenJump?_loop (hcommented : (t.statement id).commented = false)
    (hloop : (t.flow id).isLoop = true) :
    ∃ jump, t.hiddenJump? id = some jump ∧ jump.target = id := by
  unfold hiddenJump?
  rw [hcommented, if_neg Bool.false_ne_true]
  revert hloop
  cases t.flow id <;> simp [Flow.isLoop]

/-- A branch before another one asks for a jump to the `end`. -/
theorem hiddenJump?_branch (hcommented : (t.statement id).commented = false)
    (hflow : t.flow id = .ifBlock ∨ t.flow id = .elseIfBlock) {c e : Nat}
    (hnext : t.nextSibling? id = some c) (hc : t.flow c = .elseIfBlock ∨ t.flow c = .elseBlock)
    (hend : t.findEnd? id = some e) :
    ∃ jump, t.hiddenJump? id = some jump ∧ jump.target = e := by
  refine ⟨⟨id, e, (t.statement c).line⟩, ?_, rfl⟩
  unfold hiddenJump?
  rw [hcommented, if_neg Bool.false_ne_true, hnext, hend]
  rcases hflow with hf | hf <;> rw [hf] <;> exact if_pos hc

/-- The last branch asks for none. -/
theorem hiddenJump?_last (hflow : t.flow id = .ifBlock ∨ t.flow id = .elseIfBlock) {e : Nat}
    (hnext : t.nextSibling? id = some e) (he : t.flow e = .blockEnd) : t.hiddenJump? id = none := by
  have hnot : ¬ (t.flow e = .elseIfBlock ∨ t.flow e = .elseBlock) := by
    rw [he]
    decide
  unfold hiddenJump?
  split
  · rfl
  · rw [hnext]
    rcases hflow with hf | hf <;> rw [hf] <;> exact if_neg hnot

end

namespace Lowered

variable {t t₁ t₂ t₃ : Tree} {r : Nat}

/-! ### The nodes of the source

They are there with their statements and their parents, and with at least the children that they
had. -/

/-- Lowering only adds nodes. -/
theorem grows (h : Lowered t t₁ t₂ t₃ r) : t.Grows t₃ :=
  h.returned.grows.trans (h.prepared.jumped.grows.trans h.shape.grows)

/-- Children are added behind those of the source. -/
theorem exists_children (h : Lowered t t₁ t₂ t₃ r) (p : Nat) :
    ∃ added, t₃.children p = t.children p ++ added := by
  obtain ⟨added, heq, -⟩ := h.grows.exists_children_eq p
  exact ⟨added, heq⟩

/-- A node keeps its later siblings, and more may follow them. -/
theorem exists_later (h : Lowered t t₁ t₂ t₃ r) {id p : Nat} (hp : (t.node id).parent = some p)
    {added : List Nat} (hadded : t₃.children p = t.children p ++ added) :
    (∃ before, t.children p = before ++ t.later id) ∧
      t₃.after id = t₃.ahead p (t.later id ++ added) := by
  obtain ⟨before, hc⟩ := exists_children_eq (h.nested.sound.mem_children_iff.mpr hp)
  have hc' : t₃.children p = before ++ id :: (t.later id ++ added) := by
    rw [hadded, hc]
    simp
  refine ⟨⟨before ++ [id], by rw [List.append_assoc, List.singleton_append]; exact hc⟩, ?_⟩
  rw [after_of_parent h.sound (parent_of_children_eq hc'), later_of_children hc', ahead]

/-- What follows a node begins with its next sibling. -/
theorem after_eq_onward (h : Lowered t t₁ t₂ t₃ r) {p id y : Nat} {before rest : List Nat}
    (hc : t.children p = before ++ id :: y :: rest) : t₃.after id = t₃.onward y := by
  obtain ⟨added, hadded⟩ := h.exists_children p
  have hc' : t₃.children p = before ++ id :: y :: (rest ++ added) := by
    rw [hadded, hc]
    simp
  exact after_of_later h.sound (later_of_children hc')

/-- What takes part in the flow of control is not commented out. -/
theorem commented_of_flow (h : Lowered t t₁ t₂ t₃ r) {id : Nat} (hpos : 0 < id)
    (hplain : t.flow id ≠ .plain) : (t₁.statement id).commented = false := by
  have hlt := lt_size_of_flow hplain
  rw [h.returned.grows.statement_eq id hlt]
  exact (h.nested.proper id hpos hlt).commented_of_flow hplain

/-! ### Bodies

The root is the only node that the return is added to, and hidden jumps are added to blocks. So a
body is added to in at most one of the two steps. -/

/-- A return is added at the end of the script, if anything is. -/
theorem children_root (h : Lowered t t₁ t₂ t₃ r) :
    t₃.children root = t.children root ++ if t.size ≤ r then [r] else [] := by
  rw [h.shape.children_eq, h.prepared.children_root, h.returned.children_eq]
  simp

/-- No other node gets a child with it. -/
theorem children_returned (h : Lowered t t₁ t₂ t₃ r) {p : Nat} (hp : p ≠ root) :
    t₁.children p = t.children p := by
  rw [h.returned.children_eq, if_neg fun hroot => hp hroot.1, List.append_nil]

/-- A block that asks for no jump keeps its body. -/
theorem children_of_no_jump (h : Lowered t t₁ t₂ t₃ r) {p : Nat} (hp : p ≠ root)
    (hnone : t₁.hiddenJump? p = none) : t₃.children p = t.children p := by
  rw [h.shape.children_eq, h.prepared.jumped.children_same p (Or.inr hnone), h.children_returned hp]

/-- A block that asks for one gets it at its end. -/
theorem children_of_jump (h : Lowered t t₁ t₂ t₃ r) {p : Nat} (hp : p ≠ root) (hlt : p < t.size)
    {jump : HiddenJump} (hjump : t₁.hiddenJump? p = some jump) :
    ∃ j, t₃.children p = t.children p ++ [j] ∧ t₃.JumpsTo j jump.target := by
  have hmem : p ∈ t₁.preorder := (mem_preorder_iff h.prepared.nested.sound).mpr
    ⟨Nat.pos_of_ne_zero hp, Nat.lt_of_lt_of_le hlt h.returned.grows.size_le⟩
  obtain ⟨j, hle, hc, htarget⟩ := h.prepared.jumped.children_jump p hmem jump hjump
  have hj := mem_children.mp (show j ∈ t₂.children p by rw [hc]; simp)
  have hjmem : j ∈ t₂.preorder := (mem_preorder_iff h.prepared.sound).mpr ⟨by omega, hj.1⟩
  refine ⟨j, by rw [h.shape.children_eq, hc, h.children_returned hp], ?_⟩
  exact {
    mem := by rw [h.shape.preorder_eq]; exact hjmem
    hidden := by
      rw [h.shape.statement_eq]
      exact (h.prepared.jumped.jump_of_added j hle hj.1).1
    target_eq := by
      rw [h.target_eq j hjmem, h.prepared.transfer?_added hle hj.1, Option.getD_none, htarget] }

/-- Nothing is added to a body that is neither that of a loop nor that of a test. -/
theorem children_same (h : Lowered t t₁ t₂ t₃ r) {p : Nat} (hp : p ≠ root) (hlt : p < t.size)
    (hif : t.flow p ≠ .ifBlock) (helseIf : t.flow p ≠ .elseIfBlock)
    (hloop : (t.flow p).isLoop = false) : t₃.children p = t.children p := by
  have hflow := h.returned.grows.flow_eq hlt
  rw [← hflow] at hif helseIf hloop
  exact h.children_of_no_jump hp (hiddenJump?_eq_none hif helseIf hloop)

/-- A loop ends with a jump back to itself. -/
theorem children_loop (h : Lowered t t₁ t₂ t₃ r) {l : Nat} (hl : l ≠ root)
    (hloop : (t.flow l).isLoop = true) :
    ∃ j, t₃.children l = t.children l ++ [j] ∧ t₃.JumpsTo j l := by
  have hplain : t.flow l ≠ .plain := by
    intro heq
    rw [heq] at hloop
    cases hloop
  have hlt := lt_size_of_isLoop hloop
  obtain ⟨jump, hjump, htarget⟩ :=
    hiddenJump?_loop (h.commented_of_flow (Nat.pos_of_ne_zero hl) hplain)
      (by rw [h.returned.grows.flow_eq hlt]; exact hloop)
  obtain ⟨j, hj⟩ := h.children_of_jump hl hlt hjump
  rw [htarget] at hj
  exact ⟨j, hj⟩

/-- The siblings of a node in the tree with its return. -/
theorem siblings_returned (h : Lowered t t₁ t₂ t₃ r) {p b : Nat} {before after : List Nat}
    (hc : t.children p = before ++ b :: after) :
    ∃ added, t₁.children p = before ++ b :: (after ++ added) := by
  obtain ⟨added, hadded, -⟩ := h.returned.grows.exists_children_eq p
  exact ⟨added, by rw [hadded, hc, List.append_assoc, List.cons_append]⟩

/-- A branch that another one follows ends with a jump to the `end` of the construct. -/
theorem children_branch (h : Lowered t t₁ t₂ t₃ r) {p b c e : Nat} {before branches rest : List Nat}
    (hc : t.children p = before ++ b :: (c :: branches ++ e :: rest))
    (hflow : t.flow b = .ifBlock ∨ t.flow b = .elseIfBlock) (he : t.flow e = .blockEnd)
    (hbranches : ∀ x ∈ c :: branches, t.flow x = .elseIfBlock ∨ t.flow x = .elseBlock) :
    ∃ j, t₃.children b = t.children b ++ [j] ∧ t₃.JumpsTo j e := by
  have hmember : ∀ x ∈ b :: (c :: branches ++ e :: rest), 0 < x ∧ t₁.flow x = t.flow x := by
    intro x hx
    have hbounds := mem_children.mp (show x ∈ t.children p by rw [hc]; exact List.mem_append_right _ hx)
    exact ⟨by omega, h.returned.grows.flow_eq hbounds.1⟩
  obtain ⟨hpos, hb⟩ := hmember b List.mem_cons_self
  have hplain : t.flow b ≠ .plain := by rcases hflow with hf | hf <;> rw [hf] <;> decide
  obtain ⟨added, hc₁⟩ := h.siblings_returned hc
  rw [List.append_assoc] at hc₁
  have hend : t₁.findEnd? b = some e := by
    have hlater : (t₁.siblings b).filter (b < ·) = (c :: branches) ++ e :: (rest ++ added) :=
      later_of_children hc₁
    rw [findEnd?, hlater]
    refine endAmong_append ((hmember e (by simp)).2.trans he) fun x hx => ?_
    have hx' : x ∈ c :: branches ++ e :: rest := List.mem_append_left _ hx
    rw [(hmember x (List.mem_cons_of_mem _ hx')).2]
    exact hbranches x hx
  obtain ⟨jump, hjump, htarget⟩ :=
    hiddenJump?_branch (h.commented_of_flow hpos hplain) (by rw [hb]; exact hflow)
      (nextSibling?_of_children hc₁)
      (by rw [(hmember c (by simp)).2]; exact hbranches c List.mem_cons_self) hend
  rw [← htarget]
  exact h.children_of_jump (Nat.ne_of_gt hpos) (lt_size_of_flow hplain) hjump

/-- The last branch of a construct ends as it did. -/
theorem children_last (h : Lowered t t₁ t₂ t₃ r) {p b e : Nat} {before rest : List Nat}
    (hc : t.children p = before ++ b :: e :: rest) (hflow : (t.flow b).isBranch = true)
    (he : t.flow e = .blockEnd) : t₃.children b = t.children b := by
  have hb := mem_children.mp (show b ∈ t.children p by rw [hc]; simp)
  have hebounds := mem_children.mp (show e ∈ t.children p by rw [hc]; simp)
  have hroot : b ≠ root := Nat.ne_of_gt (show 0 < b by omega)
  have test : t.flow b = .ifBlock ∨ t.flow b = .elseIfBlock → t₃.children b = t.children b := by
    intro htest
    obtain ⟨added, hc₁⟩ := h.siblings_returned hc
    refine h.children_of_no_jump hroot (hiddenJump?_last ?_ (nextSibling?_of_children hc₁) ?_)
    · rw [h.returned.grows.flow_eq hb.1]
      exact htest
    · rw [h.returned.grows.flow_eq hebounds.1]
      exact he
  cases hf : t.flow b with
  | ifBlock => exact test (Or.inl hf)
  | elseIfBlock => exact test (Or.inr hf)
  | elseBlock =>
      refine h.children_same hroot hb.1 ?_ ?_ ?_ <;> rw [hf]
      · decide
      · decide
      · rfl
  | plain | blockEnd | whileLoop | forLoop | foreachLoop | skip | breakLoop | continueLoop
  | goto | gosub | finish =>
      rw [hf] at hflow
      cases hflow

/-- What is not a block stays without children. -/
theorem children_simple (h : Lowered t t₁ t₂ t₃ r) {id : Nat} (hpos : 0 < id) (hlt : id < t.size)
    (hopen : (t.flow id).opensBlock = false) (hskip : t.flow id ≠ .skip) : t₃.children id = [] := by
  have hroot : id ≠ root := Nat.ne_of_gt hpos
  rw [h.children_same hroot hlt]
  · exact h.nested.children_eq_nil hroot hopen hskip
  · intro heq
    rw [heq] at hopen
    cases hopen
  · intro heq
    rw [heq] at hopen
    cases hopen
  · revert hopen
    cases t.flow id <;> decide

/-! ### Targets

The target of a node is what it transfers control to, and nodes that never do so have none. -/

/-- A node of the source jumps where it transfers control to. -/
theorem target_of_transfer (h : Lowered t t₁ t₂ t₃ r) {id : Nat} (hpos : 0 < id) (hlt : id < t.size)
    {y : Nat} (htransfer : t₂.transfer? id = some (some y)) : (t₃.node id).target = some y := by
  have hmem : id ∈ t₂.preorder := (mem_preorder_iff h.prepared.sound).mpr
    ⟨hpos, Nat.lt_of_lt_of_le hlt
      (Nat.le_trans h.returned.grows.size_le h.prepared.size_le)⟩
  rw [h.target_eq id hmem, htransfer, Option.getD_some]

/-- A node that does not jump has no target. -/
theorem target_of_no_transfer (h : Lowered t t₁ t₂ t₃ r) {id : Nat} (hpos : 0 < id)
    (hlt : id < t.size) (hflow : (t.flow id).mayJump = false) : (t₃.node id).target = none := by
  have hlt₁ : id < t₁.size := Nat.lt_of_lt_of_le hlt h.returned.grows.size_le
  have hlt₂ : id < t₂.size := Nat.lt_of_lt_of_le hlt₁ h.prepared.size_le
  have hnone : t₂.transfer? id = none := by
    unfold transfer?
    split
    · rfl
    · rw [h.prepared.flow_eq hlt₁, h.returned.grows.flow_eq hlt]
      revert hflow
      cases t.flow id <;> simp [Flow.mayJump]
  rw [h.target_eq id ((mem_preorder_iff h.prepared.sound).mpr ⟨hpos, hlt₂⟩), hnone,
    Option.getD_none, h.prepared.jumped.node_eq id hlt₁]
  exact h.prepared.bound.target_eq id hlt₁

end Lowered

end Tree

end MissionScript
