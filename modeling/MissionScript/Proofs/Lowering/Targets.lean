import MissionScript.Proofs.Lowering.Jumps

/-!
# MissionScript.Proofs.Lowering.Targets

Where the nodes of a tree with its return and its hidden jumps lead to.

Whatever a node transfers control to, the final return stands there or later. The argument is the same
for all: from a node that is executed, the final return is still to come
(`Prepared.mem_onward_of_executable`), and as it is in no block, it comes after the whole block
(`Prepared.mem_after_of_executable`). So every target has a command to land on, and no jump is left
without a target (`Prepared.transfer?_ne`).

The module has three parts. The first says where the final return stands. The second goes through
the kinds of nodes and gives the target of each; the last part is about the step of the lowering
that stores these targets, node by node.
-/

namespace MissionScript

namespace Tree

/-- No node has a target yet, and the jumps to labels are bound to nodes that declare labels. -/
structure Bound (t : Tree) : Prop where
  target_eq : ∀ id < t.size, (t.node id).target = none
  label_eq : ∀ id, 0 < id → id < t.size → (t.statement id).isLabelJump = true →
    ∃ m, 0 < m ∧ m < t.size ∧ (t.statement m).isLabel = true ∧ t.symbols.target? id = some m

/-- A tree `t` that ends with the return `r`, and the tree `t'` with its hidden jumps. -/
structure Prepared (t t' : Tree) (r : Nat) : Prop where
  nested : t.Nested [] none
  final : t.FinalReturn r
  bound : t.Bound
  jumped : t.Jumped t'

/-! ### Blocks that ask for a hidden jump

A loop jumps back to itself at the end of its block. A branch of an `if` jumps over the branches
after it, to the end of the construct; the last branch and an `else` need no jump, as they run into
the end anyway. -/

/-- No other block asks for a jump. -/
theorem hiddenJump?_eq_none {t : Tree} {id : Nat} (hif : t.flow id ≠ .ifBlock)
    (helseIf : t.flow id ≠ .elseIfBlock) (hloop : (t.flow id).isLoop = false) :
    t.hiddenJump? id = none := by
  unfold hiddenJump?
  split
  · rfl
  · revert hif helseIf hloop
    cases t.flow id <;> simp [Flow.isLoop]

/-- The end is the first sibling that is no further branch. -/
theorem endAmong_append {t : Tree} {branches : List Nat} {e : Nat} {rest : List Nat}
    (he : t.flow e = .blockEnd)
    (hbranches : ∀ b ∈ branches, t.flow b = .elseIfBlock ∨ t.flow b = .elseBlock) :
    t.endAmong (branches ++ e :: rest) = some e := by
  induction branches with
  | nil =>
      rw [List.nil_append, endAmong, he]
  | cons b branches ih =>
      have hrest := ih fun x hx => hbranches x (List.mem_cons_of_mem _ hx)
      rw [List.cons_append, endAmong]
      rcases hbranches b List.mem_cons_self with hf | hf <;> rw [hf] <;> exact hrest

/-- What a hidden jump is for. -/
theorem of_hiddenJump? {t : Tree} {id : Nat} {jump : HiddenJump}
    (h : t.hiddenJump? id = some jump) :
    ((t.flow id).isLoop = true ∧ jump.target = id) ∨
      ((t.flow id = .ifBlock ∨ t.flow id = .elseIfBlock) ∧ t.findEnd? id = some jump.target) := by
  unfold hiddenJump? at h
  split at h
  · cases h
  · have branch : (do
        let next ← t.nextSibling? id
        if t.flow next = .elseIfBlock ∨ t.flow next = .elseBlock then
          return (⟨id, ← t.findEnd? id, (t.statement next).line⟩ : HiddenJump)
        else none) = some jump → t.findEnd? id = some jump.target := by
      intro h
      obtain ⟨next, -, h⟩ := Option.bind_eq_some_iff.mp h
      split at h
      · obtain ⟨target, htarget, h⟩ := Option.bind_eq_some_iff.mp h
        cases h
        exact htarget
      · cases h
    split at h
    · next hf => exact Or.inr ⟨Or.inl hf, branch h⟩
    · next hf => exact Or.inr ⟨Or.inr hf, branch h⟩
    · next hf =>
      cases h
      exact Or.inl ⟨by rw [hf]; rfl, rfl⟩
    · next hf =>
      cases h
      exact Or.inl ⟨by rw [hf]; rfl, rfl⟩
    · next hf =>
      cases h
      exact Or.inl ⟨by rw [hf]; rfl, rfl⟩
    · cases h

namespace Prepared

variable {t t' : Tree} {r : Nat}

theorem sound (h : t.Prepared t' r) : t'.Sound := h.jumped.sound

theorem flow_eq (h : t.Prepared t' r) {id : Nat} (hid : id < t.size) : t'.flow id = t.flow id :=
  h.jumped.grows.flow_eq hid

theorem statement_eq (h : t.Prepared t' r) {id : Nat} (hid : id < t.size) :
    t'.statement id = t.statement id :=
  h.jumped.grows.statement_eq id hid

theorem size_le (h : t.Prepared t' r) : t.size ≤ t'.size := h.jumped.grows.size_le

/-- The children of a node are those it had, and a hidden jump where it asks for one. -/
theorem exists_children (h : t.Prepared t' r) (p : Nat) :
    ∃ added, t'.children p = t.children p ++ added := by
  obtain ⟨added, heq, -⟩ := h.jumped.grows.exists_children_eq p
  exact ⟨added, heq⟩

theorem children_root (h : t.Prepared t' r) : t'.children root = t.children root := by
  refine h.jumped.children_same root (Or.inl fun hmem => ?_)
  exact absurd ((mem_preorder_iff h.nested.sound).mp hmem).1 (Nat.lt_irrefl _)

/-- Neither auxiliary statements nor the final return own anything. -/
theorem children_of_plain (h : t.Prepared t' r) {id : Nat} (hid : 0 < id)
    (hflow : t.flow id = .plain ∨ t.flow id = .finish) : t'.children id = [] := by
  have hopen : (t.flow id).opensBlock = false := by rcases hflow with hf | hf <;> rw [hf] <;> rfl
  have hnone : t.hiddenJump? id = none := by
    refine hiddenJump?_eq_none ?_ ?_ ?_ <;> rcases hflow with hf | hf <;> rw [hf] <;> decide
  rw [h.jumped.children_same id (Or.inr hnone)]
  refine h.nested.children_eq_nil (Nat.ne_of_gt hid) hopen ?_
  rcases hflow with hf | hf <;> rw [hf] <;> decide

/-! ### The final return comes last

The final return stands at the root and only auxiliary nodes come after it. So it lies behind any
node that is executed, and being no part of a block, behind all of that node's block too. -/

theorem lt_size (h : t.Prepared t' r) : r < t.size :=
  (h.nested.sound.parent_lt h.final.parent_eq).2

theorem pos (h : t.Prepared t' r) : 0 < r :=
  Nat.lt_of_le_of_lt (Nat.zero_le _) (h.nested.sound.parent_lt h.final.parent_eq).1

/-- The final return is a child of the root. -/
theorem parent_return (h : t.Prepared t' r) : (t'.node r).parent = some root :=
  (h.jumped.grows.parent_eq r h.lt_size).trans h.final.parent_eq

/-- From the return on there are only itself and auxiliary statements. -/
theorem onward_return (h : t.Prepared t' r) :
    t'.onward r = r :: t.later r ∧ ∀ x ∈ t.later r, (t'.statement x).isExecutable = false := by
  obtain ⟨before, hchildren⟩ :=
    exists_children_eq (h.nested.sound.mem_children_iff.mpr h.final.parent_eq)
  have hlater : t'.later r = t.later r := later_of_children (h.children_root ▸ hchildren)
  have hmember : ∀ x ∈ t.later r, 0 < x ∧ x < t.size := by
    intro x hx
    have hmem : x ∈ t.children root := by rw [hchildren]; simp [hx]
    have := mem_children.mp hmem
    omega
  have hsingle : ∀ x ∈ t.later r, t'.subtree x = [x] := by
    intro x hx
    obtain ⟨hpos, hlt⟩ := hmember x hx
    refine subtree_of_children_eq_nil (h.children_of_plain hpos (Or.inl ?_))
    exact (h.nested.proper x hpos hlt).flow_of_auxiliary (h.final.later_auxiliary x hx)
  constructor
  · rw [onward_eq_cons, h.children_of_plain h.pos (Or.inr h.final.flow_eq), List.flatMap_nil,
      List.nil_append, after_of_parent h.sound h.parent_return, hlater, after_root h.sound,
      List.append_nil, List.flatMap_congr hsingle]
    simp
  · intro x hx
    rw [h.statement_eq (hmember x hx).2]
    exact Statement.isExecutable_eq_false_of_isAuxiliary (h.final.later_auxiliary x hx)

/-- An end of the order in which something is executed has the final return in it. -/
theorem return_mem_of_suffix (h : t.Prepared t' r) {l : List Nat} (hl : l <:+ t'.preorder)
    {x : Nat} (hx : x ∈ l) (hexec : (t'.statement x).isExecutable = true) : r ∈ l := by
  obtain ⟨honward, hlater⟩ := h.onward_return
  have hr : r :: t.later r <:+ t'.preorder :=
    honward ▸ onward_isSuffix h.sound h.pos (Nat.lt_of_lt_of_le h.lt_size h.size_le)
  rcases List.suffix_or_suffix_of_suffix hl hr with hsuffix | hsuffix
  · rcases List.suffix_cons_iff.mp hsuffix with rfl | hbelow
    · exact List.mem_cons_self
    · rw [hlater x (hbelow.subset hx)] at hexec
      cases hexec
  · exact hsuffix.subset List.mem_cons_self

/-- From a node that is executed, the final return is still to come. -/
theorem mem_onward_of_executable (h : t.Prepared t' r) {id : Nat} (hpos : 0 < id)
    (hlt : id < t'.size) (hexec : (t'.statement id).isExecutable = true) : r ∈ t'.onward id :=
  h.return_mem_of_suffix (onward_isSuffix h.sound hpos hlt) (self_mem_onward t' id) hexec

/-- The final return is in no block. -/
theorem return_not_mem_subtree (h : t.Prepared t' r) {id : Nat} (hpos : 0 < id) (hne : r ≠ id) :
    r ∉ t'.subtree id := by
  intro hmem
  rcases (mem_subtree_iff h.sound).mp hmem with heq | ⟨p, hp, hpid⟩
  · exact hne heq
  · rw [h.parent_return] at hp
    cases hp
    have := (le_of_mem_subtree hpid).1
    have : root = 0 := rfl
    omega

/-- The final return comes after all of a block that is executed. -/
theorem mem_after_of_executable (h : t.Prepared t' r) {id : Nat} (hpos : 0 < id)
    (hlt : id < t'.size) (hexec : (t'.statement id).isExecutable = true) (hne : r ≠ id) :
    r ∈ t'.after id := by
  rcases List.mem_append.mp (h.mem_onward_of_executable hpos hlt hexec) with hin | hafter
  · exact absurd hin (h.return_not_mem_subtree hpos hne)
  · exact hafter

/-- A node of the source that takes part in the flow of control, other than a `return`. -/
theorem mem_after_of_flow (h : t.Prepared t' r) {id : Nat} (hpos : 0 < id) (hlt : id < t.size)
    (hplain : t.flow id ≠ .plain) (helse : t.flow id ≠ .elseBlock) (hend : t.flow id ≠ .blockEnd)
    (hfinish : t.flow id ≠ .finish) : r ∈ t'.after id := by
  refine h.mem_after_of_executable hpos (Nat.lt_of_lt_of_le hlt h.size_le) ?_ ?_
  · rw [h.statement_eq hlt]
    exact (h.nested.proper id hpos hlt).isExecutable_of_flow hplain helse hend
  · rintro rfl
    exact hfinish h.final.flow_eq

/-- The successor of a node after which the final return comes. -/
theorem exists_successor (h : t.Prepared t' r) {id : Nat} (hmem : r ∈ t'.after id) :
    ∃ y, t'.successor? id = some y ∧ t'.onward y = t'.after id ∧ 0 < y ∧ y < t'.size := by
  cases hhead : (t'.after id).head? with
  | none =>
      rw [List.head?_eq_none_iff.mp hhead] at hmem
      cases hmem
  | some y => exact ⟨y, by rw [successor?_eq_head? h.sound, hhead], onward_of_head?_after h.sound hhead⟩

/-! ### Targets of the nodes of the source

A node of the source leads to its next sibling, to its successor, to the loop around it or what
follows that, or to a label. The check of the tree has seen to the siblings, loops and labels. A
successor exists when something comes after the subtree of the node, and the final return does. -/

/-- What a node of the source transfers control to, by its flow: the hidden jumps have not changed
it. -/
theorem transfer?_of_flow (h : t.Prepared t' r) {id : Nat} (hpos : 0 < id) (hlt : id < t.size)
    (hplain : t.flow id ≠ .plain) :
    t'.transfer? id = match t.flow id with
      | .ifBlock | .elseIfBlock => some (t'.nextSibling? id)
      | .whileLoop | .forLoop | .foreachLoop | .skip => some (t'.successor? id)
      | .breakLoop => some ((t'.enclosingLoop? id).bind t'.successor?)
      | .continueLoop => some (t'.enclosingLoop? id)
      | .goto | .gosub => some (t'.symbols.target? id)
      | _ => none := by
  have hcommented : (t'.statement id).commented = false := by
    rw [h.statement_eq hlt]
    exact (h.nested.proper id hpos hlt).commented_of_flow hplain
  have htarget : (t'.node id).target = none := by
    rw [h.jumped.node_eq id hlt]
    exact h.bound.target_eq id hlt
  unfold transfer?
  rw [hcommented, htarget, h.flow_eq hlt]
  rfl

/-- A test that fails leads to the next branch or to the end. -/
theorem transfer?_branch (h : t.Prepared t' r) {id p y : Nat} {before after : List Nat}
    (hc : t.children p = before ++ id :: y :: after)
    (hflow : t.flow id = .ifBlock ∨ t.flow id = .elseIfBlock) :
    t'.transfer? id = some (some y) ∧ t'.onward y = t'.after id := by
  have hid := mem_children.mp (show id ∈ t.children p by rw [hc]; simp)
  obtain ⟨added, hadded⟩ := h.exists_children p
  have hc' : t'.children p = before ++ id :: (y :: after ++ added) := by rw [hadded, hc]; simp
  constructor
  · rw [h.transfer?_of_flow (by omega) hid.1 (by rcases hflow with hf | hf <;> rw [hf] <;> decide),
      nextSibling?_of_children hc']
    rcases hflow with hf | hf <;> rw [hf] <;> rfl
  · exact (after_of_later h.sound (later_of_children hc')).symm

/-- The final return comes after every loop and every `skip if`. -/
theorem mem_after_of_block (h : t.Prepared t' r) {id : Nat} (hpos : 0 < id) (hlt : id < t.size)
    (hflow : (t.flow id).isLoop = true ∨ t.flow id = .skip) : r ∈ t'.after id := by
  refine h.mem_after_of_flow hpos hlt ?_ ?_ ?_ ?_ <;> intro heq <;> rw [heq] at hflow <;>
    simp [Flow.isLoop] at hflow

/-- A loop or `skip if` that is not entered leads to what follows. -/
theorem transfer?_block (h : t.Prepared t' r) {id : Nat} (hpos : 0 < id) (hlt : id < t.size)
    (hflow : (t.flow id).isLoop = true ∨ t.flow id = .skip) :
    ∃ y, t'.transfer? id = some (some y) ∧ t'.onward y = t'.after id ∧ 0 < y ∧ y < t'.size := by
  obtain ⟨y, hy, honward⟩ := h.exists_successor (h.mem_after_of_block hpos hlt hflow)
  have hplain : t.flow id ≠ .plain := by
    intro heq
    rw [heq] at hflow
    simp [Flow.isLoop] at hflow
  refine ⟨y, ?_, honward⟩
  rw [h.transfer?_of_flow hpos hlt hplain, hy]
  revert hflow
  cases t.flow id <;> simp [Flow.isLoop]

/-- The loop around a `break` or `continue`. -/
theorem exists_loop (h : t.Prepared t' r) {id : Nat} (hpos : 0 < id) (hlt : id < t.size)
    (hflow : t.flow id = .breakLoop ∨ t.flow id = .continueLoop) :
    ∃ l, t.enclosingLoop? id = some l ∧ t'.enclosingLoop? id = some l ∧ 0 < l ∧ l < t.size ∧
      (t.flow l).isLoop = true := by
  obtain ⟨l, hl⟩ := Option.isSome_iff_exists.mp (h.nested.exits id hpos hlt hflow)
  obtain ⟨hlpos, hllt, hloop⟩ := of_enclosingLoop? hl
  exact ⟨l, hl, (h.jumped.grows.enclosingLoop?_eq hlt).trans hl, hlpos, by omega, hloop⟩

/-- A `break` leads to what follows the loop, a `continue` to the loop itself. -/
theorem transfer?_break (h : t.Prepared t' r) {id : Nat} (hpos : 0 < id) (hlt : id < t.size)
    (hflow : t.flow id = .breakLoop) :
    ∃ l y, t.enclosingLoop? id = some l ∧ t'.transfer? id = some (some y) ∧
      t'.onward y = t'.after l ∧ 0 < y ∧ y < t'.size := by
  obtain ⟨l, hl, hl', hlpos, hllt, hloop⟩ := h.exists_loop hpos hlt (Or.inl hflow)
  obtain ⟨y, hy, honward⟩ := h.exists_successor (h.mem_after_of_block hlpos hllt (Or.inl hloop))
  refine ⟨l, y, hl, ?_, honward⟩
  rw [h.transfer?_of_flow hpos hlt (by rw [hflow]; decide), hflow, hl']
  exact congrArg some hy

/-- A `continue` leads to the loop around it, which is tested again. -/
theorem transfer?_continue (h : t.Prepared t' r) {id : Nat} (hpos : 0 < id) (hlt : id < t.size)
    (hflow : t.flow id = .continueLoop) :
    ∃ l, t.enclosingLoop? id = some l ∧ t'.transfer? id = some (some l) := by
  obtain ⟨l, hl, hl', -⟩ := h.exists_loop hpos hlt (Or.inr hflow)
  refine ⟨l, hl, ?_⟩
  rw [h.transfer?_of_flow hpos hlt (by rw [hflow]; decide), hflow, hl']

/-- A jump to a label leads to the node that declares it. -/
theorem transfer?_label (h : t.Prepared t' r) {id : Nat} (hpos : 0 < id) (hlt : id < t.size)
    (hflow : t.flow id = .goto ∨ t.flow id = .gosub) :
    t'.transfer? id = some (t.symbols.target? id) := by
  rw [h.transfer?_of_flow hpos hlt (by rcases hflow with hf | hf <;> rw [hf] <;> decide),
    h.jumped.symbols_eq]
  rcases hflow with hf | hf <;> rw [hf]

/-! ### Every target comes before the final return

What a jump lands on is the first command from its target on. So it is enough to know that the final
return, which is a command, is not behind it. -/

/-- The node lies in the tree, and the final return stands there or later. -/
def Leads (t' : Tree) (r y : Nat) : Prop := 0 < y ∧ y < t'.size ∧ r ∈ t'.onward y

/-- Any node of the source that is executed will do as a target. -/
theorem leads_of_executable (h : t.Prepared t' r) {y : Nat} (hpos : 0 < y) (hlt : y < t.size)
    (hexec : (t.statement y).isExecutable = true) : Leads t' r y :=
  have hlt' := Nat.lt_of_lt_of_le hlt h.size_le
  ⟨hpos, hlt', h.mem_onward_of_executable hpos hlt' (by rw [h.statement_eq hlt]; exact hexec)⟩

/-- A node of the source leads to where the final return is still to come. -/
theorem transfer?_source (h : t.Prepared t' r) {id : Nat} (hpos : 0 < id) (hlt : id < t.size) :
    t'.transfer? id = none ∨ ∃ y, t'.transfer? id = some (some y) ∧ Leads t' r y := by
  cases hflow : t.flow id with
  | plain =>
      -- a comment that holds a command is plain as well, and has no target either
      left
      unfold transfer?
      split
      · rfl
      · rw [h.flow_eq hlt, hflow]
  | ifBlock | elseIfBlock =>
      -- the next sibling, which comes after the body
      right
      obtain ⟨p, before, y, after, hc⟩ := h.nested.exists_next hpos hlt (by rw [hflow]; rfl)
      obtain ⟨htransfer, honward⟩ := h.transfer?_branch hc (by rw [hflow]; simp)
      have hy := mem_children.mp (show y ∈ t.children p by rw [hc]; simp)
      refine ⟨y, htransfer, by omega, Nat.lt_of_lt_of_le hy.1 h.size_le, ?_⟩
      rw [honward]
      refine h.mem_after_of_flow hpos hlt ?_ ?_ ?_ ?_ <;> rw [hflow] <;> decide
  | whileLoop | forLoop | foreachLoop | skip =>
      right
      obtain ⟨y, htransfer, honward, hypos, hylt⟩ := h.transfer?_block hpos hlt (by rw [hflow]; decide)
      refine ⟨y, htransfer, hypos, hylt, ?_⟩
      rw [honward]
      exact h.mem_after_of_block hpos hlt (by rw [hflow]; decide)
  | breakLoop =>
      -- the successor of the loop, which is executed
      right
      obtain ⟨l, y, hl, htransfer, honward, hypos, hylt⟩ := h.transfer?_break hpos hlt hflow
      obtain ⟨hlpos, hllt, hloop⟩ := of_enclosingLoop? hl
      refine ⟨y, htransfer, hypos, hylt, ?_⟩
      rw [honward]
      exact h.mem_after_of_block hlpos (by omega) (Or.inl hloop)
  | continueLoop =>
      right
      obtain ⟨l, hl, htransfer⟩ := h.transfer?_continue hpos hlt hflow
      obtain ⟨hlpos, hllt, hloop⟩ := of_enclosingLoop? hl
      exact ⟨l, htransfer, h.leads_of_executable hlpos (by omega)
        (h.nested.isExecutable_of_isLoop hlpos hloop)⟩
  | goto | gosub =>
      right
      have hjump : (t.statement id).isLabelJump = true :=
        (h.nested.proper id hpos hlt).isLabelJump_of_flow
          (show t.flow id = .goto ∨ t.flow id = .gosub by rw [hflow]; simp)
      obtain ⟨m, hmpos, hmlt, hlabel, htarget⟩ := h.bound.label_eq id hpos hlt hjump
      refine ⟨m, ?_, h.leads_of_executable hmpos hmlt
        ((h.nested.proper m hmpos hmlt).executable_of_label hlabel)⟩
      rw [h.transfer?_label hpos hlt (by rw [hflow]; simp), htarget]
  | elseBlock | blockEnd | finish =>
      left
      rw [h.transfer?_of_flow hpos hlt (by rw [hflow]; decide), hflow]

/-! ### Targets of the hidden jumps

The target of a hidden jump is fixed when the jump is added. It is a loop, or the end of a
construct, and is a node of the source. -/

/-- The end of a construct, and what stands after a branch of it. -/
theorem exists_findEnd? (h : t.Prepared t' r) {id : Nat} (hpos : 0 < id) (hlt : id < t.size)
    (hopen : (t.flow id).opensBlock = true) :
    ∃ p before branches e rest, t.children p = before ++ id :: (branches ++ e :: rest) ∧
      t.flow e = .blockEnd ∧ t.findEnd? id = some e ∧
      (∀ b ∈ branches, t.flow b = .elseIfBlock ∨ t.flow b = .elseBlock) ∧
      t'.after id = branches.flatMap t'.subtree ++ t'.onward e := by
  obtain ⟨p, before, y, after, hc⟩ := h.nested.exists_next hpos hlt hopen
  obtain ⟨branches, e, rest, heq, he, hbranches⟩ := h.nested.exists_end hc hopen
  rw [heq] at hc
  obtain ⟨added, hadded⟩ := h.exists_children p
  have hc' : t'.children p = before ++ id :: (branches ++ e :: (rest ++ added)) := by
    rw [hadded, hc]
    simp
  refine ⟨p, before, branches, e, rest, hc, he, ?_, hbranches, after_eq_append h.sound hc'⟩
  have hlater : (t.siblings id).filter (id < ·) = branches ++ e :: rest := later_of_children hc
  rw [findEnd?, hlater, endAmong_append he hbranches]

/-- Every hidden jump leads to where the final return is still to come. -/
theorem leads_of_hiddenJump? (h : t.Prepared t' r) {id : Nat} (hid : id ∈ t.preorder)
    {jump : HiddenJump} (hjump : t.hiddenJump? id = some jump) : Leads t' r jump.target := by
  obtain ⟨hpos, hlt⟩ := (mem_preorder_iff h.nested.sound).mp hid
  rcases of_hiddenJump? hjump with ⟨hloop, htarget⟩ | ⟨hflow, hend⟩
  · rw [htarget]
    exact h.leads_of_executable hpos hlt (h.nested.isExecutable_of_isLoop hpos hloop)
  · obtain ⟨p, before, branches, e, rest, hc, he, hfind, hbranches, hafter⟩ :=
      h.exists_findEnd? hpos hlt (by rcases hflow with hf | hf <;> rw [hf] <;> rfl)
    rw [hend] at hfind
    rw [Option.some.inj hfind]
    have hemem := mem_children.mp (show e ∈ t.children p by rw [hc]; simp)
    refine ⟨by omega, Nat.lt_of_lt_of_le hemem.1 h.size_le, ?_⟩
    have hmem : r ∈ t'.after id := by
      refine h.mem_after_of_flow hpos hlt ?_ ?_ ?_ ?_ <;>
        rcases hflow with hf | hf <;> rw [hf] <;> decide
    rw [hafter] at hmem
    rcases List.mem_append.mp hmem with hin | honward
    · -- the return is not in one of the branches in between
      obtain ⟨b, hb, hrb⟩ := List.mem_flatMap.mp hin
      have hbmem := mem_children.mp (show b ∈ t.children p by rw [hc]; simp [hb])
      refine absurd hrb (h.return_not_mem_subtree (by omega) ?_)
      rintro rfl
      have hflow := hbranches r hb
      rw [h.final.flow_eq] at hflow
      simp at hflow
    · exact honward

/-- A hidden jump has its target already. -/
theorem transfer?_added (h : t.Prepared t' r) {id : Nat} (hle : t.size ≤ id) (hlt : id < t'.size) :
    t'.transfer? id = none := by
  obtain ⟨-, p, -, jump, -, -, htarget⟩ := h.jumped.jump_of_added id hle hlt
  rw [transfer?, htarget]
  simp

/-- No node is left without a target. -/
theorem transfer?_ne (h : t.Prepared t' r) {id : Nat} (hpos : 0 < id) (hlt : id < t'.size) :
    t'.transfer? id ≠ some none := by
  by_cases hold : id < t.size
  · rcases h.transfer?_source hpos hold with hnone | ⟨y, hy, -⟩
    · rw [hnone]
      simp
    · rw [hy]
      simp
  · rw [h.transfer?_added (Nat.le_of_not_lt hold) hlt]
    simp

end Prepared

/-! ### Setting the targets

Targets are stored one after the other. A stored target is no input to the choice of the next one,
as long as no node is stored twice, so all of them can be read off the tree as it was before. -/

theorem transfer?_congr {t t' : Tree} (h : t.SameShape t')
    (hsymbols : t'.symbols = t.symbols) {id : Nat}
    (htarget : (t'.node id).target = (t.node id).target) : t'.transfer? id = t.transfer? id := by
  unfold transfer?
  rw [h.statement_eq, htarget, h.flow_eq, h.nextSibling?_eq, h.successor?_eq,
    h.enclosingLoop?_eq, hsymbols, funext h.successor?_eq]

/-- Storing a target leaves those of all other nodes alone. -/
theorem target_setTarget {t : Tree} {id y n : Nat} (hn : n < t.size) :
    ((t.setTarget id y).node n).target = if id = n then some y else (t.node n).target := by
  rw [setTarget, node_modify t id _ n hn]
  split <;> rfl

/-- When every node of the list has a target or needs none, all of them get theirs. -/
theorem setTargets_spec {t : Tree} (hs : t.Sound) {ids : List Nat} (hnodup : ids.Nodup)
    (hids : ∀ id ∈ ids, id < t.size) (h : ∀ id ∈ ids, t.transfer? id ≠ some none) :
    ∃ t', t.setTargets ids = (t', none) ∧ t.SameShape t' ∧
      (∀ id ∈ ids, (t'.node id).target = ((t.transfer? id).getD (t.node id).target)) ∧
      ∀ id < t.size, id ∉ ids → (t'.node id).target = (t.node id).target := by
  induction ids generalizing t with
  | nil => exact ⟨t, rfl, SameShape.refl t, by simp, fun _ _ _ => rfl⟩
  | cons id rest ih =>
      obtain ⟨hnot, hrest⟩ := List.nodup_cons.mp hnodup
      have hlt := hids id List.mem_cons_self
      rw [setTargets]
      cases htransfer : t.transfer? id with
      | none =>
          obtain ⟨t', hset, hsame, htargets, hother⟩ := ih hs hrest
            (fun x hx => hids x (List.mem_cons_of_mem _ hx))
            fun x hx => h x (List.mem_cons_of_mem _ hx)
          refine ⟨t', hset, hsame, ?_, fun x hx hxnot =>
            hother x hx fun hmem => hxnot (List.mem_cons_of_mem _ hmem)⟩
          intro x hx
          rcases List.mem_cons.mp hx with rfl | hmem
          · rw [hother x hlt hnot, htransfer, Option.getD_none]
          · exact htargets x hmem
      | some target =>
          cases target with
          | none => exact absurd htransfer (h id List.mem_cons_self)
          | some y =>
              have hshape := SameShape.setTarget t id y
              -- no node comes twice, so the targets of the others are as they were
              have hsame : ∀ x ∈ rest, ((t.setTarget id y).node x).target = (t.node x).target := by
                intro x hx
                rw [target_setTarget (hids x (List.mem_cons_of_mem _ hx)), if_neg]
                rintro rfl
                exact hnot hx
              have htransfers : ∀ x ∈ rest, (t.setTarget id y).transfer? x = t.transfer? x :=
                fun x hx => transfer?_congr hshape rfl (hsame x hx)
              obtain ⟨t', hset, hsame', htargets, hother⟩ := ih (hshape.sound hs) hrest
                (fun x hx => by rw [hshape.size_eq]; exact hids x (List.mem_cons_of_mem _ hx))
                fun x hx => by rw [htransfers x hx]; exact h x (List.mem_cons_of_mem _ hx)
              refine ⟨t', hset, hshape.trans hsame', ?_, ?_⟩
              · intro x hx
                rcases List.mem_cons.mp hx with rfl | hmem
                · rw [hother x (by rw [hshape.size_eq]; exact hlt) hnot, target_setTarget hlt,
                    if_pos rfl, htransfer, Option.getD_some]
                · rw [htargets x hmem, htransfers x hmem, hsame x hmem]
              · intro x hx hxnot
                rw [List.mem_cons, not_or] at hxnot
                rw [hother x (by rw [hshape.size_eq]; exact hx) hxnot.2, target_setTarget hx,
                  if_neg (Ne.symm hxnot.1)]

end Tree

end MissionScript
