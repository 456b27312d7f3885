import MissionScript.Tree

/-!
# MissionScript.Proofs.Tree.Shape

Trees whose nodes have earlier nodes as their parents, and how nodes are added to them.

* `Sound` — every node but the root has a parent with a smaller number. All trees are built by adding
  nodes below nodes that are there, so all of them are sound.
* `children_addNode` — a new node becomes the last child of its parent, and no other node has other
  children than before.
* `later` — the siblings after a node. With the children of a node written out as
  `before ++ id :: after`, the neighbours of `id` can be read off (`nextSibling?_of_children`,
  `previousSibling?_of_children`).
* `SameStructure`, `SameShape` — trees with the same blocks, and with the same statements in them. The
  relatives of a node depend on the structure alone.

The lowering of a tree changes it in small steps: nodes are added, targets and indices are stored.
The three relations at the end of this module are what such steps keep. They are ordered by
strength: `SameShape` has the same statements, `SameStructure` only the same blocks, and `Grows`
allows for more nodes.
-/

namespace MissionScript

namespace Tree

/-! ### Nodes and parents

Numbers that grow from parent to child are what makes the walks over a tree end, and they are never
stated again: a parent is below its children, and children are listed from small to large. -/

/-- Every node but the root has a parent with a smaller number. -/
structure Sound (t : Tree) : Prop where
  size_pos : 0 < t.size
  root_parent : (t.node root).parent = none
  exists_parent : ∀ id, 0 < id → id < t.size → ∃ p, (t.node id).parent = some p ∧ p < id

/-- Beyond the tree there are only empty nodes. -/
theorem node_of_size_le {t : Tree} {id : Nat} (h : t.size ≤ id) : t.node id = {} := by
  unfold node size at *
  simp [Array.getD, Nat.not_lt.mpr h]

/-- The tree that reading begins with is sound. -/
theorem sound_empty : empty.Sound := by
  refine ⟨by decide, rfl, ?_⟩
  intro id hpos hlt
  rw [size_empty] at hlt
  omega

/-- A parent has a smaller number than its child, and both are nodes of the tree. -/
theorem Sound.parent_lt {t : Tree} (h : t.Sound) {id p : Nat}
    (hp : (t.node id).parent = some p) : p < id ∧ id < t.size := by
  have hsize : id < t.size := by
    by_cases hlt : id < t.size
    · exact hlt
    · rw [node_of_size_le (Nat.le_of_not_lt hlt)] at hp
      cases hp
  have hpos : 0 < id := by
    rcases Nat.eq_zero_or_pos id with rfl | hpos
    · rw [show t.node 0 = t.node root from rfl, h.root_parent] at hp
      cases hp
    · exact hpos
  obtain ⟨q, hq, hlt⟩ := h.exists_parent id hpos hsize
  rw [hp] at hq
  cases hq
  exact ⟨hlt, hsize⟩

/-- With smaller parents, being a child is having the node as a parent. -/
theorem Sound.mem_children_iff {t : Tree} (h : t.Sound) {id c : Nat} :
    c ∈ t.children id ↔ (t.node c).parent = some id := by
  rw [mem_children]
  constructor
  · exact fun hc => hc.2.2
  · intro hc
    have := h.parent_lt hc
    exact ⟨this.2, this.1, hc⟩

/-- Children are listed in the order of their numbers. -/
theorem sorted_children (t : Tree) (id : Nat) : (t.children id).Pairwise (· < ·) :=
  List.Pairwise.filter _ List.pairwise_lt_range

/-! ### Adding nodes

A new node gets the next number, so it is the last child of its parent, and no node of the tree is
changed. -/

/-- The new node is there, and the other nodes are as they were. -/
theorem node_addNode (t : Tree) (p : Nat) (n : Node) (id : Nat) :
    (t.addNode p n).node id = if id = t.size then { n with parent := some p } else t.node id := by
  unfold addNode node size
  rw [Array.getD_eq_getD_getElem?, Array.getD_eq_getD_getElem?, Array.getElem?_push]
  split <;> rfl

/-- The nodes of the tree are as they were. -/
theorem node_addNode_of_lt {t : Tree} {id : Nat} (h : id < t.size) (p : Nat) (n : Node) :
    (t.addNode p n).node id = t.node id := by
  rw [node_addNode, if_neg (Nat.ne_of_lt h)]

/-- The tree stays sound when its new node is below one that is there. -/
theorem Sound.addNode {t : Tree} (h : t.Sound) {p : Nat} (hp : p < t.size) (n : Node) :
    (t.addNode p n).Sound := by
  refine ⟨by rw [size_addNode]; omega, ?_, ?_⟩
  · rw [node_addNode_of_lt (show root < t.size from h.size_pos)]
    exact h.root_parent
  · intro id hpos hlt
    rw [size_addNode] at hlt
    rw [node_addNode]
    split
    · next heq =>
      subst heq
      exact ⟨p, rfl, hp⟩
    · exact h.exists_parent id hpos (by omega)

/-- A new node is the last child of its parent. -/
theorem children_addNode (t : Tree) {p : Nat} (hp : p < t.size) (n : Node) (id : Nat) :
    (t.addNode p n).children id = t.children id ++ if id = p then [t.size] else [] := by
  have hold : ∀ c ∈ List.range t.size,
      (decide (id < c) && ((t.addNode p n).node c).parent == some id)
        = (decide (id < c) && (t.node c).parent == some id) := by
    intro c hc
    rw [node_addNode_of_lt (List.mem_range.mp hc)]
  have hnew : ((t.addNode p n).node t.size).parent = some p := by
    rw [node_addNode, if_pos rfl]
  rw [children, children, size_addNode, List.range_succ, List.filter_append,
    List.filter_congr hold, List.filter_cons, List.filter_nil, hnew]
  congr 1
  by_cases heq : id = p
  · subst heq
    simp [hp]
  · have : ¬ p = id := fun h => heq h.symm
    simp [heq, this]

/-! ### Neighbours

The children of a node are written as `before ++ id :: after` in most statements about neighbours,
because this is the form in which the lowering needs them: what comes before a branch, and what
comes after. -/

/-- The siblings after a node. -/
def later (t : Tree) (id : Nat) : List Nat := (t.siblings id).filter (id < ·)

/-- The siblings of a node are the children of its parent. -/
theorem siblings_of_parent {t : Tree} {id p : Nat} (h : (t.node id).parent = some p) :
    t.siblings id = t.children p := by
  rw [siblings, h]

/-- The next sibling is the first of those after the node. -/
theorem nextSibling?_eq_head? (t : Tree) (id : Nat) : t.nextSibling? id = (t.later id).head? := by
  rw [nextSibling?, later, List.head?_filter]

/-- In a list that grows, what is above a member stands after it, and what is below stands before
it. -/
theorem filter_of_sorted {before after : List Nat} {id : Nat}
    (h : (before ++ id :: after).Pairwise (· < ·)) :
    (before ++ id :: after).filter (id < ·) = after ∧
      (before ++ id :: after).filter (· < id) = before := by
  obtain ⟨-, hafter, hbefore⟩ := List.pairwise_append.mp h
  have hb : ∀ x ∈ before, x < id := fun x hx => hbefore x hx id List.mem_cons_self
  have ha : ∀ x ∈ after, id < x := (List.pairwise_cons.mp hafter).1
  constructor
  · rw [List.filter_append, List.filter_cons_of_neg (by simp),
      List.filter_eq_nil_iff.mpr (fun x hx => by simpa using Nat.le_of_lt (hb x hx)),
      List.filter_eq_self.mpr (by simpa using ha), List.nil_append]
  · rw [List.filter_append, List.filter_cons_of_neg (by simp),
      List.filter_eq_self.mpr (by simpa using hb),
      List.filter_eq_nil_iff.mpr (fun x hx => by simpa using Nat.le_of_lt (ha x hx)),
      List.append_nil]

/-- A node cuts the children of its parent in two. -/
theorem exists_children_eq {t : Tree} {id p : Nat} (h : id ∈ t.children p) :
    ∃ before, t.children p = before ++ id :: t.later id := by
  obtain ⟨before, after, heq⟩ := List.append_of_mem h
  have hsorted := t.sorted_children p
  rw [heq] at hsorted
  refine ⟨before, ?_⟩
  rw [later, siblings_of_parent (mem_children.mp h).2.2, heq, (filter_of_sorted hsorted).1]

/-- A node among the children has the parent. -/
theorem parent_of_children_eq {t : Tree} {id p : Nat} {before after : List Nat}
    (h : t.children p = before ++ id :: after) : (t.node id).parent = some p := by
  have hmem : id ∈ t.children p := by rw [h]; simp
  exact (mem_children.mp hmem).2.2

/-- The siblings after a node are what comes after it in the list. -/
theorem later_of_children {t : Tree} {id p : Nat} {before after : List Nat}
    (h : t.children p = before ++ id :: after) : t.later id = after := by
  have hsorted := t.sorted_children p
  rw [h] at hsorted
  rw [later, siblings_of_parent (parent_of_children_eq h), h, (filter_of_sorted hsorted).1]

/-- The next sibling is the next one in the list. -/
theorem nextSibling?_of_children {t : Tree} {id p : Nat} {before after : List Nat}
    (h : t.children p = before ++ id :: after) : t.nextSibling? id = after.head? := by
  rw [nextSibling?_eq_head?, later_of_children h]

/-- The previous sibling is the one before it in the list. -/
theorem previousSibling?_of_children {t : Tree} {id p : Nat} {before after : List Nat}
    (h : t.children p = before ++ id :: after) : t.previousSibling? id = before.getLast? := by
  have hsorted := t.sorted_children p
  rw [h] at hsorted
  rw [previousSibling?, siblings_of_parent (parent_of_children_eq h), h,
    (filter_of_sorted hsorted).2]

/-! ### The nodes above

From a node on upwards there are its parent, the parent of that one, and so on up to a child of the
root. -/

/-- Above a node there is its parent, and what is above that. -/
theorem ancestors_of_parent {t : Tree} (h : t.Sound) {id p : Nat}
    (hp : (t.node id).parent = some p) :
    t.ancestors id = if p = root then [] else p :: t.ancestors p := by
  rw [ancestors, hp]
  by_cases hroot : p = root
  · simp [hroot]
  · simp [hroot, (h.parent_lt hp).1]

/-- The nodes above a node come before it, and the root is not among them. -/
theorem pos_and_lt_of_mem_ancestors {t : Tree} {id a : Nat} (h : a ∈ t.ancestors id) :
    0 < a ∧ a < id := by
  induction id using Nat.strongRecOn with
  | ind id ih =>
      rw [ancestors] at h
      split at h
      · next p hp =>
        split at h
        · next hlt =>
          rcases List.mem_cons.mp h with rfl | hmem
          · exact ⟨Nat.pos_of_ne_zero hlt.2, hlt.1⟩
          · have := ih p hlt.1 hmem
            omega
        · cases h
      · cases h

/-- A loop around a node is above it. -/
theorem of_enclosingLoop? {t : Tree} {id l : Nat} (h : t.enclosingLoop? id = some l) :
    0 < l ∧ l < id ∧ (t.flow l).isLoop = true := by
  have hbounds := pos_and_lt_of_mem_ancestors (List.mem_of_find?_eq_some h)
  exact ⟨hbounds.1, hbounds.2, by simpa using List.find?_some h⟩

/-! ### Growth

Nodes are only ever added, so what has been found out about the nodes of a tree stays true. What may
change is what comes after a node. -/

/-- `t'` comes from `t` by adding nodes: the nodes of `t` keep their parents and statements. -/
structure Grows (t t' : Tree) : Prop where
  size_le : t.size ≤ t'.size
  parent_eq : ∀ id < t.size, (t'.node id).parent = (t.node id).parent
  statement_eq : ∀ id < t.size, t'.statement id = t.statement id

namespace Grows

variable {t t' t'' : Tree}

theorem refl (t : Tree) : t.Grows t := ⟨Nat.le_refl _, fun _ _ => rfl, fun _ _ => rfl⟩

theorem trans (h : t.Grows t') (h' : t'.Grows t'') : t.Grows t'' where
  size_le := Nat.le_trans h.size_le h'.size_le
  parent_eq id hid :=
    (h'.parent_eq id (Nat.lt_of_lt_of_le hid h.size_le)).trans (h.parent_eq id hid)
  statement_eq id hid :=
    (h'.statement_eq id (Nat.lt_of_lt_of_le hid h.size_le)).trans (h.statement_eq id hid)

/-- A node plays the part that it played. -/
theorem flow_eq (h : t.Grows t') {id : Nat} (hid : id < t.size) : t'.flow id = t.flow id := by
  rw [flow, h.statement_eq id hid, flow]

/-- New children come after the old ones. -/
theorem exists_children_eq (h : t.Grows t') (p : Nat) :
    ∃ added, t'.children p = t.children p ++ added ∧ ∀ c ∈ added, t.size ≤ c := by
  refine ⟨((List.range' t.size (t'.size - t.size)).filter
    fun c => p < c && (t'.node c).parent == some p), ?_, ?_⟩
  · have hrange : List.range t'.size
        = List.range t.size ++ List.range' t.size (t'.size - t.size) := by
      have hsplit := @List.range'_append_1 0 t.size (t'.size - t.size)
      rw [Nat.zero_add, Nat.add_sub_cancel' h.size_le] at hsplit
      rw [List.range_eq_range', List.range_eq_range', hsplit]
    have hold : ∀ c ∈ List.range t.size,
        (decide (p < c) && (t'.node c).parent == some p)
          = (decide (p < c) && (t.node c).parent == some p) := by
      intro c hc
      rw [h.parent_eq c (List.mem_range.mp hc)]
    rw [children, hrange, List.filter_append, List.filter_congr hold, children]
  · intro c hc
    exact (List.mem_range'_1.mp (List.mem_filter.mp hc).1).1

theorem previousSibling?_eq (h : t.Grows t') {id : Nat} (hid : id < t.size) :
    t'.previousSibling? id = t.previousSibling? id := by
  rw [previousSibling?, previousSibling?, siblings, siblings, h.parent_eq id hid]
  cases (t.node id).parent with
  | none => rfl
  | some p =>
      obtain ⟨added, heq, hadded⟩ := h.exists_children_eq p
      have hnone : added.filter (· < id) = [] := by
        rw [List.filter_eq_nil_iff]
        intro c hc
        have := hadded c hc
        simp only [decide_eq_true_eq]
        omega
      simp only [heq, List.filter_append, hnone, List.append_nil]

theorem ancestors_eq (h : t.Grows t') {id : Nat} (hid : id < t.size) :
    t'.ancestors id = t.ancestors id := by
  induction id using Nat.strongRecOn with
  | ind id ih =>
      rw [ancestors, ancestors, h.parent_eq id hid]
      cases (t.node id).parent with
      | none => rfl
      | some p =>
          by_cases hp : p < id ∧ p ≠ root
          · simp only [if_pos hp, ih p hp.1 (by omega)]
          · simp only [if_neg hp]

theorem enclosingLoop?_eq (h : t.Grows t') {id : Nat} (hid : id < t.size) :
    t'.enclosingLoop? id = t.enclosingLoop? id := by
  rw [enclosingLoop?, enclosingLoop?, h.ancestors_eq hid]
  rw [← List.head?_filter, ← List.head?_filter]
  refine congrArg List.head? (List.filter_congr fun a ha => ?_)
  have := pos_and_lt_of_mem_ancestors ha
  rw [h.flow_eq (by omega)]

end Grows

/-! ### The same shape

Relatives of a node are found by parents and by flow, so they are the same in trees of the same
structure. -/

/-- The nodes have the same parents and play the same parts in the flow of control. -/
structure SameStructure (t t' : Tree) : Prop where
  size_eq : t'.size = t.size
  parent_eq : ∀ id, (t'.node id).parent = (t.node id).parent
  flow_eq : ∀ id, t'.flow id = t.flow id

namespace SameStructure

variable {t t' : Tree}

theorem sound (h : t.SameStructure t') (hs : t.Sound) : t'.Sound := by
  refine ⟨h.size_eq ▸ hs.size_pos, (h.parent_eq root).trans hs.root_parent, ?_⟩
  intro id hpos hlt
  rw [h.parent_eq]
  exact hs.exists_parent id hpos (h.size_eq ▸ hlt)

theorem children_eq (h : t.SameStructure t') (id : Nat) : t'.children id = t.children id := by
  simp only [children, h.size_eq, h.parent_eq]

theorem siblings_eq (h : t.SameStructure t') (id : Nat) : t'.siblings id = t.siblings id := by
  rw [siblings, siblings, h.parent_eq]
  cases (t.node id).parent with
  | none => rfl
  | some p => exact h.children_eq p

theorem later_eq (h : t.SameStructure t') (id : Nat) : t'.later id = t.later id := by
  rw [later, later, h.siblings_eq]

theorem nextSibling?_eq (h : t.SameStructure t') (id : Nat) :
    t'.nextSibling? id = t.nextSibling? id := by
  rw [nextSibling?, nextSibling?, h.siblings_eq]

theorem previousSibling?_eq (h : t.SameStructure t') (id : Nat) :
    t'.previousSibling? id = t.previousSibling? id := by
  rw [previousSibling?, previousSibling?, h.siblings_eq]

theorem ancestors_eq (h : t.SameStructure t') (id : Nat) : t'.ancestors id = t.ancestors id := by
  induction id using Nat.strongRecOn with
  | ind id ih =>
      rw [ancestors, ancestors, h.parent_eq id]
      cases (t.node id).parent with
      | none => rfl
      | some p =>
          by_cases hp : p < id ∧ p ≠ root
          · simp only [if_pos hp, ih p hp.1]
          · simp only [if_neg hp]

theorem enclosingLoop?_eq (h : t.SameStructure t') (id : Nat) :
    t'.enclosingLoop? id = t.enclosingLoop? id := by
  simp only [enclosingLoop?, h.ancestors_eq, h.flow_eq]

end SameStructure

/-- The trees differ at most in their symbols and in where their nodes jump to and stand. -/
structure SameShape (t t' : Tree) : Prop extends SameStructure t t' where
  statement_eq : ∀ id, t'.statement id = t.statement id
  flow_eq id := congrArg Statement.flow (statement_eq id)

namespace SameShape

variable {t t' t'' : Tree}

theorem refl (t : Tree) : t.SameShape t where
  size_eq := rfl
  parent_eq _ := rfl
  statement_eq _ := rfl

theorem trans (h : t.SameShape t') (h' : t'.SameShape t'') : t.SameShape t'' where
  size_eq := h'.size_eq.trans h.size_eq
  parent_eq id := (h'.parent_eq id).trans (h.parent_eq id)
  statement_eq id := (h'.statement_eq id).trans (h.statement_eq id)

theorem grows (h : t.SameShape t') : t.Grows t' :=
  ⟨Nat.le_of_eq h.size_eq.symm, fun id _ => h.parent_eq id, fun id _ => h.statement_eq id⟩

end SameShape

/-- Only the node that is modified changes. -/
theorem node_modify (t : Tree) (id : Nat) (f : Node → Node) (n : Nat) (hn : n < t.size) :
    (t.modify id f).node n = if id = n then f (t.node n) else t.node n := by
  unfold modify node size at *
  simp only [Array.getD_eq_getD_getElem?, Array.getElem?_modify, Array.getElem?_eq_getElem hn]
  split <;> rfl

/-- Changing nothing but a jump or a position keeps the shape. -/
theorem SameShape.modify (t : Tree) (id : Nat) {f : Node → Node}
    (hparent : ∀ n, (f n).parent = n.parent) (hstatement : ∀ n, (f n).statement = n.statement) :
    t.SameShape (t.modify id f) := by
  have hnode : ∀ n, ((t.modify id f).node n).parent = (t.node n).parent ∧
      ((t.modify id f).node n).statement = (t.node n).statement := by
    intro n
    by_cases hn : n < t.size
    · rw [node_modify t id f n hn]
      split
      · exact ⟨hparent _, hstatement _⟩
      · exact ⟨rfl, rfl⟩
    · rw [node_of_size_le (Nat.le_of_not_lt hn),
        node_of_size_le (by rw [size_modify]; exact Nat.le_of_not_lt hn)]
      exact ⟨rfl, rfl⟩
  exact {
    size_eq := size_modify t id f
    parent_eq := fun n => (hnode n).1
    statement_eq := fun n => (hnode n).2 }

theorem SameShape.setTarget (t : Tree) (id target : Nat) : t.SameShape (t.setTarget id target) :=
  SameShape.modify t id (fun _ => rfl) fun _ => rfl

theorem SameShape.setIndex (t : Tree) (id index : Nat) : t.SameShape (t.setIndex id index) :=
  SameShape.modify t id (fun _ => rfl) fun _ => rfl

theorem SameShape.withSymbols (t : Tree) (symbols : SymbolTable) :
    t.SameShape { t with symbols } where
  size_eq := rfl
  parent_eq _ := rfl
  statement_eq _ := rfl

end Tree

end MissionScript
