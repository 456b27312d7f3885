import Mathlib.Logic.Function.Basic
import MissionScript.Proofs.Tree.Order

/-!
# MissionScript.Proofs.Tree.Walk

Lists of children that are kept, a walk over them with a stack, and what the order of the walk says of
the links between the nodes.

The children of a node are read off the parents. A program that adds nodes can keep them in lists instead,
where each new node goes to the end of the list of its parent. `Built` has both, for nodes that are added in
any order and anywhere in the tree.

* `Built.lists_eq` — the lists that are kept are the children.
* `Walks` — the walk that takes a node from a stack and puts the children of the node on it. It ends, and
  lists one subtree after another (`walks_flatMap_subtree`).
* `mem_subtree_iff_ancestors` — a subtree is all the nodes that its top owns.
* `Coherent` — parents, lists, the order and the successors say the same.
-/

namespace MissionScript

namespace Tree

/-! ### Building a tree -/

/-- The tree was built from the empty one by adding nodes, each below a node that was there, and `lists` has
the children of every node as they were written down: a new one behind those that its parent had. -/
inductive Built : Tree → (Nat → List Nat) → Prop
  | empty : Built .empty fun _ => []
  | addNode {t : Tree} {lists : Nat → List Nat} (h : Built t lists) {p : Nat} (hp : p < t.size)
      (n : Node) : Built (t.addNode p n) (Function.update lists p (lists p ++ [t.size]))

namespace Built

variable {t : Tree} {lists : Nat → List Nat}

theorem sound (h : t.Built lists) : t.Sound := by
  induction h with
  | empty => exact sound_empty
  | addNode _ hp n ih => exact ih.addNode hp n

/-- The lists that are kept are the children. -/
theorem lists_eq (h : t.Built lists) : lists = t.children := by
  induction h with
  | empty =>
      funext id
      cases id <;> rfl
  | @addNode t lists _ p hp n ih =>
      funext id
      rw [children_addNode t hp, Function.update_apply, ih]
      split
      · next heq => rw [heq]
      · rw [List.append_nil]

end Built

/-! ### The walk -/

/-- With the nodes `waiting` on the stack, the top in front, the walk lists the nodes `order`. It takes the
top from the stack and puts the children of that node on it, the first one at the top, until no node waits. -/
inductive Walks (lists : Nat → List Nat) : List Nat → List Nat → Prop
  | done : Walks lists [] []
  | visit {id : Nat} {waiting order : List Nat} (hrest : Walks lists (lists id ++ waiting) order) :
      Walks lists (id :: waiting) (id :: order)

namespace Walks

variable {lists : Nat → List Nat} {waiting order : List Nat}

theorem unique {order' : List Nat} (h : Walks lists waiting order) (h' : Walks lists waiting order') :
    order = order' := by
  induction h generalizing order' with
  | done =>
      cases h'
      rfl
  | visit _ ih =>
      cases h' with
      | visit hrest' => rw [ih hrest']

/-- What waits below is listed after everything that is above it on the stack. -/
theorem append {below order' : List Nat} (h : Walks lists waiting order)
    (h' : Walks lists below order') : Walks lists (waiting ++ below) (order ++ order') := by
  induction h with
  | done => exact h'
  | visit _ ih =>
      rw [List.append_assoc] at ih
      exact .visit ih

/-- The nodes on the stack are listed one after another, each with all that comes from it. -/
theorem flatMap {listed : Nat → List Nat} (h : ∀ id ∈ waiting, Walks lists [id] (listed id)) :
    Walks lists waiting (waiting.flatMap listed) := by
  induction waiting with
  | nil => exact .done
  | cons id waiting ih =>
      obtain ⟨hid, hwaiting⟩ := List.forall_mem_cons.mp h
      rw [List.flatMap_cons]
      exact hid.append (ih hwaiting)

end Walks

theorem walks_subtree (t : Tree) (id : Nat) : Walks t.children [id] (t.subtree id) := by
  induction id using induction_on_children (t := t) with
  | step id ih =>
      rw [subtree_eq]
      refine .visit ?_
      rw [List.append_nil]
      exact .flatMap ih

/-- The walk ends whatever waits on the stack, and lists one subtree after another. -/
theorem walks_flatMap_subtree (t : Tree) (waiting : List Nat) :
    Walks t.children waiting (waiting.flatMap t.subtree) :=
  .flatMap fun id _ => walks_subtree t id

theorem walks_root_iff (t : Tree) {order : List Nat} :
    Walks t.children (t.children root) order ↔ order = t.preorder := by
  have hwalks : Walks t.children (t.children root) t.preorder := walks_flatMap_subtree t _
  constructor
  · exact fun h => h.unique hwalks
  · rintro rfl
    exact hwalks

/-! ### Subtrees and the nodes above -/

/-- A subtree is its top and all the nodes that its top owns. -/
theorem mem_subtree_iff_ancestors {t : Tree} (hs : t.Sound) {id : Nat} (hpos : 0 < id) (x : Nat) :
    x ∈ t.subtree id ↔ x = id ∨ id ∈ t.ancestors x := by
  induction x using Nat.strongRecOn with
  | ind x ih =>
      rw [mem_subtree_iff hs]
      refine or_congr_right ?_
      cases hp : (t.node x).parent with
      | none =>
          rw [ancestors, hp]
          simp
      | some p =>
          rw [ancestors_of_parent hs hp]
          simp only [Option.some.injEq, exists_eq_left', ih p (hs.parent_lt hp).1]
          split
          · next hroot =>
            -- the root is no node that is asked for, and no node is above it
            rw [hroot, ancestors, hs.root_parent]
            simp [root, Nat.ne_of_lt hpos]
          · rw [List.mem_cons, eq_comm]

/-! ### The links of a tree -/

/-- The sibling after a node is the one behind it in the list of its parent. -/
theorem nextSibling?_eq_getElem? {t : Tree} (hs : t.Sound) {id p : Nat}
    (hp : (t.node id).parent = some p) :
    t.nextSibling? id = (t.children p)[(t.children p).idxOf id + 1]? := by
  obtain ⟨before, hchildren⟩ := exists_children_eq (hs.mem_children_iff.mpr hp)
  have hsorted := t.sorted_children p
  rw [hchildren, List.pairwise_append] at hsorted
  have hbefore : id ∉ before := fun hmem =>
    Nat.lt_irrefl id (hsorted.2.2 id hmem id List.mem_cons_self)
  rw [nextSibling?_of_children hchildren, hchildren, List.idxOf_append_of_notMem hbefore,
    List.idxOf_cons_self, Nat.add_zero, List.getElem?_append_right (by omega), Nat.add_sub_cancel_left,
    List.getElem?_cons_succ, List.head?_eq_getElem?]

/-- A node stands once among the children of its parent and is no child of another node. -/
theorem count_children {t : Tree} (hs : t.Sound) {id p : Nat} (hp : (t.node id).parent = some p)
    (q : Nat) : (t.children q).count id = if q = p then 1 else 0 := by
  have hnodup : (t.children q).Nodup := (t.sorted_children q).imp Nat.ne_of_lt
  rw [hnodup.count]
  refine if_congr ?_ rfl rfl
  rw [hs.mem_children_iff, hp, Option.some.injEq, eq_comm]

/-- Parents, the lists of children, the order and the successors say the same. -/
structure Coherent (t : Tree) (lists : Nat → List Nat) : Prop where
  /-- Every node but the root stands once in the list of its parent, which has a smaller number, and in no
  other list. -/
  listed : ∀ id, 0 < id → id < t.size → ∃ p, (t.node id).parent = some p ∧ p < id ∧
    ∀ q, (lists q).count id = if q = p then 1 else 0
  /-- The walk from the root ends, and the order is what it lists. -/
  walked : ∀ order, Walks lists (lists root) order ↔ order = t.preorder
  /-- Every node but the root stands once in the order, and nothing else stands there. -/
  visited : ∀ id, t.preorder.count id = if 0 < id ∧ id < t.size then 1 else 0
  /-- A subtree has its top and the nodes that the top owns. -/
  owned : ∀ id, 0 < id → ∀ x, x ∈ t.subtree id ↔ x = id ∨ id ∈ t.ancestors x
  /-- A subtree begins with its top, and the subtrees of the children follow as the children are listed. -/
  nested : ∀ id, t.subtree id = id :: (lists id).flatMap t.subtree
  /-- The sibling after a node is the one behind it in the list. -/
  adjoined : ∀ id p, (t.node id).parent = some p →
    t.nextSibling? id = (lists p)[(lists p).idxOf id + 1]?
  /-- A subtree stands in the order without a gap, and the successor of its top is the node behind it; there
  is none exactly when the subtree ends the order. -/
  followed : ∀ id, 0 < id → id < t.size → ∃ before rest,
    t.preorder = before ++ (t.subtree id ++ rest) ∧ t.successor? id = rest.head?

/-- In a tree that was built by adding nodes anywhere, parents, the lists of children, the order and the
successors say the same. -/
theorem Built.coherent {t : Tree} {lists : Nat → List Nat} (h : t.Built lists) : t.Coherent lists := by
  have hs := h.sound
  obtain rfl := h.lists_eq
  constructor
  case listed =>
    intro id hpos hlt
    obtain ⟨p, hp, hpid⟩ := hs.exists_parent id hpos hlt
    exact ⟨p, hp, hpid, count_children hs hp⟩
  case walked => exact fun order => walks_root_iff t
  case visited =>
    intro id
    rw [(nodup_preorder t).count]
    exact if_congr (mem_preorder_iff hs) rfl rfl
  case owned => exact fun id hpos => mem_subtree_iff_ancestors hs hpos
  case nested => exact subtree_eq t
  case adjoined => exact fun id p hp => nextSibling?_eq_getElem? hs hp
  case followed =>
    intro id hpos hlt
    obtain ⟨before, heq⟩ := exists_preorder_eq hs hpos hlt
    exact ⟨before, t.after id, heq, successor?_eq_head? hs id⟩

/-- Two nodes below the root that get their children by turns. -/
theorem Built.coherent_interleaved :
    let t := ((((Tree.empty.addNode 0 {}).addNode 0 {}).addNode 1 {}).addNode 2 {}).addNode 1 {}
    (∃ lists, t.Built lists ∧ t.Coherent lists ∧ lists 0 = [1, 2] ∧ lists 1 = [3, 5]) ∧
      t.preorder = [1, 3, 5, 2, 4] := by
  intro t
  have hbuilt : t.Built _ :=
    ((((Built.empty.addNode (p := 0) (by decide) {}).addNode (p := 0) (by decide) {}).addNode (p := 1)
      (by decide) {}).addNode (p := 2) (by decide) {}).addNode (p := 1) (by decide) {}
  have hcoherent := hbuilt.coherent
  refine ⟨⟨_, hbuilt, hcoherent, by decide, by decide⟩, ((hcoherent.walked _).mp ?_).symm⟩
  exact .visit (.visit (.visit (.visit (.visit .done))))

end Tree

end MissionScript
