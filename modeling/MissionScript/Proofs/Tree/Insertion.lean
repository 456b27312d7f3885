import MissionScript.Proofs.Statement.Renumbering
import MissionScript.Proofs.Tree.Order
import Mathlib.Data.List.Sort

/-!
# MissionScript.Proofs.Tree.Insertion

Two trees of which one has an auxiliary node more.

* `renumber n k` — what was number `k` once something else has taken the number `n`.
* `Inserted n t t'` — the node `n` of `t'` is auxiliary, and the others are those of `t`, renumbered.
* `Spaced n l l'` — the list `l'` is `l` renumbered, and `n` may stand in between. So are the children
  of a node, its subtree, what stands after it and the whole order (`Inserted.preorder`,
  `Inserted.onward`, `Inserted.after`).

The relation is between lists first, and between trees by way of their lists. A new node has no
children, and so it is one more entry in any list of nodes that it is in, and the order of the
others does not change. The tables of symbols are not part of the relation: they are compared where
they are needed.
-/

namespace MissionScript

/-! ### Renumbering

Numbers below the new one stay, the others move up by one, so the order of numbers is kept and the
new number is the only one that is left out. -/

/-- What was number `k` once something else has taken the number `n`. -/
def renumber (n k : Nat) : Nat := if k < n then k else k + 1

theorem renumber_of_lt {n k : Nat} (h : k < n) : renumber n k = k := if_pos h

theorem renumber_of_le {n k : Nat} (h : n ≤ k) : renumber n k = k + 1 := if_neg (Nat.not_lt.mpr h)

theorem renumber_ne (n k : Nat) : renumber n k ≠ n := by
  unfold renumber
  split <;> omega

@[simp] theorem renumber_lt_iff {n a b : Nat} : renumber n a < renumber n b ↔ a < b := by
  unfold renumber
  split <;> split <;> omega

@[simp] theorem renumber_inj {n a b : Nat} : renumber n a = renumber n b ↔ a = b := by
  unfold renumber
  split <;> split <;> omega

/-- Every other number is one that something has got. -/
theorem exists_renumber {n k : Nat} (h : k ≠ n) : ∃ j, k = renumber n j := by
  rcases Nat.lt_or_gt_of_ne h with hlt | hgt
  · exact ⟨k, (renumber_of_lt hlt).symm⟩
  · exact ⟨k - 1, by rw [renumber_of_le (by omega)]; omega⟩

theorem renumber_lt_succ_iff {n k size : Nat} (h : n ≤ size) :
    renumber n k < size + 1 ↔ k < size := by
  rw [← renumber_of_le h, renumber_lt_iff]

/-! ### Lists with one more entry

The definition drops `n` from the longer list wherever it stands, which makes the rules for putting
lists together short. Taking lists apart again needs to know on which side of a cut `n` is: when the
fronts correspond, so do the rests (`of_append`). -/

/-- The list `l'` is `l` renumbered, and `n` may stand in between. -/
def Spaced (n : Nat) (l l' : List Nat) : Prop := l'.filter (· ≠ n) = l.map (renumber n)

namespace Spaced

variable {n : Nat} {l l' m m' : List Nat}

theorem append (h : Spaced n l l') (hm : Spaced n m m') : Spaced n (l ++ m) (l' ++ m') := by
  rw [Spaced, List.filter_append, List.map_append, h, hm]

/-- What follows two ends that correspond does so as well. -/
theorem of_append (h : Spaced n (l ++ m) (l' ++ m')) (hl : Spaced n l l') : Spaced n m m' := by
  rw [Spaced, List.filter_append, List.map_append, hl] at h
  exact List.append_cancel_left h

theorem cons_renumber (h : Spaced n l l') (k : Nat) : Spaced n (k :: l) (renumber n k :: l') := by
  rw [Spaced, List.filter_cons_of_pos (by simpa using renumber_ne n k), List.map_cons, h]

theorem of_cons {k : Nat} (h : Spaced n (k :: l) (renumber n k :: l')) : Spaced n l l' := by
  rw [Spaced, List.filter_cons_of_pos (by simpa using renumber_ne n k), List.map_cons] at h
  exact (List.cons.inj h).2

theorem cons_self (h : Spaced n l l') : Spaced n l (n :: l') := by
  rw [Spaced, List.filter_cons_of_neg (by simp), h]

theorem eq_nil (h : Spaced n l []) : l = [] := List.map_eq_nil_iff.mp h.symm

/-- What stands first is `n`, or the first entry of the other list. -/
theorem cases_cons {x : Nat} (h : Spaced n l (x :: l')) :
    (x = n ∧ Spaced n l l') ∨ ∃ k m, l = k :: m ∧ x = renumber n k ∧ Spaced n m l' := by
  by_cases hx : x = n
  · subst hx
    rw [Spaced, List.filter_cons_of_neg (by simp)] at h
    exact Or.inl ⟨rfl, h⟩
  · rw [Spaced, List.filter_cons_of_pos (by simpa using hx)] at h
    cases l with
    | nil => cases h
    | cons k m =>
        obtain ⟨rfl, htail⟩ := List.cons.inj h
        exact Or.inr ⟨k, m, rfl, rfl, htail⟩

/-- The lists below the entries correspond when there is nothing below `n`. -/
theorem flatMap (h : Spaced n l l') {f f' : Nat → List Nat}
    (hf : ∀ k ∈ l, Spaced n (f k) (f' (renumber n k))) (hn : Spaced n [] (f' n)) :
    Spaced n (l.flatMap f) (l'.flatMap f') := by
  induction l' generalizing l with
  | nil =>
      rw [h.eq_nil]
      rfl
  | cons x l' ih =>
      rw [List.flatMap_cons]
      rcases h.cases_cons with ⟨rfl, htail⟩ | ⟨k, m, rfl, rfl, htail⟩
      · exact hn.append (ih htail hf)
      · rw [List.flatMap_cons]
        exact (hf k List.mem_cons_self).append
          (ih htail fun j hj => hf j (List.mem_cons_of_mem _ hj))

theorem filter (h : Spaced n l l') {p p' : Nat → Bool} (hp : ∀ k, p' (renumber n k) = p k) :
    Spaced n (l.filter p) (l'.filter p') := by
  have hcomm : (l'.filter p').filter (· ≠ n) = (l'.filter (· ≠ n)).filter p' := by
    rw [List.filter_filter, List.filter_filter]
    exact List.filter_congr fun x _ => Bool.and_comm _ _
  rw [Spaced, hcomm, h, List.filter_map]
  exact congrArg _ (List.filter_congr fun k _ => hp k)

/-- What is picked out is the same when `n` is not picked. -/
theorem filter_eq (h : Spaced n l l') {p p' : Nat → Bool} (hp : ∀ k, p' (renumber n k) = p k)
    (hn : p' n = false) : l'.filter p' = (l.filter p).map (renumber n) := by
  have hself : (l'.filter p').filter (· ≠ n) = l'.filter p' := by
    refine List.filter_eq_self.mpr fun x hx => ?_
    have hpx := (List.mem_filter.mp hx).2
    rw [decide_eq_true_eq]
    rintro rfl
    rw [hn] at hpx
    cases hpx
  rw [← hself, h.filter hp]

end Spaced

/-! ### Trees with one more node

The numbers in a node are those of its parent and its target, and the number of its line, which
moves along with that of the node. -/

/-- The node once another one has taken the number `n`. -/
def Node.renumber (n : Nat) (x : Node) : Node :=
  { x with
    parent := x.parent.map (MissionScript.renumber n)
    statement := x.statement.withLine (MissionScript.renumber n x.statement.line)
    target := x.target.map (MissionScript.renumber n) }

/-- A node in which all numbers are smaller stays as it is. -/
theorem Node.renumber_eq_self {n : Nat} {x : Node} (hparent : ∀ p, x.parent = some p → p < n)
    (hline : x.statement.line < n) (htarget : x.target = none) : x.renumber n = x := by
  have hmap : x.parent.map (MissionScript.renumber n) = x.parent := by
    cases hp : x.parent with
    | none => rfl
    | some p => rw [Option.map_some, renumber_of_lt (hparent p hp)]
  rw [Node.renumber, hmap, renumber_of_lt hline, htarget, Option.map_none, ← htarget]
  rfl

namespace Tree

/-- The node `n` of `t'` is auxiliary, and the others are those of `t`, renumbered. -/
structure Inserted (n : Nat) (t t' : Tree) : Prop where
  pos : 0 < n
  le_size : n ≤ t.size
  size_eq : t'.size = t.size + 1
  node_eq : ∀ id, t'.node (renumber n id) = (t.node id).renumber n
  auxiliary : (t'.statement n).isAuxiliary = true
  flow_eq : t'.flow n = .plain

namespace Inserted

variable {n : Nat} {t t' : Tree}

theorem statement_eq (h : Inserted n t t') (id : Nat) :
    t'.statement (renumber n id)
      = (t.statement id).withLine (renumber n (t.statement id).line) := by
  rw [statement, h.node_eq]
  rfl

theorem flow_renumber (h : Inserted n t t') (id : Nat) : t'.flow (renumber n id) = t.flow id := by
  rw [flow, h.statement_eq]
  rfl

theorem isExecutable_renumber (h : Inserted n t t') (id : Nat) :
    (t'.statement (renumber n id)).isExecutable = (t.statement id).isExecutable := by
  rw [h.statement_eq, Statement.isExecutable_withLine]

theorem isExecutable_self (h : Inserted n t t') : (t'.statement n).isExecutable = false :=
  Statement.isExecutable_eq_false_of_isAuxiliary h.auxiliary

theorem parent_eq (h : Inserted n t t') (id : Nat) :
    (t'.node (renumber n id)).parent = (t.node id).parent.map (renumber n) := by
  rw [h.node_eq]
  rfl

theorem renumber_root (h : Inserted n t t') : renumber n root = root := renumber_of_lt h.pos

theorem renumber_eq_root_iff (h : Inserted n t t') {id : Nat} :
    renumber n id = root ↔ id = root := by
  conv => lhs; rhs; rw [← h.renumber_root]
  exact renumber_inj

/-- A node stays one of the tree. -/
theorem bounds (h : Inserted n t t') {id : Nat} (hpos : 0 < id) (hlt : id < t.size) :
    0 < renumber n id ∧ renumber n id < t'.size := by
  refine ⟨Nat.pos_of_ne_zero fun hzero => ?_, ?_⟩
  · have := h.renumber_eq_root_iff.mp hzero
    have : root = 0 := rfl
    omega
  · rw [h.size_eq]
    exact (renumber_lt_succ_iff h.le_size).mpr hlt

/-- A node that is added last is one more, when all numbers in the others are smaller. -/
theorem of_add {t : Tree} (hpos : 0 < t.size)
    (hsmall : ∀ id, (t.node id).renumber t.size = t.node id) (p : Nat) {st : Statement}
    (haux : st.isAuxiliary = true) (hflow : st.flow = .plain) :
    Inserted t.size t (t.add p st) := by
  have hself : (t.add p st).statement t.size = st := by
    rw [statement, add, node_addNode, if_pos rfl]
  refine ⟨hpos, Nat.le_refl _, size_add t p st, fun id => ?_, by rw [hself]; exact haux,
    by rw [flow, hself]; exact hflow⟩
  rw [hsmall, add, node_addNode, if_neg (renumber_ne _ _)]
  by_cases hlt : id < t.size
  · rw [renumber_of_lt hlt]
  · have hle := Nat.le_of_not_lt hlt
    rw [renumber_of_le hle, node_of_size_le hle, node_of_size_le (by omega)]

/-! ### Families

Children are found by their parents, and all other relatives by children. The induction for subtrees
goes down from the root, and for the nodes above it goes up. -/

/-- Nothing stands below the node. -/
theorem children_self (h : Inserted n t t') : t'.children n = [] := by
  rw [List.eq_nil_iff_forall_not_mem]
  intro c hc
  obtain ⟨-, hlt, hparent⟩ := mem_children.mp hc
  obtain ⟨k, rfl⟩ := exists_renumber (Nat.ne_of_gt hlt)
  rw [h.parent_eq] at hparent
  obtain ⟨p, -, hp⟩ := Option.map_eq_some_iff.mp hparent
  exact renumber_ne n p hp

theorem mem_children_iff (h : Inserted n t t') {c p : Nat} :
    renumber n c ∈ t'.children (renumber n p) ↔ c ∈ t.children p := by
  rw [mem_children, mem_children, h.size_eq, renumber_lt_succ_iff h.le_size, renumber_lt_iff,
    h.parent_eq, Option.map_eq_some_iff]
  simp

theorem children (h : Inserted n t t') (p : Nat) :
    Spaced n (t.children p) (t'.children (renumber n p)) := by
  refine List.Pairwise.eq_of_mem_iff (r := (· < ·)) ((t'.sorted_children _).filter _) ?_ ?_
  · rw [List.pairwise_map]
    exact (t.sorted_children p).imp fun hlt => renumber_lt_iff.mpr hlt
  · intro x
    rw [List.mem_filter, List.mem_map]
    constructor
    · rintro ⟨hx, hne⟩
      obtain ⟨k, rfl⟩ := exists_renumber (by simpa using hne)
      exact ⟨k, h.mem_children_iff.mp hx, rfl⟩
    · rintro ⟨k, hk, rfl⟩
      exact ⟨h.mem_children_iff.mpr hk, by simpa using renumber_ne n k⟩

theorem subtree (h : Inserted n t t') (p : Nat) :
    Spaced n (t.subtree p) (t'.subtree (renumber n p)) := by
  induction p using induction_on_children (t := t) with
  | step p ih =>
      rw [subtree_eq, subtree_eq]
      refine ((h.children p).flatMap ih ?_).cons_renumber p
      rw [subtree_of_children_eq_nil h.children_self]
      exact Spaced.cons_self rfl

theorem preorder (h : Inserted n t t') : Spaced n t.preorder t'.preorder := by
  have hroot := h.subtree root
  rw [subtree_eq, subtree_eq] at hroot
  have hbelow := hroot.of_cons
  rw [h.renumber_root] at hbelow
  exact hbelow

/-- The nodes from one on are the same. -/
theorem onward (h : Inserted n t t') (hs : t.Sound) (hs' : t'.Sound) {id : Nat} (hpos : 0 < id)
    (hlt : id < t.size) : Spaced n (t.onward id) (t'.onward (renumber n id)) := by
  obtain ⟨hpos', hlt'⟩ := h.bounds hpos hlt
  have hnodup : (t.preorder.map (renumber n)).Nodup :=
    (nodup_preorder _).map fun _ _ heq => renumber_inj.mp heq
  -- both are ends of the renumbered order that begin with the same node
  have hsuffix := (onward_isSuffix hs hpos hlt).map (renumber n)
  have hsuffix' := (onward_isSuffix hs' hpos' hlt').filter (· ≠ n)
  rw [onward_eq_cons, List.map_cons] at hsuffix
  rw [h.preorder, onward_eq_cons,
    List.filter_cons_of_pos (by simpa using renumber_ne n id)] at hsuffix'
  rw [onward_eq_cons, onward_eq_cons]
  exact Spaced.cons_renumber (eq_of_suffix hnodup hsuffix' hsuffix) id

/-- The nodes after one and everything below it are the same. -/
theorem after (h : Inserted n t t') (hs : t.Sound) (hs' : t'.Sound) {id : Nat} (hpos : 0 < id)
    (hlt : id < t.size) : Spaced n (t.after id) (t'.after (renumber n id)) :=
  (h.onward hs hs' hpos hlt).of_append (h.subtree id)

theorem later (h : Inserted n t t') (id : Nat) :
    Spaced n (t.later id) (t'.later (renumber n id)) := by
  have hsiblings : Spaced n (t.siblings id) (t'.siblings (renumber n id)) := by
    rw [siblings, siblings, h.parent_eq]
    cases (t.node id).parent with
    | none => exact rfl
    | some p => exact h.children p
  exact hsiblings.filter fun k => by simp

theorem ancestors_eq (h : Inserted n t t') (id : Nat) :
    t'.ancestors (renumber n id) = (t.ancestors id).map (renumber n) := by
  induction id using Nat.strongRecOn with
  | ind id ih =>
      rw [ancestors, ancestors, h.parent_eq]
      cases (t.node id).parent with
      | none => rfl
      | some p =>
          have hroot : renumber n p ≠ root ↔ p ≠ root := not_congr h.renumber_eq_root_iff
          by_cases hp : p < id ∧ p ≠ root
          · simp only [Option.map_some, renumber_lt_iff, hroot, if_pos hp, ih p hp.1, List.map_cons]
          · simp only [Option.map_some, renumber_lt_iff, hroot, if_neg hp, List.map_nil]

theorem enclosingLoop?_eq (h : Inserted n t t') (id : Nat) :
    t'.enclosingLoop? (renumber n id) = (t.enclosingLoop? id).map (renumber n) := by
  rw [enclosingLoop?, h.ancestors_eq, List.find?_map, enclosingLoop?]
  simp only [Function.comp_def, h.flow_renumber]

/-! ### More nodes

Adding the same node to both trees gives it the numbers `size` and `size + 1`, which correspond. -/

/-- Nothing but the nodes matters. -/
theorem of_nodes {u u' : Tree} (h : Inserted n t t') (hu : u.nodes = t.nodes)
    (hu' : u'.nodes = t'.nodes) : Inserted n u u' := by
  cases u
  cases u'
  cases hu
  cases hu'
  exact ⟨h.pos, h.le_size, h.size_eq, h.node_eq, h.auxiliary, h.flow_eq⟩

/-- A node that is added to both trees keeps them so. -/
theorem addNode (h : Inserted n t t') (p : Nat) (x : Node) :
    Inserted n (t.addNode p x) (t'.addNode (renumber n p) (x.renumber n)) := by
  have hself : (t'.addNode (renumber n p) (x.renumber n)).node n = t'.node n := by
    refine node_addNode_of_lt ?_ _ _
    have := h.le_size
    rw [h.size_eq]
    omega
  refine ⟨h.pos, ?_, ?_, ?_, ?_, ?_⟩
  · have := h.le_size
    rw [size_addNode]
    omega
  · rw [size_addNode, size_addNode, h.size_eq]
  · intro id
    rw [node_addNode, node_addNode, h.size_eq, ← renumber_of_le h.le_size]
    by_cases hid : id = t.size
    · rw [if_pos hid, if_pos (renumber_inj.mpr hid)]
      rfl
    · rw [if_neg hid, if_neg fun heq => hid (renumber_inj.mp heq)]
      exact h.node_eq id
  · rw [statement, hself]
    exact h.auxiliary
  · rw [flow, statement, hself]
    exact h.flow_eq

end Inserted

end Tree

end MissionScript
