import MissionScript.Proofs.Tree.Shape
import Mathlib.Data.List.Nodup

/-!
# MissionScript.Proofs.Tree.Order

The order of a tree in which each node stands before its children.

* `subtree_eq` — a subtree without the bookkeeping of its definition.
* `after` — the nodes after a node and everything below it. The whole order is what stands before
  the node, its subtree, and what stands after it (`exists_preorder_eq`), and `successor?` is the
  first node after it (`successor?_eq_head?`).
* `onward` — a node and all that stands from it on. These are the ends of the order
  (`onward_isSuffix`), and a node after another one begins such an end (`onward_of_head?_after`).
* `mem_preorder_iff`, `nodup_preorder` — the order lists every node but the root, each once.

A walk over a tree keeps a list of what is left to visit, and `successor?` climbs until it finds a
later sibling. Both come down to the two lists `after` and `onward`, which are defined by going up
from a node, and which are ends of the order. Most statements on what comes next are proved by
comparing such ends: in a list without repetitions, an end is known by its first entry
(`eq_of_suffix`).
-/

namespace MissionScript

namespace Tree

/-! ### Subtrees

The recursion that defines a subtree ends because children have larger numbers than their parents.
It carries a proof of this with each child, which the equation drops. -/

theorem subtree_eq (t : Tree) (id : Nat) :
    t.subtree id = id :: (t.children id).flatMap t.subtree := by
  rw [subtree]
  simp only [List.flatMap_subtype, List.unattach_attach]

theorem subtree_of_children_eq_nil {t : Tree} {id : Nat} (h : t.children id = []) :
    t.subtree id = [id] := by
  rw [subtree_eq, h, List.flatMap_nil]

theorem self_mem_subtree (t : Tree) (id : Nat) : id ∈ t.subtree id := by
  rw [subtree_eq]
  exact List.mem_cons_self

/-- An induction downwards: a node has the property when its children do. -/
theorem induction_on_children {t : Tree} {motive : Nat → Prop}
    (step : ∀ id, (∀ c ∈ t.children id, motive c) → motive id) (id : Nat) : motive id := by
  induction h : t.size - id using Nat.strongRecOn generalizing id with
  | ind n ih =>
      refine step id fun c hc => ?_
      have hlt := mem_children.mp hc
      exact ih (t.size - c) (by omega) c rfl

/-- The nodes of a subtree are its top and nodes with larger numbers. -/
theorem le_of_mem_subtree {t : Tree} {id x : Nat} (h : x ∈ t.subtree id) :
    id ≤ x ∧ (x = id ∨ x < t.size) := by
  induction id using induction_on_children (t := t) with
  | step id ih =>
      rw [subtree_eq] at h
      rcases List.mem_cons.mp h with rfl | hbelow
      · exact ⟨Nat.le_refl _, Or.inl rfl⟩
      · obtain ⟨c, hc, hx⟩ := List.mem_flatMap.mp hbelow
        have hchild := mem_children.mp hc
        have := ih c hc hx
        omega

/-- What is in a subtree is its top, or is the child of a node there. -/
theorem mem_subtree_iff_children {t : Tree} {id x : Nat} :
    x ∈ t.subtree id ↔ x = id ∨ ∃ p ∈ t.subtree id, x ∈ t.children p := by
  induction id using induction_on_children (t := t) with
  | step id ih =>
      constructor
      · intro h
        rw [subtree_eq] at h
        rcases List.mem_cons.mp h with rfl | hbelow
        · exact Or.inl rfl
        · obtain ⟨c, hc, hx⟩ := List.mem_flatMap.mp hbelow
          refine Or.inr ?_
          rcases (ih c hc).mp hx with rfl | ⟨p, hmem, hp⟩
          · exact ⟨id, self_mem_subtree t id, hc⟩
          · refine ⟨p, ?_, hp⟩
            rw [subtree_eq]
            exact List.mem_cons_of_mem _ (List.mem_flatMap.mpr ⟨c, hc, hmem⟩)
      · rintro (rfl | ⟨p, hmem, hp⟩)
        · exact self_mem_subtree t x
        · rw [subtree_eq] at hmem ⊢
          refine List.mem_cons_of_mem _ ?_
          rcases List.mem_cons.mp hmem with rfl | hbelow
          · exact List.mem_flatMap.mpr ⟨x, hp, self_mem_subtree t x⟩
          · obtain ⟨c, hc, hpc⟩ := List.mem_flatMap.mp hbelow
            exact List.mem_flatMap.mpr ⟨c, hc, (ih c hc).mpr (Or.inr ⟨p, hpc, hp⟩)⟩

/-- What is in a subtree is its top, or has its parent there. -/
theorem mem_subtree_iff {t : Tree} (hs : t.Sound) {id x : Nat} :
    x ∈ t.subtree id ↔ x = id ∨ ∃ p, (t.node x).parent = some p ∧ p ∈ t.subtree id := by
  simp only [mem_subtree_iff_children (x := x), hs.mem_children_iff, and_comm]

/-! ### Every node once

Two subtrees either are disjoint or one of them is in the other, because of each node the parent is
known. -/

/-- Subtrees below different children of one node have nothing in common. -/
theorem disjoint_subtree {t : Tree} {p a b : Nat} (ha : a ∈ t.children p) (hb : b ∈ t.children p)
    (hne : a ≠ b) : List.Disjoint (t.subtree a) (t.subtree b) := by
  intro x hxa hxb
  have same_parent : ∀ {x q q' : Nat}, x ∈ t.children q → x ∈ t.children q' → q = q' := by
    intro x q q' hq hq'
    exact Option.some.inj ((mem_children.mp hq).2.2.symm.trans (mem_children.mp hq').2.2)
  -- one of two different siblings cannot be below the other, as their parent is not
  have apart : ∀ {c d : Nat}, c ∈ t.children p → d ∈ t.children p → c ≠ d →
      c ∉ t.subtree d := by
    intro c d hc hd hcd hmem
    rcases mem_subtree_iff_children.mp hmem with heq | ⟨q, hqd, hq⟩
    · exact hcd heq
    · obtain rfl := same_parent hc hq
      have := (le_of_mem_subtree hqd).1
      have := (mem_children.mp hd).2.1
      omega
  induction x using Nat.strongRecOn with
  | ind x ih =>
      rcases mem_subtree_iff_children.mp hxa with rfl | ⟨q, hqa, hq⟩
      · exact apart ha hb hne hxb
      · rcases mem_subtree_iff_children.mp hxb with rfl | ⟨q', hqb, hq'⟩
        · exact apart hb ha hne.symm hxa
        · obtain rfl := same_parent hq hq'
          exact ih q (mem_children.mp hq).2.1 hqa hqb

theorem nodup_flatMap_subtree {t : Tree} {p : Nat} (h : ∀ c ∈ t.children p, (t.subtree c).Nodup) :
    ((t.children p).flatMap t.subtree).Nodup := by
  rw [List.nodup_flatMap]
  refine ⟨h, ?_⟩
  refine List.Pairwise.imp_of_mem ?_ (t.sorted_children p)
  intro a b ha hb hlt
  exact disjoint_subtree ha hb (Nat.ne_of_lt hlt)

theorem nodup_subtree (t : Tree) (id : Nat) : (t.subtree id).Nodup := by
  induction id using induction_on_children (t := t) with
  | step id ih =>
      rw [subtree_eq, List.nodup_cons]
      refine ⟨?_, nodup_flatMap_subtree ih⟩
      intro hmem
      obtain ⟨c, hc, hid⟩ := List.mem_flatMap.mp hmem
      have := (mem_children.mp hc).2.1
      have := (le_of_mem_subtree hid).1
      omega

theorem nodup_preorder (t : Tree) : t.preorder.Nodup :=
  nodup_flatMap_subtree fun c _ => nodup_subtree t c

/-- The nodes of the order are nodes of the tree below the root. -/
theorem bounds_of_mem_preorder {t : Tree} {id : Nat} (h : id ∈ t.preorder) : 0 < id ∧ id < t.size := by
  obtain ⟨c, hc, hid⟩ := List.mem_flatMap.mp h
  have hchild := mem_children.mp hc
  have := le_of_mem_subtree hid
  omega

/-! ### What stands after a node

After a node and its subtree come its later siblings with theirs, and then what comes after the
parent. -/

/-- The nodes after a node and everything below it. -/
def after (t : Tree) (id : Nat) : List Nat :=
  match (t.node id).parent with
  | some p => if p < id then (t.later id).flatMap t.subtree ++ t.after p else []
  | none => []
termination_by id

theorem after_root {t : Tree} (hs : t.Sound) : t.after root = [] := by
  rw [after, hs.root_parent]

theorem after_of_parent {t : Tree} (hs : t.Sound) {id p : Nat}
    (h : (t.node id).parent = some p) :
    t.after id = (t.later id).flatMap t.subtree ++ t.after p := by
  rw [after, h]
  simp only [if_pos (hs.parent_lt h).1]

/-- The order is what stands before a node, its subtree, and what stands after it. -/
theorem exists_preorder_eq {t : Tree} (hs : t.Sound) {id : Nat} (hpos : 0 < id)
    (hlt : id < t.size) : ∃ before, t.preorder = before ++ (t.subtree id ++ t.after id) := by
  induction id using Nat.strongRecOn with
  | ind id ih =>
      obtain ⟨p, hp, hpid⟩ := hs.exists_parent id hpos hlt
      obtain ⟨before, hchildren⟩ := exists_children_eq (hs.mem_children_iff.mpr hp)
      rw [after_of_parent hs hp]
      rcases Nat.eq_zero_or_pos p with rfl | hppos
      · refine ⟨before.flatMap t.subtree, ?_⟩
        rw [show t.after 0 = [] from after_root hs, preorder, root, hchildren,
          List.flatMap_append, List.flatMap_cons, List.append_nil]
      · obtain ⟨outer, houter⟩ := ih p hpid hppos (by omega)
        refine ⟨outer ++ p :: before.flatMap t.subtree, ?_⟩
        rw [houter, subtree_eq t p, hchildren, List.flatMap_append, List.flatMap_cons]
        simp only [List.cons_append, List.append_assoc]

/-- The order lists every node but the root. -/
theorem mem_preorder_iff {t : Tree} (hs : t.Sound) {id : Nat} :
    id ∈ t.preorder ↔ 0 < id ∧ id < t.size := by
  constructor
  · exact bounds_of_mem_preorder
  · intro h
    obtain ⟨hpos, hlt⟩ := h
    obtain ⟨before, heq⟩ := exists_preorder_eq hs hpos hlt
    rw [heq]
    exact List.mem_append_right _ (List.mem_append_left _ (self_mem_subtree t id))

/-- The successor of a node is the first one after its subtree. -/
theorem successor?_eq_head? {t : Tree} (hs : t.Sound) (id : Nat) :
    t.successor? id = (t.after id).head? := by
  induction id using Nat.strongRecOn with
  | ind id ih =>
      rw [successor?, nextSibling?_eq_head?]
      cases hp : (t.node id).parent with
      | none =>
          have hlater : t.later id = [] := by rw [later, siblings, hp, List.filter_nil]
          rw [hlater, after, hp]
          rfl
      | some p =>
          have hlt := (hs.parent_lt hp).1
          rw [after_of_parent hs hp]
          cases hlater : t.later id with
          | nil =>
              simp only [List.head?_nil, if_pos hlt, List.flatMap_nil, List.nil_append]
              exact ih p hlt
          | cons y ys =>
              rw [List.flatMap_cons, subtree_eq]
              rfl

/-! ### From a node on

This is the part of the order that is still to come when a walk has reached the node. -/

/-- A node and all nodes that stand after it. -/
def onward (t : Tree) (id : Nat) : List Nat := t.subtree id ++ t.after id

theorem self_mem_onward (t : Tree) (id : Nat) : id ∈ t.onward id :=
  List.mem_append_left _ (self_mem_subtree t id)

theorem onward_eq_cons (t : Tree) (id : Nat) :
    t.onward id = id :: ((t.children id).flatMap t.subtree ++ t.after id) := by
  rw [onward, subtree_eq, List.cons_append]

theorem onward_isSuffix {t : Tree} (hs : t.Sound) {id : Nat} (hpos : 0 < id) (hlt : id < t.size) :
    t.onward id <:+ t.preorder := by
  obtain ⟨before, heq⟩ := exists_preorder_eq hs hpos hlt
  exact ⟨before, heq.symm⟩

/-- What stands after a node begins with its next sibling, if there is one. -/
theorem after_of_later {t : Tree} (hs : t.Sound) {id y : Nat} {ys : List Nat}
    (h : t.later id = y :: ys) : t.after id = t.onward y := by
  have hy : y ∈ t.siblings id := by
    have hmem : y ∈ t.later id := h ▸ List.mem_cons_self
    exact (List.mem_filter.mp hmem).1
  cases hp : (t.node id).parent with
  | none =>
      rw [siblings, hp] at hy
      cases hy
  | some p =>
      obtain ⟨before, hchildren⟩ := exists_children_eq (hs.mem_children_iff.mpr hp)
      rw [h, ← List.singleton_append, ← List.append_assoc] at hchildren
      rw [after_of_parent hs hp, h, List.flatMap_cons, onward,
        after_of_parent hs (parent_of_children_eq hchildren), later_of_children hchildren,
        List.append_assoc]

/-- What stands after a node is the siblings up to a later one with all below them, and what stands
from that one on. -/
theorem after_eq_append {t : Tree} (hs : t.Sound) {p id e : Nat} {before between rest : List Nat}
    (h : t.children p = before ++ id :: (between ++ e :: rest)) :
    t.after id = between.flatMap t.subtree ++ t.onward e := by
  have he : t.children p = (before ++ id :: between) ++ e :: rest := by
    rw [h, List.append_assoc, List.cons_append]
  rw [after_of_parent hs (parent_of_children_eq h), later_of_children h, onward,
    after_of_parent hs (parent_of_children_eq he), later_of_children he, List.flatMap_append,
    List.flatMap_cons]
  simp only [List.append_assoc]

/-- What stands after a node is what stands from its successor on. -/
theorem onward_of_head?_after {t : Tree} (hs : t.Sound) {id y : Nat}
    (h : (t.after id).head? = some y) : t.onward y = t.after id ∧ 0 < y ∧ y < t.size := by
  induction id using Nat.strongRecOn with
  | ind id ih =>
      cases hp : (t.node id).parent with
      | none =>
          rw [after, hp] at h
          cases h
      | some p =>
          cases hlater : t.later id with
          | nil =>
              rw [after_of_parent hs hp, hlater, List.flatMap_nil, List.nil_append] at h ⊢
              exact ih p (hs.parent_lt hp).1 h
          | cons z zs =>
              rw [after_of_later hs hlater, onward_eq_cons] at h
              cases h
              refine ⟨(after_of_later hs hlater).symm, ?_⟩
              have hmem : y ∈ t.later id := hlater ▸ List.mem_cons_self
              rw [later, siblings_of_parent hp] at hmem
              have := mem_children.mp (List.mem_filter.mp hmem).1
              omega

/-- Two ends of a list without repetitions that begin with the same entry are the same. -/
theorem eq_of_suffix {l a b : List Nat} {x : Nat} (hl : l.Nodup) (ha : x :: a <:+ l)
    (hb : x :: b <:+ l) : a = b := by
  have not_below : ∀ {c d : List Nat}, x :: d <:+ l → x :: c <:+ x :: d → c = d := by
    intro c d hd hcd
    rcases List.suffix_cons_iff.mp hcd with heq | hsuffix
    · exact (List.cons.inj heq).2
    · have hnodup := hl.sublist hd.sublist
      exact absurd (hsuffix.subset List.mem_cons_self) (List.nodup_cons.mp hnodup).1
  rcases List.suffix_or_suffix_of_suffix ha hb with h | h
  · exact not_below hb h
  · exact (not_below ha h).symm

/-! ### The order depends on the structure alone

So a step of the lowering that stores targets or indices leaves the order as it is. -/

namespace SameStructure

variable {t t' : Tree}

theorem subtree_eq (h : t.SameStructure t') (id : Nat) : t'.subtree id = t.subtree id := by
  induction id using induction_on_children (t := t) with
  | step id ih =>
      rw [Tree.subtree_eq, Tree.subtree_eq, h.children_eq]
      exact congrArg _ (List.flatMap_congr ih)

theorem preorder_eq (h : t.SameStructure t') : t'.preorder = t.preorder := by
  rw [preorder, preorder, h.children_eq]
  exact List.flatMap_congr fun c _ => h.subtree_eq c

theorem after_eq (h : t.SameStructure t') (id : Nat) : t'.after id = t.after id := by
  induction id using Nat.strongRecOn with
  | ind id ih =>
      rw [after, after, h.parent_eq]
      cases (t.node id).parent with
      | none => rfl
      | some p =>
          by_cases hp : p < id
          · simp only [if_pos hp, ih p hp, h.later_eq]
            rw [List.flatMap_congr fun c _ => h.subtree_eq c]
          · simp only [if_neg hp]

theorem onward_eq (h : t.SameStructure t') (id : Nat) : t'.onward id = t.onward id := by
  rw [onward, h.subtree_eq, h.after_eq, onward]

theorem successor?_eq (h : t.SameStructure t') (id : Nat) :
    t'.successor? id = t.successor? id := by
  induction id using Nat.strongRecOn with
  | ind id ih =>
      rw [successor?, successor?, h.nextSibling?_eq, h.parent_eq]
      cases t.nextSibling? id with
      | some next => rfl
      | none =>
          cases (t.node id).parent with
          | none => rfl
          | some p =>
              by_cases hp : p < id
              · simp only [if_pos hp, ih p hp]
              · simp only [if_neg hp]

end SameStructure

end Tree

end MissionScript
