import MissionScript.Proofs.Lowering.Positions
import Mathlib.Data.List.TakeWhile

/-!
# MissionScript.Proofs.Lowering.Numbering

The walk that numbers commands, compared with the order that it goes along.

* `position`, `standIn?` — the number of executable nodes before a node, and the first executable node
  from it on. The latter is found at the former (`position_standIn?`).
* `Numbering.Reaches` — what the walk knows when it has passed some nodes. Those with fewer executable
  nodes before them than have been passed are placed, at their positions; the others wait. A jump is
  resolved or pending as its target is placed or not. Every step keeps this (`Reaches.visit`), so it
  holds in the end (`reaches_numbering`).

The walk is needed because a jump may lead forward, to a node that has no number yet. The
specification looks at the whole order at once instead: the number of a node is a count, and where a
jump leads is a search. That the two agree is shown with one invariant, which says for every table
of the walk what a look-up in it gives, in terms of `position` alone.
-/

namespace MissionScript

namespace Tree

/-! ### Before a node and from it on

Every node of the order has a position, executable or not: it is the number that the next command
gets. So jumping to a node that is not executed means jumping to the command at its position. -/

/-- The nodes before a node in the order. -/
def nodesBefore (t : Tree) (id : Nat) : List Nat := t.preorder.takeWhile (· != id)

/-- The nodes from a node on in the order. The root is not in the order, so none stand there from it
on. -/
def nodesFrom (t : Tree) (id : Nat) : List Nat := t.preorder.dropWhile (· != id)

/-- The number of executable nodes before a node. -/
def position (t : Tree) (id : Nat) : Nat :=
  ((t.nodesBefore id).filter fun x => (t.statement x).isExecutable).length

/-- The command that stands for a node: the first executable node from it on. -/
def standIn? (t : Tree) (id : Nat) : Option Nat :=
  (t.nodesFrom id).find? fun x => (t.statement x).isExecutable

section

variable {t : Tree} {id : Nat} {before rest : List Nat}

/-- A node stands once in the order. -/
theorem of_preorder_eq (h : t.preorder = before ++ id :: rest) :
    id ∉ before ∧ t.nodesBefore id = before ∧ t.nodesFrom id = id :: rest := by
  have hid : id ∉ before := by
    have hnodup := t.nodup_preorder
    rw [h, List.nodup_append] at hnodup
    exact fun hmem => hnodup.2.2 id hmem id List.mem_cons_self rfl
  have hne : ∀ x ∈ before, (x != id) = true := by
    intro x hx
    simpa using ne_of_mem_of_not_mem hx hid
  refine ⟨hid, ?_, ?_⟩
  · rw [nodesBefore, h, List.takeWhile_append_of_pos hne, List.takeWhile_cons_of_neg (by simp),
      List.append_nil]
  · rw [nodesFrom, h, List.dropWhile_append_of_pos hne, List.dropWhile_cons_of_neg (by simp)]

/-- The position of a node can be read off any way to cut the order there. -/
theorem position_eq (h : t.preorder = before ++ id :: rest) :
    t.position id = (before.filter fun x => (t.statement x).isExecutable).length := by
  rw [position, (of_preorder_eq h).2.1]

/-- The positions do not decrease along the order. -/
theorem position_le (h : t.preorder = before ++ rest) (hid : id ∈ before) :
    t.position id ≤ (before.filter fun x => (t.statement x).isExecutable).length := by
  obtain ⟨first, last, rfl⟩ := List.append_of_mem hid
  rw [List.append_assoc, List.cons_append] at h
  rw [position_eq h, List.filter_append, List.length_append]
  omega

/-- An executable node has its position in the list of commands. -/
theorem getElem?_position (hid : id ∈ t.executables) : t.executables[t.position id]? = some id := by
  obtain ⟨hmem, hexec⟩ := List.mem_filter.mp hid
  obtain ⟨before, rest, h⟩ := List.append_of_mem hmem
  exact (StartsAt.take ⟨before, h, (position_eq h).symm⟩ hexec).1

/-- What numbering stores with an executable node is its position. -/
theorem index_position (hid : id ∈ t.executables) :
    (t.setIndices.node id).index = some (t.position id) :=
  index_setIndices (getElem?_position hid)

/-- A node has the position of the command that stands for it. -/
theorem position_standIn? {z : Nat} (h : t.standIn? id = some z) :
    z ∈ t.executables ∧ t.position z = t.position id := by
  obtain ⟨hexec, passed, rest, hfrom, hpassed⟩ := List.find?_eq_some_iff_append.mp h
  have heq : t.preorder = (t.nodesBefore id ++ passed) ++ z :: rest := by
    rw [List.append_assoc, ← hfrom, nodesBefore, nodesFrom, List.takeWhile_append_dropWhile]
  have hnone : (passed.filter fun x => (t.statement x).isExecutable) = [] := by
    rw [List.filter_eq_nil_iff]
    intro x hx
    simpa using hpassed x hx
  refine ⟨List.mem_filter.mpr ⟨?_, hexec⟩, ?_⟩
  · rw [heq]
    simp
  · rw [position_eq heq, List.filter_append, hnone, List.append_nil, position]

/-- A command stands for a node of the order when not all commands are before it. -/
theorem isSome_standIn?_iff :
    (t.standIn? id).isSome = true ↔ id ∈ t.preorder ∧ t.position id < t.executables.length := by
  constructor
  · intro hsome
    obtain ⟨z, hz⟩ := Option.isSome_iff_exists.mp hsome
    obtain ⟨hexec, hposition⟩ := position_standIn? hz
    constructor
    · by_contra hnot
      have hall : ∀ x ∈ t.preorder, (x != id) = true := by
        intro x hx
        simpa using ne_of_mem_of_not_mem hx hnot
      have hnil : t.nodesFrom id = [] := List.dropWhile_eq_nil_iff.mpr hall
      rw [standIn?, hnil] at hz
      cases hz
    · rw [← hposition]
      exact (List.getElem?_eq_some_iff.mp (getElem?_position hexec)).1
  · intro h
    obtain ⟨hmem, hlt⟩ := h
    obtain ⟨before, rest, h⟩ := List.append_of_mem hmem
    rw [standIn?, (of_preorder_eq h).2.2, List.find?_isSome]
    by_contra hnone
    have hnil : ((id :: rest).filter fun x => (t.statement x).isExecutable) = [] := by
      rw [List.filter_eq_nil_iff]
      intro x hx hexec
      exact hnone ⟨x, hx, hexec⟩
    rw [executables, h, List.filter_append, hnil, List.append_nil, position_eq h] at hlt
    exact Nat.lt_irrefl _ hlt

end

/-! ### Tables

The walk keeps its tables as lists of pairs with the newest in front. Only look-ups matter, so these
are the lemmas that are used of them. -/

theorem lookup_cons_eq_ite (entry : Nat × Nat) (entries : List (Nat × Nat)) (x : Nat) :
    (entry :: entries).lookup x = if x = entry.1 then some entry.2 else entries.lookup x := by
  rw [List.lookup_cons]
  cases hx : x == entry.1 <;> simp_all

theorem lookup_map_position (entries : List (Nat × Nat)) (position id : Nat) :
    (entries.map fun entry => (entry.2, position)).lookup id
      = if id ∈ entries.map Prod.snd then some position else none := by
  induction entries with
  | nil => simp
  | cons entry entries ih =>
      rw [List.map_cons, List.map_cons, lookup_cons_eq_ite, ih]
      by_cases hx : id = entry.2
      · simp [hx]
      · simp only [List.mem_cons, hx, false_or, if_false]

theorem lookup_map_self (ids : List Nat) (f : Nat → Nat) (x : Nat) :
    (ids.map fun id => (id, f id)).lookup x = if x ∈ ids then some (f x) else none := by
  induction ids with
  | nil => rfl
  | cons id ids ih =>
      rw [List.map_cons, lookup_cons_eq_ite, ih]
      by_cases hx : x = id
      · simp [hx]
      · simp [hx]

theorem lookup_filter_fst (p : Nat → Bool) (entries : List (Nat × Nat)) (x : Nat) :
    (entries.filter fun entry => p entry.1).lookup x = if p x then entries.lookup x else none := by
  induction entries with
  | nil => simp
  | cons entry entries ih =>
      rw [lookup_cons_eq_ite, List.filter_cons]
      cases hp : p entry.1 with
      | true =>
          rw [if_pos rfl, lookup_cons_eq_ite, ih]
          by_cases hx : x = entry.1
          · simp [hx, hp]
          · simp [hx]
      | false =>
          rw [if_neg Bool.false_ne_true, ih]
          by_cases hx : x = entry.1
          · rw [hx, hp, if_neg Bool.false_ne_true, if_neg Bool.false_ne_true]
          · rw [if_neg hx]

/-- The least element of a list depends only on what is in it. -/
theorem min?_congr {l l' : List Nat} (h : ∀ x, x ∈ l ↔ x ∈ l') : l.min? = l'.min? := by
  cases hmin : l'.min? with
  | none =>
      rw [List.min?_eq_none_iff] at hmin ⊢
      rw [List.eq_nil_iff_forall_not_mem]
      intro x hx
      rw [h, hmin] at hx
      cases hx
  | some least =>
      rw [List.min?_eq_some_iff] at hmin ⊢
      exact ⟨(h least).mpr hmin.1, fun x hx => hmin.2 x ((h x).mp hx)⟩

/-! ### Placing nodes

When an executable node is reached, it is placed at the next position, and with it all nodes that
have been waiting for a command to stand for them. -/

namespace Numbering

/-- The nodes `ids` are placed at `position`, and the jumps that were pending for them are resolved. -/
structure Places (position : Nat) (ids : List Nat) (n m : Numbering) : Prop where
  location_eq : ∀ x, m.location.lookup x = if x ∈ ids then some position else n.location.lookup x
  resolved_eq : ∀ id, m.resolved.lookup id =
    if ∃ y ∈ ids, (y, id) ∈ n.pending then some position else n.resolved.lookup id
  mem_pending_iff : ∀ y id, (y, id) ∈ m.pending ↔ (y, id) ∈ n.pending ∧ y ∉ ids

/-- One node is placed. -/
theorem places_place (position : Nat) (n : Numbering) (id : Nat) :
    Places position [id] n (place position n id) := by
  simp only [place, List.partition_eq_filter_filter]
  refine ⟨?_, ?_, ?_⟩
  · intro x
    simp [lookup_cons_eq_ite]
  · intro x
    rw [List.lookup_append, lookup_map_position]
    by_cases hx : (id, x) ∈ n.pending
    · simp [hx]
    · simp [hx]
  · intro y x
    simp

theorem Places.nil (position : Nat) (n : Numbering) : Places position [] n n :=
  ⟨by simp, by simp, by simp⟩

/-- Placing nodes one after the other places them all. -/
theorem Places.append {position : Nat} {ids ids' : List Nat} {n m k : Numbering}
    (h : Places position ids n m) (h' : Places position ids' m k) :
    Places position (ids ++ ids') n k where
  location_eq x := by
    rw [h'.location_eq, h.location_eq]
    by_cases hx : x ∈ ids'
    · simp [hx]
    · simp [hx]
  resolved_eq id := by
    rw [h'.resolved_eq, h.resolved_eq]
    simp only [h.mem_pending_iff]
    by_cases hfirst : ∃ y ∈ ids, (y, id) ∈ n.pending
    · obtain ⟨y, hy, hpending⟩ := hfirst
      rw [if_pos (show ∃ y ∈ ids, (y, id) ∈ n.pending from ⟨y, hy, hpending⟩), ite_self,
        if_pos ⟨y, List.mem_append_left _ hy, hpending⟩]
    · rw [if_neg hfirst]
      refine if_congr ?_ rfl rfl
      constructor
      · intro h
        obtain ⟨y, hy, hpending, -⟩ := h
        exact ⟨y, List.mem_append_right _ hy, hpending⟩
      · intro h
        obtain ⟨y, hy, hpending⟩ := h
        have hnot : y ∉ ids := fun hmem => hfirst ⟨y, hmem, hpending⟩
        exact ⟨y, (List.mem_append.mp hy).resolve_left hnot, hpending, hnot⟩
  mem_pending_iff y id := by
    rw [h'.mem_pending_iff, h.mem_pending_iff, List.mem_append, not_or, and_assoc]

/-- A list of nodes is placed. -/
theorem places_foldl (position : Nat) (ids : List Nat) (n : Numbering) :
    Places position ids n (ids.foldl (place position) n) := by
  induction ids generalizing n with
  | nil => exact .nil position n
  | cons id ids ih => exact (places_place position n id).append (ih _)

/-! ### Aiming jumps

A jump that leads back can be resolved at once. One that leads forward is pending until its target
is placed. -/

@[simp] theorem tree_aim (n : Numbering) (id : Nat) : (n.aim id).tree = n.tree := by
  unfold aim
  split
  · rfl
  · split <;> rfl

@[simp] theorem next_aim (n : Numbering) (id : Nat) : (n.aim id).next = n.next := by
  unfold aim
  split
  · rfl
  · split <;> rfl

@[simp] theorem location_aim (n : Numbering) (id : Nat) : (n.aim id).location = n.location := by
  unfold aim
  split
  · rfl
  · split <;> rfl

@[simp] theorem waiting_aim (n : Numbering) (id : Nat) : (n.aim id).waiting = n.waiting := by
  unfold aim
  split
  · rfl
  · split <;> rfl

/-- A jump is resolved when its target has been placed. -/
theorem lookup_resolved_aim (n : Numbering) {id : Nat} (hid : n.resolved.lookup id = none) (x : Nat) :
    (n.aim id).resolved.lookup x
      = if x = id then (n.tree.node id).target.bind fun y => n.location.lookup y
        else n.resolved.lookup x := by
  unfold aim
  cases htarget : (n.tree.node id).target with
  | none =>
      by_cases hx : x = id
      · simp [hx, hid]
      · simp [hx]
  | some y =>
      cases hlocation : n.location.lookup y with
      | none =>
          by_cases hx : x = id
          · simp [hx, hid, hlocation]
          · simp [hx, hlocation]
      | some position => simp [lookup_cons_eq_ite, hlocation]

/-- It is pending when its target has not been placed. -/
theorem mem_pending_aim (n : Numbering) (id y x : Nat) :
    (y, x) ∈ (n.aim id).pending ↔ (y, x) ∈ n.pending ∨
      x = id ∧ (n.tree.node id).target = some y ∧ n.location.lookup y = none := by
  unfold aim
  cases htarget : (n.tree.node id).target with
  | none => simp
  | some target =>
      cases hlocation : n.location.lookup target with
      | none =>
          by_cases hy : target = y
          · simp [← hy, hlocation]
          · simp [hy, Ne.symm hy, hlocation]
      | some position =>
          by_cases hy : target = y
          · simp [← hy, hlocation]
          · simp [hy, hlocation]

end Numbering

/-! ### Numbers change neither statements nor targets

The walk writes into the tree that it goes along. What it asks the tree for is not what it writes. -/

theorem target_setIndex (t : Tree) (id index x : Nat) :
    ((t.setIndex id index).node x).target = (t.node x).target := by
  by_cases hx : x < t.size
  · rw [setIndex, node_modify t _ _ _ hx]
    split <;> rfl
  · have hsize := (SameShape.setIndex t id index).size_eq
    rw [node_of_size_le (Nat.le_of_not_lt hx), node_of_size_le (by omega)]

theorem sameShape_foldl_setIndex (t : Tree) (placed : List (Nat × Nat)) :
    t.SameShape (placed.foldl (fun t x => t.setIndex x.1 x.2) t) := by
  induction placed generalizing t with
  | nil => exact SameShape.refl t
  | cons x placed ih => exact (SameShape.setIndex t x.1 x.2).trans (ih _)

theorem target_foldl_setIndex (t : Tree) (placed : List (Nat × Nat)) (id : Nat) :
    ((placed.foldl (fun t x => t.setIndex x.1 x.2) t).node id).target = (t.node id).target := by
  induction placed generalizing t with
  | nil => rfl
  | cons x placed ih => rw [List.foldl_cons, ih, target_setIndex]

theorem sameShape_setIndices (t : Tree) : t.SameShape t.setIndices := sameShape_foldl_setIndex t _

/-! ### What the walk knows

The nodes that have been passed fall into those that are placed, with a position below `next`, and
those that wait, whose position is `next`. The other fields follow this division. -/

namespace Numbering

/-- The nodes `before` have been passed. -/
structure Reaches (t : Tree) (before : List Nat) (n : Numbering) : Prop where
  tree_eq : n.tree = (before.filter fun x => (t.statement x).isExecutable).zipIdx.foldl
    (fun t x => t.setIndex x.1 x.2) t
  next_eq : n.next = (before.filter fun x => (t.statement x).isExecutable).length
  location_eq : ∀ x, n.location.lookup x =
    if x ∈ before ∧ t.position x < n.next then some (t.position x) else none
  mem_waiting_iff : ∀ x, x ∈ n.waiting ↔ x ∈ before ∧ t.position x = n.next
  resolved_eq : ∀ id, n.resolved.lookup id =
    if id ∈ before ∧ (t.statement id).isExecutable = true then
      (t.node id).target.bind fun y => n.location.lookup y
    else none
  mem_pending_iff : ∀ y id, (y, id) ∈ n.pending ↔
    (id ∈ before ∧ (t.statement id).isExecutable = true) ∧ (t.node id).target = some y ∧
      n.location.lookup y = none

namespace Reaches

variable {t : Tree} {before after : List Nat} {n : Numbering} {id : Nat}

/-- In the beginning nothing is known. -/
theorem nil (t : Tree) : Reaches t [] { tree := t } :=
  ⟨rfl, rfl, by simp, by simp, by simp, by simp⟩

theorem statement_eq (h : Reaches t before n) (x : Nat) : n.tree.statement x = t.statement x := by
  rw [h.tree_eq]
  exact (sameShape_foldl_setIndex t _).statement_eq x

theorem target_eq (h : Reaches t before n) (x : Nat) : (n.tree.node x).target = (t.node x).target := by
  rw [h.tree_eq]
  exact target_foldl_setIndex t _ x

/-- A node that is not executable waits. -/
theorem wait (h : Reaches t before n) (heq : t.preorder = before ++ id :: after)
    (hexec : (t.statement id).isExecutable = false) :
    Reaches t (before ++ [id]) { n with waiting := n.waiting ++ [id] } := by
  have hfilter : ((before ++ [id]).filter fun x => (t.statement x).isExecutable)
      = before.filter fun x => (t.statement x).isExecutable := by
    rw [List.filter_append, List.filter_cons_of_neg (by simp [hexec]), List.filter_nil,
      List.append_nil]
  have hposition : t.position id = n.next := (position_eq heq).trans h.next_eq.symm
  have hmem : ∀ x, x ∈ before ++ [id] ∧ (t.statement x).isExecutable = true ↔
      x ∈ before ∧ (t.statement x).isExecutable = true := by
    intro x
    by_cases hx : x = id
    · simp [hx, hexec]
    · simp [hx]
  refine ⟨by rw [hfilter]; exact h.tree_eq, by rw [hfilter]; exact h.next_eq, ?_, ?_, ?_, ?_⟩
  · intro x
    by_cases hx : x = id
    · simp [h.location_eq, hx, hposition]
    · simp [h.location_eq, hx]
  · intro x
    by_cases hx : x = id
    · simp [hx, hposition]
    · simp [h.mem_waiting_iff, hx]
  · intro x
    simp only [h.resolved_eq, hmem]
  · intro y x
    simp only [h.mem_pending_iff, hmem]

section

variable {m : Numbering}

/-- What is placed with an executable node has its position. -/
theorem mem_placed_iff (h : Reaches t before n) (heq : t.preorder = before ++ id :: after) (x : Nat) :
    x ∈ n.waiting ++ [id] ↔ x ∈ before ++ [id] ∧ t.position x = n.next := by
  have hposition : t.position id = n.next := (position_eq heq).trans h.next_eq.symm
  by_cases hx : x = id
  · simp [hx, hposition]
  · simp [h.mem_waiting_iff, hx]

/-- After an executable node has been placed, all nodes up to it have a place. -/
theorem lookup_location (h : Reaches t before n) (heq : t.preorder = before ++ id :: after)
    (hplaces : Places n.next (n.waiting ++ [id]) n m) (x : Nat) :
    m.location.lookup x =
      if x ∈ before ++ [id] ∧ t.position x < n.next + 1 then some (t.position x) else none := by
  rw [hplaces.location_eq]
  by_cases hx : x ∈ n.waiting ++ [id]
  · obtain ⟨hmem, hnext⟩ := (h.mem_placed_iff heq x).mp hx
    rw [if_pos hx, if_pos ⟨hmem, by omega⟩, hnext]
  · have hne : ¬ (x ∈ before ++ [id] ∧ t.position x = n.next) :=
      fun hmem => hx ((h.mem_placed_iff heq x).mpr hmem)
    have hxid : x ≠ id := fun heq => hx (by simp [heq])
    rw [if_neg hx, h.location_eq]
    refine if_congr ?_ rfl rfl
    simp only [List.mem_append, List.mem_singleton, hxid, or_false] at hne ⊢
    constructor
    · intro h
      obtain ⟨hmem, hlt⟩ := h
      exact ⟨hmem, by omega⟩
    · intro h
      obtain ⟨hmem, hlt⟩ := h
      have hnext : t.position x ≠ n.next := fun heq => hne ⟨hmem, heq⟩
      exact ⟨hmem, by omega⟩

/-- A jump that was pending is resolved when its target is placed, and no other one. -/
theorem lookup_resolved (h : Reaches t before n) (heq : t.preorder = before ++ id :: after)
    (hplaces : Places n.next (n.waiting ++ [id]) n m) (x : Nat) :
    m.resolved.lookup x =
      if x ∈ before ∧ (t.statement x).isExecutable = true then
        (t.node x).target.bind fun y => m.location.lookup y
      else none := by
  rw [hplaces.resolved_eq, h.resolved_eq]
  simp only [h.mem_pending_iff]
  by_cases hx : x ∈ before ∧ (t.statement x).isExecutable = true
  · cases htarget : (t.node x).target with
    | none => simp
    | some y =>
        simp only [if_pos hx, Option.bind_some, hplaces.location_eq]
        by_cases hy : y ∈ n.waiting ++ [id]
        · -- what is placed now has not been placed before
          have hnone : n.location.lookup y = none := by
            have hnext := ((h.mem_placed_iff heq y).mp hy).2
            rw [h.location_eq, if_neg fun hmem => by omega]
          rw [if_pos ⟨y, hy, hx, rfl, hnone⟩, if_pos hy]
        · rw [if_neg, if_neg hy]
          intro h
          obtain ⟨z, hz, -, hyz, -⟩ := h
          exact hy (Option.some.inj hyz ▸ hz)
  · simp [hx]

/-- What is still pending are the jumps to nodes that come later. -/
theorem mem_pending (h : Reaches t before n)
    (hplaces : Places n.next (n.waiting ++ [id]) n m) (y x : Nat) :
    (y, x) ∈ m.pending ↔ (x ∈ before ∧ (t.statement x).isExecutable = true) ∧
      (t.node x).target = some y ∧ m.location.lookup y = none := by
  rw [hplaces.mem_pending_iff, h.mem_pending_iff, hplaces.location_eq]
  by_cases hy : y ∈ n.waiting ++ [id]
  · simp [hy]
  · simp [hy]

end

/-- An executable node takes the next position, and so does what waits. -/
theorem take (h : Reaches t before n) (heq : t.preorder = before ++ id :: after)
    (hexec : (t.statement id).isExecutable = true) {m : Numbering}
    (hplaces : Places n.next (n.waiting ++ [id]) n m) :
    Reaches t (before ++ [id])
      (aim { m with tree := n.tree.setIndex id n.next, next := n.next + 1, waiting := [] } id) := by
  have hid : id ∉ before := (of_preorder_eq heq).1
  have hfilter : ((before ++ [id]).filter fun x => (t.statement x).isExecutable)
      = (before.filter fun x => (t.statement x).isExecutable) ++ [id] := by
    rw [List.filter_append, List.filter_cons, if_pos hexec, List.filter_nil]
  have hlocation := h.lookup_location heq hplaces
  have hresolved := h.lookup_resolved heq hplaces
  have htarget : ((n.tree.setIndex id n.next).node id).target = (t.node id).target := by
    rw [target_setIndex, h.target_eq]
  -- the node has not been passed, so its jump is not resolved yet
  have hnew : m.resolved.lookup id = none := by
    rw [hresolved, if_neg fun hmem => hid hmem.1]
  refine ⟨?_, ?_, ?_, ?_, ?_, ?_⟩
  · rw [hfilter, List.zipIdx_append, List.foldl_append, tree_aim, ← h.tree_eq, ← h.next_eq]
    simp
  · rw [hfilter, List.length_append, ← h.next_eq, next_aim]
    rfl
  · simpa using hlocation
  · intro x
    -- nothing waits any more: what has been passed is placed at the node or before it
    have hle : x ∈ before ++ [id] → t.position x ≤ n.next := by
      intro hx
      rcases List.mem_append.mp hx with hold | hnew
      · rw [h.next_eq]
        exact position_le heq hold
      · rw [List.mem_singleton.mp hnew, position_eq heq, h.next_eq]
    simp only [waiting_aim, next_aim, List.not_mem_nil, false_iff, not_and]
    intro hx
    have := hle hx
    omega
  · intro x
    rw [lookup_resolved_aim _ (by exact hnew)]
    by_cases hx : x = id
    · subst hx
      simp [htarget, hexec]
    · simp [hx, hresolved]
  · intro y x
    rw [mem_pending_aim]
    dsimp only
    rw [h.mem_pending hplaces, htarget, location_aim]
    by_cases hx : x = id
    · subst hx
      simp [hid, hexec]
    · simp [hx]

/-- Every node that is passed keeps what the walk knows. -/
theorem visit (h : Reaches t before n) (heq : t.preorder = before ++ id :: after) :
    Reaches t (before ++ [id]) (n.visit id) := by
  unfold Numbering.visit
  dsimp only
  rw [h.statement_eq]
  cases hexec : (t.statement id).isExecutable with
  | true => exact h.take heq hexec (places_foldl n.next _ n)
  | false => exact h.wait heq hexec

/-- The invariant holds to the end of the order. -/
theorem foldl (h : Reaches t before n) (heq : t.preorder = before ++ after) :
    Reaches t t.preorder (after.foldl Numbering.visit n) := by
  induction after generalizing before n with
  | nil =>
      rw [List.append_nil] at heq
      rw [heq]
      exact h
  | cons id after ih => exact ih (h.visit heq) (by rw [heq, List.append_assoc, List.singleton_append])

end Reaches

/-- What the walk knows in the end. -/
theorem reaches_numbering (t : Tree) : Reaches t t.preorder t.numbering :=
  (Reaches.nil t).foldl rfl


end Numbering

end Tree

end MissionScript
