import MissionScript.Proofs.Script.Outline
import MissionScript.Proofs.Statement.Proper
import MissionScript.Proofs.Tree.Shape
import MissionScript.Script
import MissionScript.Tree.Check

/-!
# MissionScript.Proofs.Script.Blocks

How the tree of a script grows while its lines are read.

* `Nested t blocks waiting` — the tree of a script that fits together so far. The open blocks form a
  path, each the last child of the one around it; siblings follow each other as the branches of a
  construct do; a `skip if` that does not wait any more has its one command.
* `Nested.addToBlock`, `Nested.addToSkip` — the two ways in which a line that fits keeps it so.
* `Nested.exists_end`, `Nested.mayPrecede_of_children` — what stands around a node of such a tree.

What makes a tree fit together is said for one node at a time: what it may follow, what may be its
parent, and what has to be around it. That is enough to recover the constructs as a whole, since a
branch can only follow a branch and an `end` only what it ends: from a block that is closed, the
siblings behind it lead over further branches to the `end` (`Nested.exists_end`).

Three of the conditions speak of what is open. They are what changes from line to line, and with
nothing open they say that every block has been ended and every `skip if` has its command.
-/

namespace MissionScript

/-- May the second part follow the first among siblings? Branches and ends follow what they continue
or end, and nothing else follows an open block. -/
def Flow.mayPrecede (a : Flow) : Flow → Bool
  | .elseIfBlock | .elseBlock => a == .ifBlock || a == .elseIfBlock
  | .blockEnd => a.opensBlock
  | _ => !a.opensBlock

/-- The commands that a `skip if` may own. -/
def Flow.isSimple (f : Flow) : Bool := !f.opensBlock && f != .blockEnd && f != .skip

/-- Does the part belong to the block before it? -/
def Flow.continuesBlock : Flow → Bool
  | .elseIfBlock | .elseBlock | .blockEnd => true
  | _ => false

/-- Where no block is open, anything may follow that does not continue one. -/
theorem Flow.mayPrecede_of_not_open {a : Flow} (h : a.opensBlock = false) (f : Flow) :
    a.mayPrecede f = !f.continuesBlock := by
  have hif : a ≠ .ifBlock ∧ a ≠ .elseIfBlock := by
    constructor <;> rintro rfl <;> cases h
  cases f <;> simp [mayPrecede, continuesBlock, h, hif]

theorem Flow.continuesBlock_of_isSimple {f : Flow} (h : f.isSimple = true) :
    f.continuesBlock = false := by
  revert h
  cases f <;> decide

namespace Tree

/-- The part that the sibling before a node plays. A first child is as free as after a plain
command. -/
def flowBefore (t : Tree) (id : Nat) : Flow := ((t.previousSibling? id).map t.flow).getD .plain

/-- The part that the last child of a node plays, and thus what a new child would follow. -/
def lastFlow (t : Tree) (p : Nat) : Flow := ((t.children p).getLast?.map t.flow).getD .plain

/-- The node that owns the next line when the blocks are open. -/
def ownerOf (blocks : List Nat) : Nat := blocks.head?.getD root

/-- The blocks lie on a path: each is the last child of the one around it. -/
def OpenPath (t : Tree) : List Nat → Prop
  | [] => True
  | b :: outer =>
    (t.children (ownerOf outer)).getLast? = some b ∧ (t.flow b).opensBlock = true ∧
      t.OpenPath outer

/-- A tree whose statements fit together, while blocks are open and a `skip if` may wait. -/
structure Nested (t : Tree) (blocks : List Nat) (waiting : Option Nat) : Prop where
  sound : t.Sound
  proper : ∀ id, 0 < id → id < t.size → (t.statement id).Proper
  siblings : ∀ id, 0 < id → id < t.size → (t.flowBefore id).mayPrecede (t.flow id) = true
  parents : ∀ id p, (t.node id).parent = some p →
    p = root ∨ (t.flow p).opensBlock = true ∨ t.flow p = .skip
  exits : ∀ id, 0 < id → id < t.size → t.flow id = .breakLoop ∨ t.flow id = .continueLoop →
    (t.enclosingLoop? id).isSome = true
  path : t.OpenPath blocks
  open_of_last : ∀ p id, (t.children p).getLast? = some id → (t.flow id).opensBlock = true →
    id ∈ blocks
  skips : ∀ id, 0 < id → id < t.size → t.flow id = .skip → waiting ≠ some id →
    ∃ c, t.children id = [c] ∧ (t.flow c).isSimple = true ∧ (t.statement c).isAuxiliary = false
  waits : ∀ id, waiting = some id →
    (t.node id).parent = some (ownerOf blocks) ∧ t.flow id = .skip ∧ t.children id = []

/-! ### Open blocks

The open blocks are kept as the reader keeps them, the innermost first. As each is the last child of
the one around it, they can be read off the tree from the root down, and the next line goes to the
end of the innermost. -/

namespace OpenPath

variable {t : Tree}

theorem mem_children {b : Nat} {outer : List Nat} (h : t.OpenPath (b :: outer)) :
    b ∈ t.children (ownerOf outer) :=
  List.mem_of_getLast? h.1

theorem parent_eq {b : Nat} {outer : List Nat} (h : t.OpenPath (b :: outer)) :
    (t.node b).parent = some (ownerOf outer) :=
  (Tree.mem_children.mp h.mem_children).2.2

/-- Every open block is a node that opens a block, and none has a larger number than the innermost. -/
theorem mem_bounds {blocks : List Nat} (h : t.OpenPath blocks) {b : Nat} (hb : b ∈ blocks) :
    0 < b ∧ b < t.size ∧ b ≤ ownerOf blocks ∧ (t.flow b).opensBlock = true := by
  induction blocks with
  | nil => cases hb
  | cons top outer ih =>
      have htop := Tree.mem_children.mp h.mem_children
      rcases List.mem_cons.mp hb with rfl | hmem
      · exact ⟨by omega, htop.1, Nat.le_refl _, h.2.1⟩
      · obtain ⟨hpos, hlt, hle, hflow⟩ := ih h.2.2 hmem
        refine ⟨hpos, hlt, ?_, hflow⟩
        show b ≤ top
        omega

/-- Closing the innermost block leaves the others on their path. -/
theorem tail {blocks : List Nat} (h : t.OpenPath blocks) : t.OpenPath blocks.tail := by
  cases blocks with
  | nil => exact trivial
  | cons b outer => exact h.2.2

/-- The innermost block is no `skip if`. -/
theorem flow_owner {blocks : List Nat} (h : t.OpenPath blocks)
    (hpos : 0 < ownerOf blocks) : t.flow (ownerOf blocks) ≠ .skip := by
  cases blocks with
  | nil => exact absurd rfl (Nat.ne_of_gt hpos)
  | cons b outer =>
      intro hskip
      have hopen := h.2.1
      rw [show t.flow b = .skip from hskip] at hopen
      cases hopen

/-- The owner of the next line is a node of the tree. -/
theorem owner_lt {blocks : List Nat} (hs : t.Sound) (h : t.OpenPath blocks) :
    ownerOf blocks < t.size := by
  cases blocks with
  | nil => exact hs.size_pos
  | cons top outer => exact (h.mem_bounds List.mem_cons_self).2.1

/-- What owns the next line is the root or opens a block. -/
theorem owner_eq_or_opensBlock {blocks : List Nat} (h : t.OpenPath blocks) :
    ownerOf blocks = root ∨ (t.flow (ownerOf blocks)).opensBlock = true := by
  cases blocks with
  | nil => exact Or.inl rfl
  | cons top outer => exact Or.inr h.2.1

/-- Nothing that is open has the innermost open block as its parent. -/
theorem parent_ne_owner {blocks : List Nat} (hs : t.Sound) (h : t.OpenPath blocks) {b : Nat}
    (hb : b ∈ blocks) : (t.node b).parent ≠ some (ownerOf blocks) := by
  intro heq
  have := (hs.parent_lt heq).1
  have := (h.mem_bounds hb).2.2.1
  omega

/-- The nodes above an open block are those around it. -/
theorem ancestors_eq {blocks : List Nat} (hs : t.Sound) (h : t.OpenPath blocks) {id : Nat}
    (hid : (t.node id).parent = some (ownerOf blocks)) : t.ancestors id = blocks := by
  induction blocks generalizing id with
  | nil => rw [ancestors_of_parent hs hid]; rfl
  | cons top outer ih =>
      have hpos := (h.mem_bounds List.mem_cons_self).1
      rw [ancestors_of_parent hs hid, show ownerOf (top :: outer) = top from rfl,
        if_neg (show top ≠ root from Nat.ne_of_gt hpos), ih h.2.2 h.parent_eq]

end OpenPath

theorem Grows.flowBefore_eq {t t' : Tree} (h : t.Grows t') {id : Nat} (hid : id < t.size) :
    t'.flowBefore id = t.flowBefore id := by
  rw [flowBefore, flowBefore, h.previousSibling?_eq hid]
  cases hprev : t.previousSibling? id with
  | none => rfl
  | some x =>
      have hx : x < id := by
        have hmem := List.mem_of_getLast? hprev
        simpa using (List.mem_filter.mp hmem).2
      rw [Option.map_some, Option.map_some, h.flow_eq (by omega)]

/-- What takes part in the flow of control is a node of the tree. -/
theorem lt_size_of_flow {t : Tree} {id : Nat} (h : t.flow id ≠ .plain) : id < t.size := by
  by_cases hlt : id < t.size
  · exact hlt
  · rw [flow, statement, node_of_size_le (Nat.le_of_not_lt hlt)] at h
    exact absurd rfl h

/-- A loop is a node of the tree. -/
theorem lt_size_of_isLoop {t : Tree} {id : Nat} (h : (t.flow id).isLoop = true) : id < t.size :=
  lt_size_of_flow fun heq => by
    rw [heq] at h
    cases h

theorem children_of_size_le {t : Tree} {id : Nat} (h : t.size ≤ id) : t.children id = [] := by
  rw [List.eq_nil_iff_forall_not_mem]
  intro c hc
  have := mem_children.mp hc
  omega

end Tree

/-! ### Placing a statement

Placing a statement adds a node and enters its label, which changes the table and no node. For each
of the conditions there is a lemma that says what has to be known of the new node, and that the
nodes before keep what they had. -/

namespace Script

open MissionScript.Tree

/-- Entering a label changes no node. -/
theorem nodes_recordSymbol (t : Tree) (id : Nat) : (recordSymbol t id).nodes = t.nodes := by
  unfold recordSymbol
  dsimp only
  split
  · rfl
  · split
    · rfl
    · split <;> rfl

@[simp] theorem node_recordSymbol (t : Tree) (id n : Nat) :
    (recordSymbol t id).node n = t.node n := by
  rw [node, nodes_recordSymbol, node]

@[simp] theorem size_recordSymbol (t : Tree) (id : Nat) : (recordSymbol t id).size = t.size := by
  rw [size, nodes_recordSymbol, size]

@[simp] theorem children_recordSymbol (t : Tree) (id p : Nat) :
    (recordSymbol t id).children p = t.children p := by
  simp only [children, size_recordSymbol, node_recordSymbol]

variable {t : Tree} {p : Nat} {st : Statement}

@[simp] theorem size_place : (place t p st).size = t.size + 1 := by simp [place]

/-- The nodes that are there do not change. -/
theorem node_place_of_lt {id : Nat} (h : id < t.size) : (place t p st).node id = t.node id := by
  rw [place, node_recordSymbol, Tree.add, node_addNode_of_lt h]

/-- The new node has the next number. -/
theorem node_place_size : (place t p st).node t.size = { parent := some p, statement := st } := by
  rw [place, node_recordSymbol, Tree.add, node_addNode, if_pos rfl]

@[simp] theorem flow_place_size : (place t p st).flow t.size = st.flow := by
  rw [flow, Tree.statement, node_place_size]

theorem grows_place : t.Grows (place t p st) where
  size_le := by rw [size_place]; omega
  parent_eq id hid := by rw [node_place_of_lt hid]
  statement_eq id hid := by rw [Tree.statement, node_place_of_lt hid, Tree.statement]

theorem sound_place (h : t.Sound) (hp : p < t.size) : (place t p st).Sound := by
  have hadd := h.addNode hp { statement := st }
  refine ⟨by rw [size_place]; omega, ?_, ?_⟩
  · rw [place, node_recordSymbol]
    exact hadd.root_parent
  · intro id hpos hlt
    rw [place, node_recordSymbol]
    exact hadd.exists_parent id hpos (by rw [size_addNode]; rw [size_place] at hlt; exact hlt)

/-- The new node is the last child of its parent. -/
theorem children_place (hp : p < t.size) (id : Nat) :
    (place t p st).children id = t.children id ++ if id = p then [t.size] else [] := by
  rw [place, children_recordSymbol, Tree.add, children_addNode t hp]

theorem children_place_of_ne (hp : p < t.size) {id : Nat} (h : id ≠ p) :
    (place t p st).children id = t.children id := by
  rw [children_place hp, if_neg h, List.append_nil]

theorem getLast?_children_place (hp : p < t.size) :
    ((place t p st).children p).getLast? = some t.size := by
  rw [children_place hp, if_pos rfl, List.getLast?_concat]

/-- A new node follows the last child of its parent. -/
theorem flowBefore_place_size (hp : p < t.size) :
    (place t p st).flowBefore t.size = t.lastFlow p := by
  have hchildren : (place t p st).children p = t.children p ++ t.size :: [] := by
    rw [children_place hp, if_pos rfl]
  rw [flowBefore, lastFlow, previousSibling?_of_children hchildren]
  cases hlast : (t.children p).getLast? with
  | none => rfl
  | some x =>
      have hx := (mem_children.mp (List.mem_of_getLast? hlast)).1
      rw [Option.map_some, Option.map_some, grows_place.flow_eq hx]

/-- A statement that is placed elsewhere leaves the open blocks as they are. -/
theorem openPath_place {blocks : List Nat} (h : t.OpenPath blocks) (hp : p < t.size)
    (hb : ∀ b ∈ blocks, (t.node b).parent ≠ some p) : (place t p st).OpenPath blocks := by
  induction blocks with
  | nil => exact trivial
  | cons b outer ih =>
      have hne : ownerOf outer ≠ p := fun heq => hb b List.mem_cons_self (heq ▸ h.parent_eq)
      refine ⟨?_, ?_, ih h.2.2 fun c hc => hb c (List.mem_cons_of_mem _ hc)⟩
      · rw [children_place_of_ne hp hne]
        exact h.1
      · rw [grows_place.flow_eq (h.mem_bounds List.mem_cons_self).2.1]
        exact h.2.1

theorem openPath_place_owner {blocks : List Nat} (hs : t.Sound) (h : t.OpenPath blocks) :
    (place t (ownerOf blocks) st).OpenPath blocks :=
  openPath_place h (h.owner_lt hs) fun _ hb => h.parent_ne_owner hs hb

/-- The nodes above a statement at the end of the innermost block are the open blocks. -/
theorem ancestors_place_owner {blocks : List Nat} (hs : t.Sound) (h : t.OpenPath blocks) :
    (place t (ownerOf blocks) st).ancestors t.size = blocks :=
  (openPath_place_owner hs h).ancestors_eq (sound_place hs (h.owner_lt hs)) (by rw [node_place_size])

/-- A statement at the end of the innermost block becomes the innermost one if it opens a block. -/
theorem openPath_place_opened {blocks : List Nat} (hs : t.Sound) (h : t.OpenPath blocks) :
    (place t (ownerOf blocks) st).OpenPath
      (if st.flow.opensBlock then t.size :: blocks else blocks) := by
  by_cases hopen : st.flow.opensBlock = true
  · rw [if_pos hopen]
    exact ⟨getLast?_children_place (h.owner_lt hs), by rw [flow_place_size]; exact hopen,
      openPath_place_owner hs h⟩
  · rw [if_neg hopen]
    exact openPath_place_owner hs h

/-- A node with a loop above it is inside of a loop. -/
theorem isSome_enclosingLoop?_place
    (h : ∃ b ∈ (place t p st).ancestors t.size, (t.flow b).isLoop = true) :
    ((place t p st).enclosingLoop? t.size).isSome = true := by
  obtain ⟨b, hb, hloop⟩ := h
  rw [enclosingLoop?, List.find?_isSome]
  exact ⟨b, hb, by rw [grows_place.flow_eq (lt_size_of_isLoop hloop)]; exact hloop⟩

/-- The nodes after placing a statement are those before and the new one. -/
theorem forall_place {P : Nat → Prop} (old : ∀ id, 0 < id → id < t.size → P id)
    (new : P t.size) : ∀ id, 0 < id → id < (place t p st).size → P id := by
  intro id hpos hlt
  rw [size_place] at hlt
  rcases Nat.lt_succ_iff_lt_or_eq.mp hlt with hold | rfl
  · exact old id hpos hold
  · exact new

theorem proper_place (h : ∀ id, 0 < id → id < t.size → (t.statement id).Proper) (hst : st.Proper)
    (p : Nat) :
    ∀ id, 0 < id → id < (place t p st).size → ((place t p st).statement id).Proper := by
  refine forall_place (fun id hpos hlt => ?_) ?_
  · rw [grows_place.statement_eq id hlt]
    exact h id hpos hlt
  · rw [Tree.statement, node_place_size]
    exact hst

/-- The blocks that are last children after placing a statement are those before, apart from the one
that the statement follows, and the statement itself. -/
theorem forall_open_last_place {P : Nat → Prop} (hp : p < t.size)
    (old : ∀ q id, q ≠ p → (t.children q).getLast? = some id → (t.flow id).opensBlock = true → P id)
    (new : st.flow.opensBlock = true → P t.size) :
    ∀ q id, ((place t p st).children q).getLast? = some id →
      ((place t p st).flow id).opensBlock = true → P id := by
  intro q id hlast hopen
  by_cases hq : q = p
  · rw [hq, getLast?_children_place hp] at hlast
    cases hlast
    rw [flow_place_size] at hopen
    exact new hopen
  · rw [children_place_of_ne hp hq] at hlast
    rw [grows_place.flow_eq (mem_children.mp (List.mem_of_getLast? hlast)).1] at hopen
    exact old q id hq hlast hopen

/-- A `skip if` keeps its one command when a statement is placed elsewhere. -/
theorem exists_skipped_place (hp : p < t.size) {id : Nat} (hne : id ≠ p)
    (h : ∃ c, t.children id = [c] ∧ (t.flow c).isSimple = true ∧
      (t.statement c).isAuxiliary = false) :
    ∃ c, (place t p st).children id = [c] ∧ ((place t p st).flow c).isSimple = true ∧
      ((place t p st).statement c).isAuxiliary = false := by
  obtain ⟨c, hc, hsimple, haux⟩ := h
  have hlt : c < t.size := (mem_children.mp (hc ▸ List.mem_singleton_self c)).1
  refine ⟨c, ?_, ?_, ?_⟩
  · rw [children_place_of_ne hp hne]
    exact hc
  · rw [grows_place.flow_eq hlt]
    exact hsimple
  · rw [grows_place.statement_eq c hlt]
    exact haux

/-- A `skip if` that has just been placed waits for its command. -/
theorem waits_place_size (hp : p < t.size) (hskip : st.flow = .skip) :
    ((place t p st).node t.size).parent = some p ∧ (place t p st).flow t.size = .skip ∧
      (place t p st).children t.size = [] := by
  refine ⟨by rw [node_place_size], by rw [flow_place_size]; exact hskip, ?_⟩
  rw [children_place_of_ne hp (Nat.ne_of_gt hp)]
  exact children_of_size_le (Nat.le_refl _)

/-- A `skip if` that waits keeps waiting while a statement is placed elsewhere. -/
theorem waits_place_of_ne (hs : t.Sound) (hp : p < t.size) {id owner : Nat} (hne : id ≠ p)
    (h : (t.node id).parent = some owner ∧ t.flow id = .skip ∧ t.children id = []) :
    ((place t p st).node id).parent = some owner ∧ (place t p st).flow id = .skip ∧
      (place t p st).children id = [] := by
  have hsize := (hs.parent_lt h.1).2
  rw [node_place_of_lt hsize, grows_place.flow_eq hsize, children_place_of_ne hp hne]
  exact h

end Script

namespace Tree

open Script

/-- A statement that neither declares a label nor jumps to one is placed by adding it. -/
theorem place_eq_add {t : Tree} {p : Nat} {st : Statement} (hlabel : st.isLabel = false)
    (hjump : st.isLabelJump = false) : place t p st = t.add p st := by
  have hstatement : (t.add p st).statement t.size = st := by
    rw [statement, add, node_addNode, if_pos rfl]
  unfold place recordSymbol
  rw [hstatement]
  dsimp only
  split
  · rfl
  · rw [hlabel, hjump]
    rfl

/-! ### Adding a statement that fits

There are two places for a new statement. It goes into a block, after closing the innermost one if
it is a branch or an `end`; or it is the command that a `skip if` waits for. The conditions of the
first lemma are those of the grammar: what it may follow, that an exit is in a loop, and that only
comments and blank lines may come while a `skip if` waits. -/

namespace Nested

variable {t : Tree} {blocks : List Nat} {waiting : Option Nat} {st : Statement}

/-- The last child of the innermost open block is not itself open. -/
theorem lastFlow_not_open (h : t.Nested blocks waiting) :
    (t.lastFlow (ownerOf blocks)).opensBlock = false := by
  rw [lastFlow]
  cases hlast : (t.children (ownerOf blocks)).getLast? with
  | none => rfl
  | some id =>
      rw [Option.map_some, Option.getD_some]
      cases hopen : (t.flow id).opensBlock with
      | false => rfl
      | true =>
          have hmem := h.open_of_last _ id hlast hopen
          have hparent := (mem_children.mp (List.mem_of_getLast? hlast)).2.2
          exact absurd hparent (h.path.parent_ne_owner h.sound hmem)

/-- The last child beside the innermost open block is that block. -/
theorem lastFlow_outer {top : Nat} {outer : List Nat} (h : t.Nested (top :: outer) waiting) :
    t.lastFlow (ownerOf outer) = t.flow top := by
  rw [lastFlow, h.path.1, Option.map_some, Option.getD_some]

/-- Siblings follow each other as they may, if the new one does. -/
theorem siblings_place (h : t.Nested blocks waiting) {p : Nat} (hp : p < t.size)
    (hlink : (t.lastFlow p).mayPrecede st.flow = true) :
    ∀ id, 0 < id → id < (place t p st).size →
      ((place t p st).flowBefore id).mayPrecede ((place t p st).flow id) = true := by
  refine forall_place (fun id hpos hlt => ?_) ?_
  · rw [grows_place.flowBefore_eq hlt, grows_place.flow_eq hlt]
    exact h.siblings id hpos hlt
  · rw [flowBefore_place_size hp, flow_place_size]
    exact hlink

/-- Only blocks and `skip if`s have children. -/
theorem parents_place (h : t.Nested blocks waiting) {p : Nat} (hp : p < t.size)
    (hflow : p = root ∨ (t.flow p).opensBlock = true ∨ t.flow p = .skip) :
    ∀ id q, ((place t p st).node id).parent = some q →
      q = root ∨ ((place t p st).flow q).opensBlock = true ∨ (place t p st).flow q = .skip := by
  intro id q hq
  obtain ⟨hlt, hsize⟩ := (sound_place h.sound hp).parent_lt hq
  rw [size_place] at hsize
  rcases Nat.lt_succ_iff_lt_or_eq.mp hsize with hold | rfl
  · rw [node_place_of_lt hold] at hq
    rw [grows_place.flow_eq (by omega)]
    exact h.parents id q hq
  · rw [node_place_size] at hq
    cases hq
    rw [grows_place.flow_eq hp]
    exact hflow

/-- An exit is in a loop, if the new one is. -/
theorem exits_place (h : t.Nested blocks waiting) {p : Nat}
    (hexit : st.flow = .breakLoop ∨ st.flow = .continueLoop →
      ((place t p st).enclosingLoop? t.size).isSome = true) :
    ∀ id, 0 < id → id < (place t p st).size →
      (place t p st).flow id = .breakLoop ∨ (place t p st).flow id = .continueLoop →
        ((place t p st).enclosingLoop? id).isSome = true := by
  refine forall_place (fun id hpos hlt => ?_) ?_
  · rw [grows_place.flow_eq hlt, grows_place.enclosingLoop?_eq hlt]
    exact h.exits id hpos hlt
  · rw [flow_place_size]
    exact hexit

/-- An open block that is the last child of a node other than the one a statement goes to is open still:
when a branch or an end leaves the innermost block, only that block is closed. -/
theorem mem_of_open_last (h : t.Nested blocks waiting) {base : List Nat}
    (hbase : base = blocks ∨ base = blocks.tail) {q id : Nat} (hq : q ≠ ownerOf base)
    (hlast : (t.children q).getLast? = some id) (hopen : (t.flow id).opensBlock = true) :
    id ∈ base := by
  have hblocks := h.open_of_last q id hlast hopen
  rcases hbase with rfl | rfl
  · exact hblocks
  · cases blocks with
    | nil => cases hblocks
    | cons top outer =>
        rcases List.mem_cons.mp hblocks with rfl | hmem
        · have hparent := h.path.parent_eq
          rw [(mem_children.mp (List.mem_of_getLast? hlast)).2.2] at hparent
          exact absurd (Option.some.inj hparent) hq
        · exact hmem

/-- A statement that fits goes to the end of the innermost block, or beside the block that it
continues or ends, and is then open itself if it opens a block. -/
theorem addToBlock (h : t.Nested blocks waiting) (hst : st.Proper) {base : List Nat}
    (hbase : base = blocks ∨ base = blocks.tail)
    (hlink : (t.lastFlow (ownerOf base)).mayPrecede st.flow = true)
    (hexit : st.flow = .breakLoop ∨ st.flow = .continueLoop → ∃ b ∈ base, (t.flow b).isLoop = true)
    (hwait : waiting ≠ none → st.flow = .plain ∧ base = blocks) :
    (place t (ownerOf base) st).Nested (if st.flow.opensBlock then t.size :: base else base)
      (if st.flow = .skip then some t.size else waiting) := by
  have hpath : t.OpenPath base := by
    rcases hbase with rfl | rfl
    · exact h.path
    · exact h.path.tail
  have howner : ownerOf base < t.size := hpath.owner_lt h.sound
  -- a waiting `skip if` does not own what is placed in a block
  have hskip : ∀ id, 0 < id → t.flow id = .skip → id ≠ ownerOf base := by
    rintro id hpos hid rfl
    exact hpath.flow_owner hpos hid
  refine {
    sound := sound_place h.sound howner
    proper := proper_place h.proper hst _
    siblings := h.siblings_place howner hlink
    parents := h.parents_place howner (hpath.owner_eq_or_opensBlock.imp_right Or.inl)
    exits := h.exits_place fun hbreak => isSome_enclosingLoop?_place ?_
    path := openPath_place_opened h.sound hpath
    open_of_last := forall_open_last_place howner (fun q id hq hlast hopen => ?_) fun hopen => ?_
    skips := forall_place (fun id hpos hlt hid hne => ?_) fun hid hne => ?_
    waits := fun id hid => ?_ }
  · rw [ancestors_place_owner h.sound hpath]
    exact hexit hbreak
  · have hmem := h.mem_of_open_last hbase hq hlast hopen
    split
    · exact List.mem_cons_of_mem _ hmem
    · exact hmem
  · rw [if_pos hopen]
    exact List.mem_cons_self
  · -- a `skip if` that waits for its command is not replaced by another one
    rw [grows_place.flow_eq hlt] at hid
    have hwaiting : waiting ≠ some id := by
      intro heq
      have hplain := (hwait (by rw [heq]; simp)).1
      rw [hplain] at hne
      exact hne heq
    exact exists_skipped_place howner (hskip id hpos hid) (h.skips id hpos hlt hid hwaiting)
  · rw [flow_place_size] at hid
    rw [if_pos hid] at hne
    exact absurd rfl hne
  · by_cases hskipping : st.flow = .skip
    · rw [if_pos hskipping] at hid
      cases hid
      rw [hskipping]
      exact waits_place_size howner hskipping
    · rw [if_neg hskipping] at hid
      obtain ⟨hplain, rfl⟩ := hwait (by rw [hid]; simp)
      have hwaits := h.waits id hid
      have hpos : 0 < id := Nat.zero_lt_of_lt (h.sound.parent_lt hwaits.1).1
      rw [hplain]
      exact waits_place_of_ne h.sound howner (hskip id hpos hwaits.2.1) hwaits

/-- A simple command goes to the `skip if` that waits for it. -/
theorem addToSkip {w : Nat} (h : t.Nested blocks (some w)) (hst : st.Proper)
    (hsimple : st.flow.isSimple = true) (haux : st.isAuxiliary = false)
    (hexit : st.flow = .breakLoop ∨ st.flow = .continueLoop →
      ∃ b ∈ blocks, (t.flow b).isLoop = true) : (place t w st).Nested blocks none := by
  obtain ⟨hparent, hflow, hchildren⟩ := h.waits w rfl
  obtain ⟨hlt, hw⟩ := h.sound.parent_lt hparent
  have hroot : w ≠ root := Nat.ne_of_gt (show 0 < w by omega)
  have hnotopen : st.flow.opensBlock = false := by
    simp only [Flow.isSimple, Bool.and_eq_true, Bool.not_eq_true'] at hsimple
    exact hsimple.1.1
  have hsound : (place t w st).Sound := sound_place h.sound hw
  refine {
    sound := hsound
    proper := proper_place h.proper hst _
    siblings := h.siblings_place hw ?_
    parents := h.parents_place hw (Or.inr (Or.inr hflow))
    exits := h.exits_place fun hbreak => isSome_enclosingLoop?_place ?_
    path := openPath_place h.path hw fun b _ hb => ?_
    open_of_last := forall_open_last_place hw (fun q id _ => h.open_of_last q id) fun hopen => ?_
    skips := forall_place (fun id hpos hlt hid hne => ?_) fun hid _ => ?_
    waits := fun id hid => by cases hid }
  · rw [lastFlow, hchildren, List.getLast?_nil, Option.map_none, Option.getD_none,
      Flow.mayPrecede_of_not_open rfl, Flow.continuesBlock_of_isSimple hsimple]
    rfl
  · -- above the command are the `skip if` and the blocks around it
    obtain ⟨b, hb, hloop⟩ := hexit hbreak
    rw [ancestors_of_parent hsound (by rw [node_place_size]), if_neg hroot,
      grows_place.ancestors_eq hw, h.path.ancestors_eq h.sound hparent]
    exact ⟨b, List.mem_cons_of_mem _ hb, hloop⟩
  · have hmem := h.sound.mem_children_iff.mpr hb
    rw [hchildren] at hmem
    cases hmem
  · rw [hnotopen] at hopen
    cases hopen
  · rw [grows_place.flow_eq hlt] at hid
    by_cases hiw : id = w
    · subst hiw
      refine ⟨t.size, ?_, by rw [flow_place_size]; exact hsimple, ?_⟩
      · rw [children_place hw, if_pos rfl, hchildren, List.nil_append]
      · rw [Tree.statement, node_place_size]
        exact haux
    · exact exists_skipped_place hw hiw
        (h.skips id hpos hlt hid fun heq => hiw (Option.some.inj heq).symm)
  · rw [flow_place_size] at hid
    rw [hid] at hsimple
    cases hsimple

/-! ### What the tree looks like around a node

These are the facts about finished trees that lowering is built on. -/

/-- Only the root, blocks and `skip if`s own anything. -/
theorem children_eq_nil (h : t.Nested blocks waiting) {id : Nat} (hroot : id ≠ root)
    (hopen : (t.flow id).opensBlock = false) (hskip : t.flow id ≠ .skip) : t.children id = [] := by
  rw [List.eq_nil_iff_forall_not_mem]
  intro c hc
  rcases h.parents c id (mem_children.mp hc).2.2 with heq | heq | heq
  · exact hroot heq
  · rw [hopen] at heq
    cases heq
  · exact hskip heq

/-- A loop is executed. -/
theorem isExecutable_of_isLoop (h : t.Nested blocks waiting) {l : Nat} (hpos : 0 < l)
    (hloop : (t.flow l).isLoop = true) : (t.statement l).isExecutable = true := by
  refine (h.proper l hpos (lt_size_of_isLoop hloop)).isExecutable_of_flow ?_ ?_ ?_ <;> intro heq <;>
    rw [show t.flow l = _ from heq] at hloop <;> cases hloop

/-- Neighbours follow each other as they may. -/
theorem mayPrecede_of_children (h : t.Nested blocks waiting) {p x y : Nat} {before after : List Nat}
    (hc : t.children p = before ++ x :: y :: after) :
    (t.flow x).mayPrecede (t.flow y) = true := by
  have hc' : t.children p = (before ++ [x]) ++ y :: after := by
    rw [hc, List.append_assoc, List.singleton_append]
  have hy := mem_children.mp (show y ∈ t.children p by rw [hc']; simp)
  have hlink := h.siblings y (by omega) hy.1
  rw [flowBefore, previousSibling?_of_children hc', List.getLast?_concat] at hlink
  exact hlink

/-- A first child continues nothing. -/
theorem mayPrecede_first (h : t.Nested blocks waiting) {p y : Nat} {after : List Nat}
    (hc : t.children p = y :: after) : (t.flow y).continuesBlock = false := by
  have hc' : t.children p = [] ++ y :: after := hc
  have hy := mem_children.mp (show y ∈ t.children p by rw [hc]; simp)
  have hlink := h.siblings y (by omega) hy.1
  rw [flowBefore, previousSibling?_of_children hc', List.getLast?_nil, Option.map_none,
    Option.getD_none, Flow.mayPrecede_of_not_open rfl] at hlink
  simpa using hlink

/-- When nothing is open, every block has a next sibling. -/
theorem exists_next (h : t.Nested [] waiting) {id : Nat} (hpos : 0 < id) (hlt : id < t.size)
    (hopen : (t.flow id).opensBlock = true) :
    ∃ p before y after, t.children p = before ++ id :: y :: after := by
  obtain ⟨p, hp, -⟩ := h.sound.exists_parent id hpos hlt
  obtain ⟨before, hchildren⟩ := exists_children_eq (h.sound.mem_children_iff.mpr hp)
  cases hlater : t.later id with
  | nil =>
      rw [hlater] at hchildren
      have hlast : (t.children p).getLast? = some id := by rw [hchildren, List.getLast?_concat]
      cases h.open_of_last p id hlast hopen
  | cons y after => exact ⟨p, before, y, after, hlater ▸ hchildren⟩

/-- When nothing is open, every block has its end among the siblings after it, with only branches in
between. -/
theorem exists_end (h : t.Nested [] waiting) {p x : Nat} {before after : List Nat}
    (hc : t.children p = before ++ x :: after) (hopen : (t.flow x).opensBlock = true) :
    ∃ branches e rest, after = branches ++ e :: rest ∧ t.flow e = .blockEnd ∧
      ∀ b ∈ branches, t.flow b = .elseIfBlock ∨ t.flow b = .elseBlock := by
  induction after generalizing before x with
  | nil =>
      have hlast : (t.children p).getLast? = some x := by rw [hc, List.getLast?_concat]
      cases h.open_of_last p x hlast hopen
  | cons y after ih =>
      have hlink := h.mayPrecede_of_children hc
      have hc' : t.children p = (before ++ [x]) ++ y :: after := by
        rw [hc, List.append_assoc, List.singleton_append]
      have branch : t.flow y = .elseIfBlock ∨ t.flow y = .elseBlock →
          ∃ branches e rest, y :: after = branches ++ e :: rest ∧ t.flow e = .blockEnd ∧
            ∀ b ∈ branches, t.flow b = .elseIfBlock ∨ t.flow b = .elseBlock := by
        intro hy
        obtain ⟨branches, e, rest, rfl, he, hbranches⟩ :=
          ih hc' (by rcases hy with hf | hf <;> rw [hf] <;> rfl)
        refine ⟨y :: branches, e, rest, rfl, he, ?_⟩
        intro b hb
        rcases List.mem_cons.mp hb with rfl | hmem
        · exact hy
        · exact hbranches b hmem
      cases hy : t.flow y with
      | elseIfBlock => exact branch (Or.inl hy)
      | elseBlock => exact branch (Or.inr hy)
      | blockEnd => exact ⟨[], y, after, rfl, hy, by simp⟩
      | plain | ifBlock | whileLoop | forLoop | foreachLoop | skip | breakLoop | continueLoop
      | goto | gosub | finish =>
          simp [hy, Flow.mayPrecede, hopen] at hlink

/-- After a node that is not open, the statements that are not executed are auxiliary. -/
theorem auxiliary_of_not_executable (h : t.Nested blocks waiting) {p y : Nat}
    {before after : List Nat} (hc : t.children p = before ++ y :: after)
    (hy : (t.flow y).opensBlock = false)
    (hexec : ∀ x ∈ after, (t.statement x).isExecutable = false) :
    ∀ x ∈ after, (t.statement x).isAuxiliary = true := by
  induction after generalizing before y with
  | nil => simp
  | cons x after ih =>
      have hx := mem_children.mp (show x ∈ t.children p by rw [hc]; simp)
      have hlink := h.mayPrecede_of_children hc
      rw [Flow.mayPrecede_of_not_open hy] at hlink
      have hproper := h.proper x (by omega) hx.1
      have haux : (t.statement x).isAuxiliary = true := by
        rcases hproper.classified with haux | hvirtual | hex
        · exact haux
        · have hflow : t.flow x = .elseBlock ∨ t.flow x = .blockEnd := by
            simp only [Statement.isVirtual, Bool.and_eq_true, Bool.or_eq_true, beq_iff_eq] at hvirtual
            exact hvirtual.2
          rcases hflow with hf | hf <;> rw [hf] at hlink <;> cases hlink
        · rw [hexec x List.mem_cons_self] at hex
          cases hex
      have hflow : t.flow x = .plain := hproper.flow_of_auxiliary haux
      have hc' : t.children p = (before ++ [y]) ++ x :: after := by
        rw [hc, List.append_assoc, List.singleton_append]
      have hrest := ih hc' (by rw [hflow]; rfl) fun z hz => hexec z (List.mem_cons_of_mem _ hz)
      intro z hz
      rcases List.mem_cons.mp hz with rfl | hmem
      · exact haux
      · exact hrest z hmem

end Nested

end Tree

end MissionScript
