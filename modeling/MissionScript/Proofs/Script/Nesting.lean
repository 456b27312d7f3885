import MissionScript.Proofs.Script.Blocks
import MissionScript.Proofs.Tree.Order

/-!
# MissionScript.Proofs.Script.Nesting

Reading a script and checking its tree accept exactly the block structure of the grammar.

The stack machine of `MissionScript.Proofs.Script.Outline` runs along with the reader
(`insert_simulates`): as long as lines fit, the tree stays `Nested` and the machine's frames are the
open blocks. The first line that does not fit leaves a node out of place, and nothing that comes
later puts it right (`Broken.insert`).

Two invariants go through the lines. `Fits` holds as long as every line had its place: the tree is
`Nested`, and the machine has not got stuck. `Broken` holds from the first line on that had none.
Between them they say of every script whether the check will find something wrong with its blocks,
which is `not_misplaced` on one side and `nestingProblem?_isSome_iff` on the other.
-/

namespace MissionScript

namespace Tree

/-! ### Nodes out of place

The check looks at each node by itself. For a `break` it asks for a loop around it, for a branch or
an `end` what stands in front of it, and for a `skip if` whether it has its one command. -/

/-- The place of a node among the others is wrong. -/
def Misplaced (t : Tree) (id : Nat) : Prop :=
  match t.flow id with
  | .breakLoop | .continueLoop => t.enclosingLoop? id = none
  | .elseIfBlock | .elseBlock | .blockEnd => (t.flowBefore id).mayPrecede (t.flow id) = false
  | .skip => (t.children id).length ≠ 1
  | _ => False

/-- A `break` or `continue` is out of place when nothing above it is a loop. -/
theorem misplaced_exit {t : Tree} {id : Nat} (hexit : t.flow id = .breakLoop ∨ t.flow id = .continueLoop)
    (habove : ∀ b ∈ t.ancestors id, (t.flow b).isLoop = false) : t.Misplaced id := by
  have hnone : t.enclosingLoop? id = none := by
    rw [enclosingLoop?, List.find?_eq_none]
    intro b hb
    rw [habove b hb]
    exact Bool.false_ne_true
  rw [Misplaced]
  rcases hexit with hf | hf <;> rw [hf] <;> exact hnone

/-- A nesting problem is reported for the nodes that are out of place. -/
theorem nestingProblem?_isSome_iff (t : Tree) (id : Nat) :
    (t.nestingProblem? id).isSome = true ↔ t.Misplaced id := by
  unfold nestingProblem? Misplaced flowBefore
  dsimp only
  cases hflow : t.flow id with
  | breakLoop | continueLoop => cases t.enclosingLoop? id <;> simp
  | elseIfBlock | elseBlock =>
      cases (t.previousSibling? id).map t.flow with
      | none => simp [Flow.mayPrecede]
      | some f => cases f <;> simp [Flow.mayPrecede]
  | blockEnd =>
      cases (t.previousSibling? id).map t.flow with
      | none => simp [Flow.mayPrecede, Flow.opensBlock]
      | some f => cases hf : f.opensBlock <;> simp [Flow.mayPrecede, hf]
  | skip => by_cases hlength : (t.children id).length = 1 <;> simp [hlength]
  | plain | ifBlock | whileLoop | forLoop | foreachLoop | goto | gosub | finish => simp

/-- Nothing is out of place in a tree that fits together, the waiting `skip if` apart. -/
theorem Nested.not_misplaced {t : Tree} {blocks : List Nat} {waiting : Option Nat}
    (h : t.Nested blocks waiting) {id : Nat} (hpos : 0 < id) (hlt : id < t.size)
    (hne : waiting ≠ some id) : ¬ t.Misplaced id := by
  unfold Misplaced
  have hsiblings := h.siblings id hpos hlt
  cases hflow : t.flow id with
  | breakLoop =>
      have hsome := h.exits id hpos hlt (Or.inl hflow)
      intro hnone
      simp [hnone] at hsome
  | continueLoop =>
      have hsome := h.exits id hpos hlt (Or.inr hflow)
      intro hnone
      simp [hnone] at hsome
  | elseIfBlock | elseBlock | blockEnd =>
      rw [hflow] at hsiblings
      simp [hsiblings]
  | skip =>
      obtain ⟨c, hc, -⟩ := h.skips id hpos hlt hflow hne
      simp [hc]
  | plain | ifBlock | whileLoop | forLoop | foreachLoop | goto | gosub | finish => exact not_false

end Tree

namespace Script

open MissionScript.Tree

/-! ### One line

`insertInBlock` has a case for each part that a line can play. They differ in two things only: which
blocks are open around the line, and whether it is an open block afterwards. `base` and `opens` name
these, and `insertInBlock_eq` says the rest once. -/

/-- The blocks that a line leaves open around it. -/
def base (s : Script) : Flow → List Nat
  | .blockEnd => s.blocks.tail
  | .elseIfBlock | .elseBlock => if s.continuesBranch then s.blocks.tail else s.blocks
  | _ => s.blocks

/-- Is the line an open block afterwards? -/
def opens (s : Script) : Flow → Bool
  | .elseIfBlock | .elseBlock => s.continuesBranch
  | f => f.opensBlock

/-- A line goes to the end of the innermost block that is open around it. -/
theorem insertInBlock_eq (s : Script) (st : Statement) :
    s.insertInBlock st =
      { s with
        tree := place s.tree (ownerOf (s.base st.flow)) st
        blocks := if s.opens st.flow then s.tree.size :: s.base st.flow else s.base st.flow
        waiting := if st.flow = .skip then some s.tree.size else s.waiting } := by
  unfold insertInBlock base opens
  cases hflow : st.flow with
  | elseIfBlock | elseBlock => cases hc : s.continuesBranch <;> simp [owner, ownerOf]
  | plain | ifBlock | blockEnd | whileLoop | forLoop | foreachLoop | skip | breakLoop
  | continueLoop | goto | gosub | finish => simp [owner, ownerOf, Flow.opensBlock]

/-- A line leaves all blocks open around it, or all but the innermost. -/
theorem base_eq_or (s : Script) (f : Flow) : s.base f = s.blocks ∨ s.base f = s.blocks.tail := by
  cases f with
  | blockEnd => exact Or.inr rfl
  | elseIfBlock | elseBlock => cases hc : s.continuesBranch <;> simp [base, hc]
  | plain | ifBlock | whileLoop | forLoop | foreachLoop | skip | breakLoop | continueLoop | goto
  | gosub | finish => exact Or.inl rfl

theorem base_subset (s : Script) (f : Flow) : ∀ b ∈ s.base f, b ∈ s.blocks := by
  intro b hb
  rcases s.base_eq_or f with heq | heq
  · exact heq ▸ hb
  · exact List.mem_of_mem_tail (heq ▸ hb)

/-- The blocks that a line leaves open lie on a path. -/
theorem openPath_base {s : Script} (h : s.tree.OpenPath s.blocks) (f : Flow) :
    s.tree.OpenPath (s.base f) := by
  rcases s.base_eq_or f with heq | heq
  · exact heq ▸ h
  · exact heq ▸ h.tail

/-- Only what opens a block is open afterwards. -/
theorem opensBlock_of_opens {s : Script} {f : Flow} (h : s.opens f = true) :
    f.opensBlock = true := by
  cases f <;> simp_all [opens, Flow.opensBlock]

/-- Where a statement goes when nothing waits for it, and what is open and waits afterwards. -/
theorem insertInBlock_spec (s : Script) (st : Statement) :
    ∃ p, (s.insertInBlock st).tree = place s.tree p st ∧ (p = root ∨ p ∈ s.blocks) ∧
      (∀ b ∈ (s.insertInBlock st).blocks,
        b ∈ s.blocks ∨ b = s.tree.size ∧ st.flow.opensBlock = true) ∧
      ((s.insertInBlock st).waiting = s.waiting ∨
        (s.insertInBlock st).waiting = some s.tree.size ∧ st.flow = .skip) := by
  have hbase := base_subset s st.flow
  rw [insertInBlock_eq]
  refine ⟨_, rfl, ?_, ?_, ?_⟩
  · cases hb : s.base st.flow with
    | nil => exact Or.inl rfl
    | cons top outer => exact Or.inr (hbase top (hb ▸ List.mem_cons_self))
  · intro b hb
    dsimp only at hb
    split at hb
    · next ho =>
      rcases List.mem_cons.mp hb with rfl | hmem
      · exact Or.inr ⟨rfl, opensBlock_of_opens ho⟩
      · exact Or.inl (hbase b hmem)
    · exact Or.inl (hbase b hb)
  · dsimp only
    split
    · next hskip => exact Or.inr ⟨rfl, hskip⟩
    · exact Or.inl rfl

/-- Where a statement goes, whatever it is: below the root, an open block or the waiting `skip if`. -/
theorem insert_spec (s : Script) (st : Statement) :
    ∃ p, (s.insert st).tree = place s.tree p st ∧
      (p = root ∨ p ∈ s.blocks ∨ s.waiting = some p) ∧
      (∀ b ∈ (s.insert st).blocks, b ∈ s.blocks ∨ b = s.tree.size ∧ st.flow.opensBlock = true) ∧
      ((s.insert st).waiting = s.waiting ∨ (s.insert st).waiting = none ∨
        (s.insert st).waiting = some s.tree.size ∧ st.flow = .skip) := by
  have inBlock := insertInBlock_spec s st
  unfold insert
  split
  · obtain ⟨p, htree, hp, hblocks, hwaiting⟩ := inBlock
    exact ⟨p, htree, hp.imp_right Or.inl, hblocks, hwaiting.imp_right Or.inr⟩
  · next w hw =>
    split
    · obtain ⟨p, htree, hp, hblocks, hwaiting⟩ := inBlock
      exact ⟨p, htree, hp.imp_right Or.inl, hblocks, hwaiting.imp_right Or.inr⟩
    · dsimp only
      split
      · exact ⟨w, rfl, Or.inr (Or.inr hw), fun b hb => Or.inl hb, Or.inr (Or.inl rfl)⟩
      · obtain ⟨p, htree, hp, hblocks, hwaiting⟩ :=
          insertInBlock_spec { s with waiting := none } st
        exact ⟨p, htree, hp.imp_right Or.inl, hblocks, Or.inr hwaiting⟩

/-! ### What goes wrong stays wrong

Lines to come are placed behind what is there, or below what is open. They give a node neither a
loop around it nor another sibling in front of it. A `skip if` could still get its command while it
waits, so it only counts as broken once it does not. -/

/-- The open blocks and the waiting `skip if` are what they should be, whether or not the lines
fit. -/
structure Opened (s : Script) : Prop where
  sound : s.tree.Sound
  proper : ∀ id, 0 < id → id < s.tree.size → (s.tree.statement id).Proper
  blocks : ∀ b ∈ s.blocks, b < s.tree.size ∧ (s.tree.flow b).opensBlock = true
  waiting : ∀ w, s.waiting = some w → w < s.tree.size ∧ s.tree.flow w = .skip

/-- Some node is out of place and no line to come can help it. -/
def Broken (s : Script) : Prop :=
  ∃ id, 0 < id ∧ id < s.tree.size ∧ s.tree.Misplaced id ∧ s.waiting ≠ some id

/-- Every line leaves the blocks and the `skip if` as they should be, whether it fits or not. -/
theorem Opened.insert {s : Script} (h : s.Opened) {st : Statement} (hst : st.Proper) :
    (s.insert st).Opened := by
  obtain ⟨p, htree, hp, hblocks, hwaiting⟩ := insert_spec s st
  have hlt : p < s.tree.size := by
    rcases hp with rfl | hmem | hw
    · exact h.sound.size_pos
    · exact (h.blocks p hmem).1
    · exact (h.waiting p hw).1
  refine ⟨htree ▸ sound_place h.sound hlt, ?_, ?_, ?_⟩
  · rw [htree]
    exact proper_place h.proper hst p
  · intro b hb
    rw [htree, size_place]
    rcases hblocks b hb with hold | ⟨rfl, hopen⟩
    · have := h.blocks b hold
      rw [grows_place.flow_eq this.1]
      exact ⟨by omega, this.2⟩
    · rw [flow_place_size]
      exact ⟨by omega, hopen⟩
  · intro w hw
    rw [htree, size_place]
    rcases hwaiting with heq | heq | ⟨heq, hskip⟩
    · have := h.waiting w (heq ▸ hw)
      rw [grows_place.flow_eq this.1]
      exact ⟨by omega, this.2⟩
    · rw [heq] at hw
      cases hw
    · rw [heq] at hw
      cases hw
      rw [flow_place_size]
      exact ⟨by omega, hskip⟩

/-- A node that is out of place stays so, unless it waits for its command. -/
theorem Broken.insert {s : Script} (ho : s.Opened) (h : s.Broken) (st : Statement) :
    (s.insert st).Broken := by
  obtain ⟨id, hpos, hlt, hmis, hne⟩ := h
  obtain ⟨p, htree, hp, -, hwaiting⟩ := insert_spec s st
  refine ⟨id, hpos, by rw [htree, size_place]; omega, ?_, ?_⟩
  · rw [htree]
    unfold Misplaced at hmis ⊢
    rw [grows_place.flow_eq hlt, grows_place.enclosingLoop?_eq hlt, grows_place.flowBefore_eq hlt]
    cases hflow : s.tree.flow id with
    | skip =>
        rw [hflow] at hmis
        -- only the `skip if` that waits can be given its command
        have hpid : id ≠ p := by
          rintro rfl
          rcases hp with rfl | hmem | hw
          · exact absurd hpos (Nat.lt_irrefl _)
          · have hopen := (ho.blocks id hmem).2
            rw [hflow] at hopen
            cases hopen
          · exact hne hw
        have hlt' : p < s.tree.size := by
          rcases hp with rfl | hmem | hw
          · exact ho.sound.size_pos
          · exact (ho.blocks p hmem).1
          · exact (ho.waiting p hw).1
        rw [children_place_of_ne hlt' hpid]
        exact hmis
    | plain | ifBlock | elseIfBlock | elseBlock | blockEnd | whileLoop | forLoop | foreachLoop
    | breakLoop | continueLoop | goto | gosub | finish =>
        rw [hflow] at hmis
        exact hmis
  · rcases hwaiting with heq | heq | ⟨heq, -⟩
    · rw [heq]
      exact hne
    · rw [heq]
      simp
    · rw [heq]
      intro hid
      have := Option.some.inj hid
      omega

/-! ### The machine runs along

Each kind of line has a lemma that compares what the reader does with the step of the machine: it is
either free to stand anywhere, or it leaves a loop, continues a branch, or ends a block.
`insert_simulates` puts them together. -/

/-- The frame of an open block. -/
def frameOf : Flow → Frame
  | .elseBlock => .lastBranch
  | .whileLoop | .forLoop | .foreachLoop => .loop
  | _ => .branch

/-- The state of the machine that a script stands for. -/
def outline (s : Script) : Outline where
  frames := s.blocks.map fun b => frameOf (s.tree.flow b)
  waiting := s.waiting.isSome

/-- The lines read so far fit together. -/
def Fits (s : Script) : Prop := s.tree.Nested s.blocks s.waiting

/-- While the lines fit, what is open is what it should be. -/
theorem Fits.opened {s : Script} (h : s.Fits) : s.Opened where
  sound := h.sound
  proper := h.proper
  blocks b hb := ⟨(h.path.mem_bounds hb).2.1, (h.path.mem_bounds hb).2.2.2⟩
  waiting w hw := by
    obtain ⟨hparent, hflow, -⟩ := h.waits w hw
    exact ⟨(h.sound.parent_lt hparent).2, hflow⟩

/-- A frame of the machine is a loop exactly if one of the open blocks is. -/
theorem loop_mem_frames (s : Script) :
    Frame.loop ∈ s.outline.frames ↔ ∃ b ∈ s.blocks, (s.tree.flow b).isLoop = true := by
  have hframe : ∀ f : Flow, frameOf f = .loop ↔ f.isLoop = true := by
    intro f
    cases f <;> simp [frameOf, Flow.isLoop]
  simp only [outline, List.mem_map, hframe]

/-- When no frame is a loop, no open block is one, whatever has been placed since. -/
theorem isLoop_eq_false_of_frames {s : Script} (h : s.Fits) (hloop : Frame.loop ∉ s.outline.frames)
    {t : Tree} (hgrows : s.tree.Grows t) : ∀ b ∈ s.blocks, (t.flow b).isLoop = false := by
  intro b hb
  rw [hgrows.flow_eq (h.path.mem_bounds hb).2.1, ← Bool.not_eq_true]
  exact fun hisloop => hloop ((loop_mem_frames s).mpr ⟨b, hb, hisloop⟩)

/-- A line that follows what is in front of it fits. -/
theorem fits_insertInBlock {s : Script} (h : s.Fits) {st : Statement} (hst : st.Proper)
    (hopens : s.opens st.flow = st.flow.opensBlock)
    (hlink : (s.tree.lastFlow (ownerOf (s.base st.flow))).mayPrecede st.flow = true)
    (hexit : st.flow = .breakLoop ∨ st.flow = .continueLoop →
      Frame.loop ∈ s.outline.frames)
    (hwait : s.waiting ≠ none → st.flow = .plain) : (s.insertInBlock st).Fits := by
  rw [insertInBlock_eq]
  unfold Fits
  dsimp only
  rw [hopens]
  refine h.addToBlock hst (s.base_eq_or _) hlink ?_ ?_
  · intro hbreak
    have hsame : s.base st.flow = s.blocks := by rcases hbreak with hf | hf <;> rw [hf] <;> rfl
    rw [hsame]
    exact (loop_mem_frames s).mp (hexit hbreak)
  · intro hw
    have hplain := hwait hw
    exact ⟨hplain, by rw [hplain]; rfl⟩

/-- What the machine stands at after a line that nothing waits for. -/
theorem outline_insertInBlock {s : Script} (h : s.Opened) (st : Statement) :
    (s.insertInBlock st).outline =
      { frames := (if s.opens st.flow then [frameOf st.flow] else [])
          ++ (s.base st.flow).map fun b => frameOf (s.tree.flow b)
        waiting := st.flow == .skip || s.waiting.isSome } := by
  have hold : ∀ b ∈ s.base st.flow, frameOf ((place s.tree (ownerOf (s.base st.flow)) st).flow b)
      = frameOf (s.tree.flow b) := by
    intro b hb
    rw [grows_place.flow_eq (h.blocks b (base_subset s st.flow b hb)).1]
  rw [insertInBlock_eq, outline]
  dsimp only
  congr 1
  · split
    · rw [List.map_cons, List.map_congr_left hold, flow_place_size, List.singleton_append]
    · rw [List.map_congr_left hold, List.nil_append]
  · by_cases hskip : st.flow = .skip
    · simp [hskip]
    · simp [hskip]

/-- A node that has just been placed wrongly. -/
theorem broken_of_new {s : Script} {st : Statement} (h : (s.insertInBlock st).tree.Misplaced s.tree.size)
    (hsound : 0 < s.tree.size) (hwait : ∀ w, s.waiting = some w → w < s.tree.size)
    (hskip : st.flow ≠ .skip) : (s.insertInBlock st).Broken := by
  refine ⟨s.tree.size, hsound, ?_, h, ?_⟩
  · rw [insertInBlock_eq]
    dsimp only
    rw [size_place]
    omega
  · rw [insertInBlock_eq]
    dsimp only
    rw [if_neg hskip]
    intro hw
    have := hwait _ hw
    omega

/-- The machine follows a line: either it reads the line and the script still fits, or it gets stuck
and the script is broken. -/
def Follows (s : Script) (st : Statement) (s' : Script) : Prop :=
  (s.outline.step (LineKind.ofStatement st) = some s'.outline ∧ s'.Fits) ∨
    (s.outline.step (LineKind.ofStatement st) = none ∧ s'.Broken)

/-- While nothing waits, the machine steps in the blocks. -/
theorem outline_of_not_waiting {s : Script} (hw : s.waiting = none) (k : LineKind) :
    s.outline.step k = Outline.stepInBlock s.outline.frames k := by
  rw [Outline.step, outline, hw]
  rfl

/-- While a `skip if` waits, the machine steps with its command. -/
theorem outline_of_waiting {s : Script} {w : Nat} (hw : s.waiting = some w) (k : LineKind) :
    s.outline.step k = Outline.stepWaiting s.outline.frames k := by
  rw [Outline.step, outline, hw]
  rfl

/-- What takes part in the flow of control is no comment and no blank line. -/
theorem not_auxiliary_of_flow {st : Statement} (hst : st.Proper) (hflow : st.flow ≠ .plain) :
    st.isAuxiliary = false := by
  cases haux : st.isAuxiliary with
  | false => rfl
  | true => exact absurd (hst.flow_of_auxiliary haux) hflow

/-- A line that neither continues a block nor leaves a loop fits everywhere. -/
theorem follows_free {s : Script} (h : s.Fits) {st : Statement} (hst : st.Proper)
    (hw : s.waiting = none) (hcontinues : st.flow.continuesBlock = false)
    (hexit : st.flow ≠ .breakLoop ∧ st.flow ≠ .continueLoop) :
    s.Follows st (s.insertInBlock st) := by
  have hbase : s.base st.flow = s.blocks := by
    revert hcontinues
    cases st.flow <;> simp [base, Flow.continuesBlock]
  have hopens : s.opens st.flow = st.flow.opensBlock := by
    revert hcontinues
    cases st.flow <;> simp [opens, Flow.continuesBlock]
  refine Or.inl ⟨?_, ?_⟩
  · rw [outline_of_not_waiting hw, outline_insertInBlock h.opened, hbase, hopens, hw]
    revert hcontinues hexit
    cases hflow : st.flow with
    | plain =>
        intro _ _
        cases haux : st.isAuxiliary <;>
          simp [LineKind.ofStatement, haux, hflow, Outline.stepInBlock, outline, Flow.opensBlock]
    | breakLoop | continueLoop | elseIfBlock | elseBlock | blockEnd =>
        simp [Flow.continuesBlock]
    | ifBlock | whileLoop | forLoop | foreachLoop | skip | goto | gosub | finish =>
        intro _ _
        have haux := not_auxiliary_of_flow hst (by rw [hflow]; decide)
        simp [LineKind.ofStatement, haux, hflow, Outline.stepInBlock, outline, Flow.opensBlock,
          frameOf]
  · refine fits_insertInBlock h hst hopens ?_ ?_ ?_
    · rw [hbase, Flow.mayPrecede_of_not_open h.lastFlow_not_open, hcontinues]
      rfl
    · rintro (hf | hf)
      · exact absurd hf hexit.1
      · exact absurd hf hexit.2
    · exact fun hne => absurd hw hne

/-- `break` and `continue` fit in a loop. -/
theorem follows_exit {s : Script} (h : s.Fits) {st : Statement} (hst : st.Proper)
    (hw : s.waiting = none) (hflow : st.flow = .breakLoop ∨ st.flow = .continueLoop) :
    s.Follows st (s.insertInBlock st) := by
  have haux : st.isAuxiliary = false :=
    not_auxiliary_of_flow hst (by rcases hflow with hf | hf <;> rw [hf] <;> decide)
  have hkind : LineKind.ofStatement st = .loopExit := by
    rcases hflow with hf | hf <;> simp [LineKind.ofStatement, haux, hf]
  have hbase : s.base st.flow = s.blocks := by rcases hflow with hf | hf <;> rw [hf] <;> rfl
  have hopens : s.opens st.flow = false := by rcases hflow with hf | hf <;> rw [hf] <;> rfl
  have hnotopen : st.flow.opensBlock = false := by rcases hflow with hf | hf <;> rw [hf] <;> rfl
  have hskip : st.flow ≠ .skip := by rcases hflow with hf | hf <;> rw [hf] <;> decide
  have hcontinues : st.flow.continuesBlock = false := by
    rcases hflow with hf | hf <;> rw [hf] <;> rfl
  rw [Follows, outline_of_not_waiting hw, hkind, Outline.stepInBlock]
  by_cases hloop : Frame.loop ∈ s.outline.frames
  · -- an open block is a loop, and the line fits
    rw [if_pos hloop]
    refine Or.inl ⟨?_, fits_insertInBlock h hst (hopens.trans hnotopen.symm) ?_ (fun _ => hloop)
      fun hne => absurd hw hne⟩
    · rw [outline_insertInBlock h.opened, hbase, hopens, hw]
      simp [hskip, outline]
    · rw [hbase, Flow.mayPrecede_of_not_open h.lastFlow_not_open, hcontinues]
      rfl
  · rw [if_neg hloop]
    refine Or.inr ⟨rfl, broken_of_new ?_ h.sound.size_pos (fun w hsome => ?_) hskip⟩
    · -- the nodes above the new one are the open blocks, and none of them is a loop
      rw [insertInBlock_eq, hbase]
      dsimp only
      have howner := h.path.owner_lt h.sound
      have hpath : (place s.tree (ownerOf s.blocks) st).OpenPath s.blocks :=
        openPath_place h.path howner fun b hb => h.path.parent_ne_owner h.sound hb
      refine misplaced_exit (by rwa [flow_place_size]) ?_
      rw [hpath.ancestors_eq (sound_place h.sound howner) (by rw [node_place_size])]
      exact isLoop_eq_false_of_frames h hloop grows_place
    · rw [hw] at hsome
      cases hsome

/-- The frame of a node that opens a block shows whether another branch may follow. -/
theorem frameOf_branch_iff {f : Flow} (h : f.opensBlock = true) :
    frameOf f = .branch ↔ f = .ifBlock ∨ f = .elseIfBlock := by
  cases f <;> simp_all [frameOf, Flow.opensBlock]

section

variable {s : Script} {st : Statement}

/-- A branch takes the place of the innermost block if it continues it. -/
theorem base_of_branch (s : Script) {f : Flow} (hflow : f = .elseIfBlock ∨ f = .elseBlock) :
    s.base f = if s.continuesBranch then s.blocks.tail else s.blocks := by
  rcases hflow with rfl | rfl <;> rfl

/-- It opens a block if it continues one. -/
theorem opens_of_branch (s : Script) {f : Flow} (hflow : f = .elseIfBlock ∨ f = .elseBlock) :
    s.opens f = s.continuesBranch := by
  rcases hflow with rfl | rfl <;> rfl

/-- The innermost block can be continued. -/
theorem exists_top_of_continuesBranch (hc : s.continuesBranch = true) :
    ∃ top outer, s.blocks = top :: outer ∧
      (s.tree.flow top = .ifBlock ∨ s.tree.flow top = .elseIfBlock) := by
  cases hblocks : s.blocks with
  | nil => simp [continuesBranch, hblocks] at hc
  | cons top outer =>
      refine ⟨top, outer, rfl, ?_⟩
      simpa [continuesBranch, hblocks] using hc

/-- A branch that continues the innermost block fits. -/
theorem follows_branch_of_continues (h : s.Fits) (hst : st.Proper) (hw : s.waiting = none)
    (hflow : st.flow = .elseIfBlock ∨ st.flow = .elseBlock) (hc : s.continuesBranch = true) :
    s.Follows st (s.insertInBlock st) := by
  have haux : st.isAuxiliary = false :=
    not_auxiliary_of_flow hst (by rcases hflow with hf | hf <;> rw [hf] <;> decide)
  have hopens := opens_of_branch s hflow
  have hbase := base_of_branch s hflow
  obtain ⟨top, outer, hblocks, htop⟩ := exists_top_of_continuesBranch hc
  rw [hc] at hopens
  rw [hc, if_pos rfl, hblocks, List.tail_cons] at hbase
  have hframes : s.outline.frames = .branch :: outer.map fun b => frameOf (s.tree.flow b) := by
    rw [outline, hblocks, List.map_cons]
    rcases htop with hf | hf <;> rw [hf] <;> rfl
  have hnested : s.tree.Nested (top :: outer) s.waiting := hblocks ▸ h
  rw [Follows, outline_of_not_waiting hw]
  refine Or.inl ⟨?_, fits_insertInBlock h hst ?_ ?_ ?_ fun hne => absurd hw hne⟩
  · rw [outline_insertInBlock h.opened, hopens, hbase, hw, hframes, LineKind.ofStatement, haux]
    rcases hflow with hf | hf <;> rw [hf] <;> rfl
  · rw [hopens]
    rcases hflow with hf | hf <;> rw [hf] <;> rfl
  · rw [hbase]
    show (s.tree.lastFlow (ownerOf outer)).mayPrecede st.flow = true
    rw [hnested.lastFlow_outer]
    rcases htop with ht | ht <;> rcases hflow with hf | hf <;> rw [ht, hf] <;> rfl
  · rcases hflow with hf | hf <;> rw [hf] <;> simp

/-- A branch that continues nothing is out of place. -/
theorem follows_branch_of_not_continues (h : s.Fits) (hst : st.Proper) (hw : s.waiting = none)
    (hflow : st.flow = .elseIfBlock ∨ st.flow = .elseBlock) (hc : s.continuesBranch = false) :
    s.Follows st (s.insertInBlock st) := by
  have haux : st.isAuxiliary = false :=
    not_auxiliary_of_flow hst (by rcases hflow with hf | hf <;> rw [hf] <;> decide)
  have hskip : st.flow ≠ .skip := by rcases hflow with hf | hf <;> rw [hf] <;> decide
  have hbase := base_of_branch s hflow
  rw [hc, if_neg Bool.false_ne_true] at hbase
  rw [Follows, outline_of_not_waiting hw]
  refine Or.inr ⟨?_, broken_of_new ?_ h.sound.size_pos (fun w hsome => ?_) hskip⟩
  · -- the innermost frame is not that of a branch, so the outline stops
    cases hblocks : s.blocks with
    | nil =>
        rcases hflow with hf | hf <;>
          simp [LineKind.ofStatement, haux, hf, outline, hblocks, Outline.stepInBlock]
    | cons top outer =>
        have hopen : (s.tree.flow top).opensBlock = true := by
          have hnested : s.tree.Nested (top :: outer) s.waiting := hblocks ▸ h
          exact hnested.path.2.1
        have hframe : frameOf (s.tree.flow top) ≠ .branch := by
          rw [Ne, frameOf_branch_iff hopen]
          simpa [continuesBranch, hblocks] using hc
        rcases hflow with hf | hf <;>
          simp only [LineKind.ofStatement, haux, hf, outline, hblocks, List.map_cons,
            Outline.stepInBlock] <;>
          cases hframe' : frameOf (s.tree.flow top) <;> simp_all
  · -- what stands before the new node opens no block
    rw [insertInBlock_eq, hbase]
    have hlink : (s.tree.lastFlow (ownerOf s.blocks)).mayPrecede st.flow = false := by
      rw [Flow.mayPrecede_of_not_open h.lastFlow_not_open]
      rcases hflow with hf | hf <;> rw [hf] <;> rfl
    dsimp only
    rw [Misplaced, flow_place_size, flowBefore_place_size (h.path.owner_lt h.sound)]
    rcases hflow with hf | hf <;> rw [hf] at hlink ⊢ <;> exact hlink
  · rw [hw] at hsome
    cases hsome

end

/-- A branch fits where it continues an `if` or `else if`. -/
theorem follows_branch {s : Script} (h : s.Fits) {st : Statement} (hst : st.Proper)
    (hw : s.waiting = none) (hflow : st.flow = .elseIfBlock ∨ st.flow = .elseBlock) :
    s.Follows st (s.insertInBlock st) := by
  cases hc : s.continuesBranch with
  | true => exact follows_branch_of_continues h hst hw hflow hc
  | false => exact follows_branch_of_not_continues h hst hw hflow hc

/-- An `end` fits where a block is open. -/
theorem follows_end {s : Script} (h : s.Fits) {st : Statement} (hst : st.Proper)
    (hw : s.waiting = none) (hflow : st.flow = .blockEnd) :
    s.Follows st (s.insertInBlock st) := by
  have haux : st.isAuxiliary = false := not_auxiliary_of_flow hst (by rw [hflow]; decide)
  have hkind : LineKind.ofStatement st = .endLine := by simp [LineKind.ofStatement, haux, hflow]
  have hbase : s.base st.flow = s.blocks.tail := by rw [hflow]; rfl
  have hopens : s.opens st.flow = false := by rw [hflow]; rfl
  rw [Follows, outline_of_not_waiting hw, hkind]
  cases hblocks : s.blocks with
  | nil =>
      -- there is nothing to end
      refine Or.inr ⟨?_, broken_of_new ?_ h.sound.size_pos (fun w hsome => ?_) ?_⟩
      · simp [outline, hblocks, Outline.stepInBlock]
      · have hnot := h.lastFlow_not_open
        rw [insertInBlock_eq, hbase, hblocks, List.tail_nil]
        rw [hblocks] at hnot
        dsimp only
        rw [Misplaced, flow_place_size, hflow]
        dsimp only
        rw [flowBefore_place_size (show ownerOf [] < s.tree.size from h.sound.size_pos)]
        exact hnot
      · rw [hw] at hsome
        cases hsome
      · rw [hflow]
        decide
  | cons top outer =>
      -- the innermost block is ended
      have hnested : s.tree.Nested (top :: outer) s.waiting := hblocks ▸ h
      refine Or.inl ⟨?_, fits_insertInBlock h hst ?_ ?_ ?_ fun hne => absurd hw hne⟩
      · rw [outline_insertInBlock h.opened, hopens, hbase, hw, hblocks, hflow]
        simp [outline, hblocks, Outline.stepInBlock]
      · rw [hopens, hflow]
        rfl
      · rw [hbase, hblocks, List.tail_cons, hnested.lastFlow_outer, hflow]
        exact hnested.path.2.1
      · rw [hflow]
        simp

/-- While nothing waits, every line is followed. -/
theorem follows_insertInBlock {s : Script} (h : s.Fits) {st : Statement} (hst : st.Proper)
    (hw : s.waiting = none) : s.Follows st (s.insertInBlock st) := by
  cases hflow : st.flow with
  | breakLoop => exact follows_exit h hst hw (Or.inl hflow)
  | continueLoop => exact follows_exit h hst hw (Or.inr hflow)
  | elseIfBlock => exact follows_branch h hst hw (Or.inl hflow)
  | elseBlock => exact follows_branch h hst hw (Or.inr hflow)
  | blockEnd => exact follows_end h hst hw hflow
  | plain | ifBlock | whileLoop | forLoop | foreachLoop | skip | goto | gosub | finish =>
      refine follows_free h hst hw ?_ ?_
      · rw [hflow]
        rfl
      · rw [hflow]
        decide

theorem isSkippable_eq (st : Statement) : isSkippable st = st.flow.isSimple := rfl

section

variable {s : Script} {st : Statement} {w : Nat}

/-- The command of a `skip if` leaves the open blocks as they are. -/
theorem outline_placeSkipped (h : s.Fits) (w : Nat) (st : Statement) :
    ({ s with waiting := none, tree := place s.tree w st } : Script).outline
      = { frames := s.outline.frames } := by
  have hframes : ∀ b ∈ s.blocks, frameOf ((place s.tree w st).flow b)
      = frameOf (s.tree.flow b) := by
    intro b hb
    rw [grows_place.flow_eq (h.path.mem_bounds hb).2.1]
  rw [outline, outline]
  dsimp only
  rw [List.map_congr_left hframes]
  rfl

/-- Above the command of a `skip if` are the `skip if` and the open blocks. -/
theorem ancestors_placeSkipped (h : s.Fits) (hw : s.waiting = some w) (st : Statement) :
    (place s.tree w st).ancestors s.tree.size = w :: s.blocks := by
  obtain ⟨hparent, -, -⟩ := h.waits w hw
  obtain ⟨hlt, hsize⟩ := h.sound.parent_lt hparent
  have hroot : w ≠ root := Nat.ne_of_gt (Nat.zero_lt_of_lt hlt)
  rw [ancestors_of_parent (sound_place h.sound hsize) (by rw [node_place_size]), if_neg hroot,
    grows_place.ancestors_eq hsize, h.path.ancestors_eq h.sound hparent]

/-- A `break` or `continue` behind a `skip if` needs a loop among the open blocks. -/
theorem misplaced_placeSkipped (h : s.Fits) (hw : s.waiting = some w)
    (hexit : st.flow = .breakLoop ∨ st.flow = .continueLoop)
    (hloop : Frame.loop ∉ s.outline.frames) : (place s.tree w st).Misplaced s.tree.size := by
  obtain ⟨hparent, hflow, -⟩ := h.waits w hw
  obtain ⟨-, hsize⟩ := h.sound.parent_lt hparent
  refine misplaced_exit (by rwa [flow_place_size]) ?_
  rw [ancestors_placeSkipped h hw]
  intro b hb
  rcases List.mem_cons.mp hb with rfl | hmem
  · rw [grows_place.flow_eq hsize, hflow]
    rfl
  · exact isLoop_eq_false_of_frames h hloop grows_place b hmem

/-- A simple command fits to the `skip if` that waits, if it may leave a loop there. -/
theorem follows_skipped (h : s.Fits) (hst : st.Proper) (hw : s.waiting = some w)
    (haux : st.isAuxiliary = false) (hsimple : st.flow.isSimple = true) :
    s.Follows st { s with waiting := none, tree := place s.tree w st } := by
  have hnested : s.tree.Nested s.blocks (some w) := hw ▸ h
  rw [Follows, outline_of_waiting hw, outline_placeSkipped h]
  -- a `break` or `continue` has to be in a loop, and all else fits
  by_cases hexit : st.flow = .breakLoop ∨ st.flow = .continueLoop
  · have hkind : LineKind.ofStatement st = .loopExit := by
      rcases hexit with hf | hf <;> simp [LineKind.ofStatement, haux, hf]
    rw [hkind, Outline.stepWaiting]
    by_cases hloop : Frame.loop ∈ s.outline.frames
    · rw [if_pos hloop]
      exact Or.inl ⟨rfl, hnested.addToSkip hst hsimple haux
        fun _ => (loop_mem_frames s).mp hloop⟩
    · rw [if_neg hloop]
      exact Or.inr ⟨rfl, s.tree.size, h.sound.size_pos, by dsimp only; rw [size_place]; omega,
        misplaced_placeSkipped h hw hexit hloop, by simp⟩
  · have hkind : LineKind.ofStatement st = .plain := by
      revert hsimple hexit
      rw [LineKind.ofStatement, haux]
      cases st.flow <;> simp [Flow.isSimple, Flow.opensBlock]
    rw [hkind]
    exact Or.inl ⟨rfl, hnested.addToSkip hst hsimple haux fun hf => absurd hf hexit⟩

/-- A comment passes by while the `skip if` waits. -/
theorem follows_passing (h : s.Fits) (hst : st.Proper) (hw : s.waiting = some w)
    (haux : st.isAuxiliary = true) : s.Follows st (s.insertInBlock st) := by
  have hplain := hst.flow_of_auxiliary haux
  have hkind : LineKind.ofStatement st = .auxiliary := by rw [LineKind.ofStatement, if_pos haux]
  rw [Follows, outline_of_waiting hw, hkind]
  refine Or.inl ⟨?_, fits_insertInBlock h hst ?_ ?_ ?_ fun _ => hplain⟩
  · rw [outline_insertInBlock h.opened, hplain, hw]
    rfl
  · rw [hplain]
    rfl
  · rw [hplain]
    show (s.tree.lastFlow (ownerOf s.blocks)).mayPrecede .plain = true
    rw [Flow.mayPrecede_of_not_open h.lastFlow_not_open]
    rfl
  · rw [hplain]
    simp

/-- A `skip if` that is given up has no command and never will have one. -/
theorem broken_of_waiting (h : s.Fits) (hw : s.waiting = some w) :
    ({ s with waiting := none } : Script).Broken := by
  obtain ⟨hparent, hflow, hchildren⟩ := h.waits w hw
  obtain ⟨hlt, hsize⟩ := h.sound.parent_lt hparent
  refine ⟨w, Nat.zero_lt_of_lt hlt, hsize, ?_, by simp⟩
  rw [Misplaced, hflow]
  dsimp only
  rw [hchildren]
  decide

end

/-- The machine gets stuck on what cannot be skipped. -/
theorem stepWaiting_eq_none {st : Statement} (haux : st.isAuxiliary = false)
    (hsimple : st.flow.isSimple = false) (frames : List Frame) :
    Outline.stepWaiting frames (LineKind.ofStatement st) = none := by
  revert hsimple
  rw [LineKind.ofStatement, haux]
  cases st.flow <;> simp [Flow.isSimple, Flow.opensBlock, Outline.stepWaiting]

/-- The machine follows every line that is read without a problem. -/
theorem insert_simulates {s : Script} (h : s.Fits) {st : Statement} (hst : st.Proper) :
    s.Follows st (s.insert st) := by
  cases hw : s.waiting with
  | none =>
      have hinsert : s.insert st = s.insertInBlock st := by rw [insert, hw]
      rw [hinsert]
      exact follows_insertInBlock h hst hw
  | some w =>
      cases haux : st.isAuxiliary with
      | true =>
          have hinsert : s.insert st = s.insertInBlock st := by
            simp only [insert, hw, haux, if_pos]
          rw [hinsert]
          exact follows_passing h hst hw haux
      | false =>
          cases hsimple : st.flow.isSimple with
          | true =>
              have hinsert : s.insert st = { s with waiting := none, tree := place s.tree w st } := by
                simp [insert, hw, haux, isSkippable_eq, hsimple]
              rw [hinsert]
              exact follows_skipped h hst hw haux hsimple
          | false =>
              -- the `skip if` stays without its command, whatever becomes of the line
              have hinsert : s.insert st = ({ s with waiting := none } : Script).insert st := by
                simp [insert, hw, haux, isSkippable_eq, hsimple]
              have hopened : ({ s with waiting := none } : Script).Opened :=
                ⟨h.sound, h.proper, h.opened.blocks, fun _ hsome => by cases hsome⟩
              rw [Follows, outline_of_waiting hw, stepWaiting_eq_none haux hsimple, hinsert]
              exact Or.inr ⟨rfl, (broken_of_waiting h hw).insert hopened st⟩

end Script

end MissionScript
