import MissionScript.Proofs.Script.Labels

/-!
# MissionScript.Proofs.Lowering.Structured

The structured flow of control, said on the tree of a script alone.

* `Arrives t p rest d` — with the children `rest` of `p` still to come, control arrives at `d`. A body
  that is done goes past the `end` of the construct, back to the loop, or to what follows the
  `skip if`; at the end of the script it goes to the final return.
* `Proceeds t id d` — where control goes from a command that does not send it elsewhere: into the
  block, or to what follows.
* `Transfers t id d` — where a command sends control: a test that fails, a `break` or `continue`, a
  jump to a label.
* `Nested.exists_proceeds`, `Nested.exists_transfers` — in a tree whose blocks are nested, control
  always has somewhere to go.
-/

namespace MissionScript

/-- Where control goes: to the command of a node, or off the script to its final return. -/
inductive Destination
  | command (id : Nat)
  | finalReturn
  deriving DecidableEq, Repr

namespace Flow

/-- Is the command one of the branches of an `if`? -/
def isBranch : Flow → Bool
  | .ifBlock | .elseIfBlock | .elseBlock => true
  | _ => false

/-- Can control go on to what stands below or after the command? -/
def fallsThrough : Flow → Bool
  | .breakLoop | .continueLoop | .goto | .finish => false
  | _ => true

/-- Can the command send control elsewhere? -/
def mayJump : Flow → Bool
  | .plain | .elseBlock | .blockEnd | .finish => false
  | _ => true

theorem isLoop_or_isBranch {f : Flow} (h : f.opensBlock = true) :
    f.isLoop = true ∨ f.isBranch = true := by
  revert h
  cases f <;> decide

/-- Only an `end` follows an `else` or a loop. -/
theorem eq_blockEnd_of_mayPrecede {a f : Flow} (h : a.mayPrecede f = true)
    (hopen : a.opensBlock = true) (hif : a ≠ .ifBlock) (helseIf : a ≠ .elseIfBlock) :
    f = .blockEnd := by
  revert h
  cases f <;> simp [mayPrecede, hopen, hif, helseIf]

end Flow

namespace Tree

/-- The node `e` is the `end` of the construct that `b` belongs to: among the siblings after `b` it
comes first, the other branches apart. -/
def Closes (t : Tree) (b e : Nat) : Prop :=
  ∃ p before branches rest, t.children p = before ++ b :: (branches ++ e :: rest) ∧
    t.flow e = .blockEnd ∧ ∀ x ∈ branches, t.flow x = .elseIfBlock ∨ t.flow x = .elseBlock

/-- With the children `rest` of `p` still to come, control arrives at a command. -/
inductive Arrives (t : Tree) : Nat → List Nat → Destination → Prop
  /-- The next child is executed. -/
  | here {p id rest} : (t.statement id).isExecutable = true → Arrives t p (id :: rest) (.command id)
  /-- Comments and blank lines are passed by. -/
  | pass {p id rest d} : (t.statement id).isAuxiliary = true → Arrives t p rest d →
      Arrives t p (id :: rest) d
  /-- After the last line there is the final return. -/
  | offScript : Arrives t root [] .finalReturn
  /-- A branch that is done goes past the `end` of the construct. -/
  | branchDone {b e p d} : (t.flow b).isBranch = true → t.Closes b e →
      (t.node e).parent = some p → Arrives t p (t.later e) d → Arrives t b [] d
  /-- A loop whose body is done runs again. -/
  | loopDone {l} : l ≠ root → (t.flow l).isLoop = true → Arrives t l [] (.command l)
  /-- The command of a `skip if` is followed by what follows the `skip if`. -/
  | skipDone {s p d} : t.flow s = .skip → (t.node s).parent = some p →
      Arrives t p (t.later s) d → Arrives t s [] d

/-- After a node and everything below it, control arrives at a command. -/
def Continues (t : Tree) (id : Nat) (d : Destination) : Prop :=
  ∃ p, (t.node id).parent = some p ∧ t.Arrives p (t.later id) d

/-- Where control goes from a command that does not send it elsewhere. -/
inductive Proceeds (t : Tree) (id : Nat) (d : Destination) : Prop
  /-- A block that is entered begins with the first command of its body. -/
  | enter : (t.flow id).opensBlock = true ∨ t.flow id = .skip →
      t.Arrives id (t.children id) d → Proceeds t id d
  | next : t.flow id = .plain ∨ t.flow id = .gosub → t.Continues id d → Proceeds t id d

/-- Where a command sends control, when it does. -/
inductive Transfers (t : Tree) (id : Nat) : Destination → Prop
  /-- A test that fails goes to the next test, -/
  | nextTest {b} : t.flow id = .ifBlock ∨ t.flow id = .elseIfBlock → t.nextSibling? id = some b →
      t.flow b = .elseIfBlock → Transfers t id (.command b)
  /-- into the `else`, -/
  | otherwise {b d} : t.flow id = .ifBlock ∨ t.flow id = .elseIfBlock → t.nextSibling? id = some b →
      t.flow b = .elseBlock → t.Arrives b (t.children b) d → Transfers t id d
  /-- or past the `end`. -/
  | pastEnd {e d} : t.flow id = .ifBlock ∨ t.flow id = .elseIfBlock → t.nextSibling? id = some e →
      t.flow e = .blockEnd → t.Continues e d → Transfers t id d
  /-- A loop that is not entered goes past its `end`. -/
  | pastLoop {e d} : (t.flow id).isLoop = true → t.Closes id e → t.Continues e d →
      Transfers t id d
  /-- A `skip if` that skips goes to what follows the skipped command. -/
  | pastSkip {c d} : t.flow id = .skip → t.children id = [c] → t.Continues c d →
      Transfers t id d
  /-- A `break` goes past the `end` of the innermost loop, -/
  | leave {l e d} : t.flow id = .breakLoop → t.enclosingLoop? id = some l → t.Closes l e →
      t.Continues e d → Transfers t id d
  /-- and a `continue` to the loop itself. -/
  | again {l} : t.flow id = .continueLoop → t.enclosingLoop? id = some l →
      Transfers t id (.command l)
  /-- A jump goes to the label that is declared under its name. -/
  | label {m} : t.flow id = .goto ∨ t.flow id = .gosub → 0 < m → m < t.size →
      (t.statement m).isLabel = true → t.labelName? m = t.labelName? id →
      Transfers t id (.command m)

/-- The root, blocks and `skip if`s own their bodies. -/
def Owns (t : Tree) (p : Nat) : Prop :=
  p = root ∨ 0 < p ∧ ((t.flow p).opensBlock = true ∨ t.flow p = .skip)

/-! ### Ends of constructs -/

/-- The `end` of a construct stands beside its branches. -/
theorem Closes.parent_eq {t : Tree} {b e : Nat} (h : t.Closes b e) :
    t.flow e = .blockEnd ∧ ∃ p, (t.node b).parent = some p ∧ (t.node e).parent = some p := by
  obtain ⟨p, before, branches, rest, hc, he, -⟩ := h
  have hc' : t.children p = (before ++ b :: branches) ++ e :: rest := by
    rw [hc, List.append_assoc, List.cons_append]
  exact ⟨he, p, parent_of_children_eq hc, parent_of_children_eq hc'⟩

namespace Nested

variable {t : Tree} {blocks : List Nat} {waiting : Option Nat}

/-- When nothing is open, every block has its end. -/
theorem exists_closes (h : t.Nested [] waiting) {id : Nat} (hpos : 0 < id)
    (hopen : (t.flow id).opensBlock = true) : ∃ e, t.Closes id e := by
  have hlt : id < t.size := lt_size_of_flow fun hplain => by
    rw [hplain] at hopen
    cases hopen
  obtain ⟨p, before, y, after, hc⟩ := h.exists_next hpos hlt hopen
  obtain ⟨branches, e, rest, heq, he, hbranches⟩ := h.exists_end hc hopen
  exact ⟨e, p, before, branches, rest, heq ▸ hc, he, hbranches⟩

/-- An `else` and a loop are followed by their `end` at once. -/
theorem children_of_closes (h : t.Nested blocks waiting) {b e : Nat} (hb : t.Closes b e)
    (hopen : (t.flow b).opensBlock = true) (hif : t.flow b ≠ .ifBlock)
    (helseIf : t.flow b ≠ .elseIfBlock) :
    ∃ p before rest, t.children p = before ++ b :: e :: rest := by
  obtain ⟨p, before, branches, rest, hc, -, hbranches⟩ := hb
  cases branches with
  | nil => exact ⟨p, before, rest, hc⟩
  | cons c branches =>
      have hend := Flow.eq_blockEnd_of_mayPrecede (h.mayPrecede_of_children hc) hopen hif helseIf
      have hbranch := hbranches c List.mem_cons_self
      rw [hend] at hbranch
      simp at hbranch

/-- What follows a node that is not open does not continue a block. -/
theorem continuesBlock_later (h : t.Nested blocks waiting) {x p : Nat}
    (hp : (t.node x).parent = some p) (hx : (t.flow x).opensBlock = false) :
    ∀ y ∈ (t.later x).head?, (t.flow y).continuesBlock = false := by
  intro y hy
  obtain ⟨before, hc⟩ := exists_children_eq (h.sound.mem_children_iff.mpr hp)
  cases hlater : t.later x with
  | nil =>
      rw [hlater] at hy
      cases hy
  | cons z rest =>
      rw [hlater] at hy hc
      cases hy
      have hlink := h.mayPrecede_of_children hc
      rw [Flow.mayPrecede_of_not_open hx] at hlink
      simpa using hlink

theorem continuesBlock_first (h : t.Nested blocks waiting) (p : Nat) :
    ∀ y ∈ (t.children p).head?, (t.flow y).continuesBlock = false := by
  intro y hy
  cases hc : t.children p with
  | nil =>
      rw [hc] at hy
      cases hy
  | cons z rest =>
      rw [hc] at hy
      cases hy
      exact h.mayPrecede_first hc

/-! ### Control always has somewhere to go -/

/-- Among children that do not begin in the middle of a construct, control arrives somewhere once it
does when none of them is left. -/
theorem exists_arrives_of_nil (h : t.Nested blocks waiting) {p : Nat} {before rest : List Nat}
    (hc : t.children p = before ++ rest)
    (hfirst : ∀ y ∈ rest.head?, (t.flow y).continuesBlock = false)
    (hnil : ∃ d, t.Arrives p [] d) : ∃ d, t.Arrives p rest d := by
  induction rest generalizing before with
  | nil => exact hnil
  | cons y rest ih =>
      have hy := mem_children.mp (show y ∈ t.children p by rw [hc]; simp)
      have hproper := h.proper y (by omega) hy.1
      rcases hproper.classified with haux | hvirtual | hexec
      · have hflow : t.flow y = .plain := hproper.flow_of_auxiliary haux
        have hlater : t.later y = rest := later_of_children hc
        have hc' : t.children p = (before ++ [y]) ++ rest := by
          rw [hc, List.append_assoc, List.singleton_append]
        obtain ⟨d, hd⟩ := ih hc'
          (hlater ▸ h.continuesBlock_later hy.2.2 (by rw [hflow]; rfl))
        exact ⟨d, .pass haux hd⟩
      · have hcontinues := hfirst y rfl
        simp only [Statement.isVirtual, Bool.and_eq_true, Bool.or_eq_true, beq_iff_eq] at hvirtual
        rcases hvirtual.2 with hf | hf <;>
          rw [show t.flow y = _ from hf] at hcontinues <;> cases hcontinues
      · exact ⟨_, .here hexec⟩

theorem owns_of_parent (h : t.Nested blocks waiting) {x p : Nat}
    (hp : (t.node x).parent = some p) : t.Owns p := by
  rcases Nat.eq_zero_or_pos p with hroot | hpos
  · exact Or.inl hroot
  · rcases h.parents x p hp with hroot | hflow
    · exact Or.inl hroot
    · exact Or.inr ⟨hpos, hflow⟩

/-- When a body is done, control goes on outside of it. -/
theorem exists_arrives_nil (h : t.Nested [] waiting) {p : Nat} (hp : t.Owns p) :
    ∃ d, t.Arrives p [] d := by
  induction p using Nat.strongRecOn with
  | ind p ih =>
      -- after a node further out, control goes on there
      have outward : ∀ x q, (t.node x).parent = some q → q < p → (t.flow x).opensBlock = false →
          ∃ d, t.Arrives q (t.later x) d := by
        intro x q hq hlt hx
        obtain ⟨before, hc⟩ := exists_children_eq (h.sound.mem_children_iff.mpr hq)
        have hc' : t.children q = (before ++ [x]) ++ t.later x := by
          rw [List.append_assoc, List.singleton_append]
          exact hc
        exact h.exists_arrives_of_nil hc' (h.continuesBlock_later hq hx)
          (ih q hlt (h.owns_of_parent hq))
      rcases hp with rfl | ⟨hpos, hopen | hskip⟩
      · exact ⟨_, .offScript⟩
      · rcases Flow.isLoop_or_isBranch hopen with hloop | hbranch
        · exact ⟨_, .loopDone (Nat.ne_of_gt hpos) hloop⟩
        · obtain ⟨e, he⟩ := h.exists_closes hpos hopen
          obtain ⟨hend, q, hq, heq⟩ := he.parent_eq
          obtain ⟨d, hd⟩ := outward e q heq (h.sound.parent_lt hq).1 (by rw [hend]; rfl)
          exact ⟨d, .branchDone hbranch he heq hd⟩
      · obtain ⟨q, hq, hlt⟩ := h.sound.exists_parent p hpos
          (lt_size_of_flow (by rw [hskip]; decide))
        obtain ⟨d, hd⟩ := outward p q hq hlt (by rw [hskip]; rfl)
        exact ⟨d, .skipDone hskip hq hd⟩

/-- After a node that is not open, control goes on. -/
theorem exists_continues (h : t.Nested [] waiting) {id p : Nat}
    (hp : (t.node id).parent = some p) (hopen : (t.flow id).opensBlock = false) :
    ∃ d, t.Continues id d := by
  obtain ⟨before, hc⟩ := exists_children_eq (h.sound.mem_children_iff.mpr hp)
  have hc' : t.children p = (before ++ [id]) ++ t.later id := by
    rw [List.append_assoc, List.singleton_append]
    exact hc
  obtain ⟨d, hd⟩ := h.exists_arrives_of_nil hc' (h.continuesBlock_later hp hopen)
    (h.exists_arrives_nil (h.owns_of_parent hp))
  exact ⟨d, p, hp, hd⟩

/-- A body begins somewhere, if only with what follows it. -/
theorem exists_arrives_children (h : t.Nested [] waiting) {p : Nat} (hp : t.Owns p) :
    ∃ d, t.Arrives p (t.children p) d :=
  h.exists_arrives_of_nil (List.nil_append _).symm (h.continuesBlock_first p)
    (h.exists_arrives_nil hp)

/-- A block goes past its `end`. -/
theorem exists_past_end (h : t.Nested [] waiting) {id : Nat} (hpos : 0 < id)
    (hopen : (t.flow id).opensBlock = true) : ∃ e d, t.Closes id e ∧ t.Continues e d := by
  obtain ⟨e, he⟩ := h.exists_closes hpos hopen
  obtain ⟨hend, p, -, hp⟩ := he.parent_eq
  obtain ⟨d, hd⟩ := h.exists_continues hp (by rw [hend]; rfl)
  exact ⟨e, d, he, hd⟩

/-- Control goes on from every command that does not always send it elsewhere. -/
theorem exists_proceeds (h : t.Nested [] waiting) {id : Nat} (hpos : 0 < id) (hlt : id < t.size)
    (hflow : (t.flow id).fallsThrough = true) (hend : t.flow id ≠ .blockEnd) :
    ∃ d, t.Proceeds id d := by
  obtain ⟨p, hp, -⟩ := h.sound.exists_parent id hpos hlt
  have enter : (t.flow id).opensBlock = true ∨ t.flow id = .skip → ∃ d, t.Proceeds id d := by
    intro hopen
    obtain ⟨d, hd⟩ := h.exists_arrives_children (Or.inr ⟨hpos, hopen⟩)
    exact ⟨d, .enter hopen hd⟩
  have next : t.flow id = .plain ∨ t.flow id = .gosub → ∃ d, t.Proceeds id d := by
    intro hnext
    obtain ⟨d, hd⟩ := h.exists_continues hp (by rcases hnext with hf | hf <;> rw [hf] <;> rfl)
    exact ⟨d, .next hnext hd⟩
  cases hf : t.flow id with
  | plain => exact next (Or.inl hf)
  | gosub => exact next (Or.inr hf)
  | ifBlock | elseIfBlock | elseBlock | whileLoop | forLoop | foreachLoop =>
      exact enter (Or.inl (by rw [hf]; rfl))
  | skip => exact enter (Or.inr hf)
  | blockEnd => exact absurd hf hend
  | breakLoop | continueLoop | goto | finish =>
      rw [hf] at hflow
      cases hflow

/-- A test that fails has somewhere to go. -/
theorem exists_transfers_test (h : t.Nested [] waiting) {id : Nat} (hpos : 0 < id)
    (hlt : id < t.size) (hflow : t.flow id = .ifBlock ∨ t.flow id = .elseIfBlock) :
    ∃ d, t.Transfers id d := by
  have hopen : (t.flow id).opensBlock = true := by rcases hflow with hf | hf <;> rw [hf] <;> rfl
  obtain ⟨p, before, y, after, hc⟩ := h.exists_next hpos hlt hopen
  have hnext : t.nextSibling? id = some y := nextSibling?_of_children hc
  have hc' : t.children p = (before ++ [id]) ++ y :: after := by
    rw [hc, List.append_assoc, List.singleton_append]
  have hy := mem_children.mp (show y ∈ t.children p by rw [hc]; simp)
  have hlink := h.mayPrecede_of_children hc
  cases hf : t.flow y with
  | elseIfBlock => exact ⟨_, .nextTest hflow hnext hf⟩
  | elseBlock =>
      obtain ⟨d, hd⟩ := h.exists_arrives_children (p := y)
        (Or.inr ⟨by omega, Or.inl (by rw [hf]; rfl)⟩)
      exact ⟨d, .otherwise hflow hnext hf hd⟩
  | blockEnd =>
      obtain ⟨d, hd⟩ := h.exists_continues (parent_of_children_eq hc') (by rw [hf]; rfl)
      exact ⟨d, .pastEnd hflow hnext hf hd⟩
  | plain | ifBlock | whileLoop | forLoop | foreachLoop | skip | breakLoop | continueLoop
  | goto | gosub | finish =>
      simp [hf, Flow.mayPrecede, hopen] at hlink

/-- Every command that sends control elsewhere has somewhere to send it, provided that the labels are
declared. -/
theorem exists_transfers (h : t.Nested [] none) {id : Nat} (hpos : 0 < id) (hlt : id < t.size)
    (hflow : (t.flow id).mayJump = true)
    (hlabel : t.flow id = .goto ∨ t.flow id = .gosub → ∃ m, 0 < m ∧ m < t.size ∧
      (t.statement m).isLabel = true ∧ t.labelName? m = t.labelName? id) :
    ∃ d, t.Transfers id d := by
  cases hf : t.flow id with
  | ifBlock => exact h.exists_transfers_test hpos hlt (Or.inl hf)
  | elseIfBlock => exact h.exists_transfers_test hpos hlt (Or.inr hf)
  | whileLoop | forLoop | foreachLoop =>
      obtain ⟨e, d, he, hd⟩ := h.exists_past_end hpos (by rw [hf]; rfl)
      exact ⟨d, .pastLoop (by rw [hf]; rfl) he hd⟩
  | skip =>
      obtain ⟨c, hc, -⟩ := h.skips id hpos hlt hf (by simp)
      obtain ⟨d, hd⟩ := h.exists_arrives_nil (Or.inr ⟨hpos, Or.inr hf⟩)
      have hc' : t.children id = [] ++ c :: [] := hc
      refine ⟨d, .pastSkip hf hc ⟨id, parent_of_children_eq hc', ?_⟩⟩
      rw [later_of_children hc']
      exact hd
  | breakLoop =>
      obtain ⟨l, hl⟩ := Option.isSome_iff_exists.mp (h.exits id hpos hlt (Or.inl hf))
      obtain ⟨hlpos, -, hloop⟩ := of_enclosingLoop? hl
      obtain ⟨e, d, he, hd⟩ := h.exists_past_end hlpos (Flow.opensBlock_of_isLoop hloop)
      exact ⟨d, .leave hf hl he hd⟩
  | continueLoop =>
      obtain ⟨l, hl⟩ := Option.isSome_iff_exists.mp (h.exits id hpos hlt (Or.inr hf))
      exact ⟨_, .again hf hl⟩
  | goto | gosub =>
      obtain ⟨m, hmpos, hmlt, hm, hname⟩ := hlabel (by rw [hf]; simp)
      exact ⟨_, .label (by rw [hf]; simp) hmpos hmlt hm hname⟩
  | plain | elseBlock | blockEnd | finish =>
      rw [hf] at hflow
      cases hflow

end Nested

end Tree

end MissionScript
