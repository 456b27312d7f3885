import MissionScript.Proofs.Lowering.Insertion
import MissionScript.Proofs.Script.Insertion

/-!
# MissionScript.Proofs.Lowering.Landing

The commands of two trees of which one has an auxiliary node more.

A jump may lead to the auxiliary node in one tree where it leads to the next node in the other. What is
executed from there on is the same, and the position where a jump lands depends on nothing else
(`landing?_eq`).

* `resumesAt?` — the nodes from which control goes on when a node sends it elsewhere. A target is the
  first of them (`Lowered.onward_target`), and they correspond in the two trees
  (`Inserted.resumesAt?_eq`).
* `Lowered.landing_eq` — so the jumps of the two trees land at the same positions,
* `Matches` — and the commands differ in their lines only (`Steps.matches_emit`).

This is the last part of what an auxiliary line does to a compiled script. That the trees correspond
step by step is known (`MissionScript.Proofs.Lowering.Insertion`); here the two are written down.
The positions of commands count executed nodes only, so an auxiliary node shifts none of them, and
the lines are all that is left of it.
-/

namespace MissionScript

namespace Tree

/-! ### Where jumps land

A jump lands at the position that is left of the number of commands when those from the target on
are taken away. So the target itself does not matter, only what is executed after it, and this is
the same whether a jump leads to the auxiliary node or to the one behind it. -/

/-- Where a jump lands depends on what is executed from its target on. -/
theorem landing?_eq {t : Tree} (hs : t.Sound) {y : Nat} (hpos : 0 < y) (hlt : y < t.size) :
    t.layout.landing? y = (some (t.executables.length
      - ((t.onward y).filter fun id => (t.statement id).isExecutable).length)).filter
        (· < t.executables.length) := by
  obtain ⟨before, hbefore⟩ := exists_preorder_eq hs hpos hlt
  have honward : t.preorder = before ++ t.onward y := hbefore
  have hnodup := nodup_preorder t
  have hlength : t.executables.length
      = (before.filter fun id => (t.statement id).isExecutable).length
        + ((t.onward y).filter fun id => (t.statement id).isExecutable).length := by
    rw [executables, honward, List.filter_append, List.length_append]
  rw [hlength, Nat.add_sub_cancel, ← hlength, Layout.landing?, layout]
  dsimp only
  rw [honward, onward_eq_cons] at hnodup ⊢
  rw [lookup_positionsFrom t, Nat.zero_add]
  intro hmem
  exact (List.nodup_append.mp hnodup).2.2 y hmem y List.mem_cons_self rfl

/-- The nodes from which control goes on when a node sends it elsewhere. -/
def resumesAt? (t : Tree) (id : Nat) : Option (List Nat) :=
  match t.flow id with
  | .ifBlock | .elseIfBlock | .whileLoop | .forLoop | .foreachLoop | .skip => some (t.after id)
  | .breakLoop => (t.enclosingLoop? id).map t.after
  | .continueLoop => (t.enclosingLoop? id).map t.onward
  | .goto | .gosub => (t.symbols.target? id).map t.onward
  | _ => none

/-- The target of a node of the source is the first of the nodes from which control goes on. -/
theorem Lowered.onward_target {t t₁ t₂ t₃ : Tree} {r : Nat} (h : Lowered t t₁ t₂ t₃ r) {id : Nat}
    (hpos : 0 < id) (hlt : id < t₁.size) :
    (t₃.node id).target.map t₂.onward = t₂.resumesAt? id := by
  have hmem : id ∈ t₂.preorder :=
    (mem_preorder_iff h.prepared.sound).mpr ⟨hpos, Nat.lt_of_lt_of_le hlt h.prepared.size_le⟩
  have hnone : (t₂.node id).target = none := by
    rw [h.prepared.jumped.node_eq id hlt]
    exact h.prepared.bound.target_eq id hlt
  have hflow := h.prepared.flow_eq hlt
  have hloop := h.prepared.jumped.grows.enclosingLoop?_eq hlt
  rw [h.target_eq id hmem, hnone, resumesAt?, hflow, hloop]
  cases hf : t₁.flow id with
  | plain =>
      -- neither a line without jumps nor a commented command has a target
      have htransfer : t₂.transfer? id = none := by
        unfold transfer?
        rw [hflow, hf]
        split <;> rfl
      rw [htransfer]
      rfl
  | ifBlock | elseIfBlock =>
      obtain ⟨p, before, y, rest, hc⟩ :=
        h.prepared.nested.exists_next hpos hlt (by rw [hf]; rfl)
      obtain ⟨htransfer, honward⟩ := h.prepared.transfer?_branch hc (by rw [hf]; simp)
      rw [htransfer, ← honward]
      rfl
  | whileLoop | forLoop | foreachLoop | skip =>
      obtain ⟨y, htransfer, honward, -⟩ := h.prepared.transfer?_block hpos hlt (by rw [hf]; decide)
      rw [htransfer, ← honward]
      rfl
  | breakLoop =>
      obtain ⟨l, y, hl, htransfer, honward, -⟩ := h.prepared.transfer?_break hpos hlt hf
      rw [htransfer, hl, Option.map_some, ← honward]
      rfl
  | continueLoop =>
      obtain ⟨l, hl, htransfer⟩ := h.prepared.transfer?_continue hpos hlt hf
      rw [htransfer, hl]
      rfl
  | goto | gosub =>
      rw [h.prepared.transfer?_label hpos hlt (by rw [hf]; simp), h.prepared.jumped.symbols_eq]
      rfl
  | elseBlock | blockEnd | finish =>
      rw [h.prepared.transfer?_of_flow hpos hlt (by rw [hf]; decide), hf]
      rfl

namespace Inserted

variable {n : Nat} {t t' : Tree}

/-- From where a node sends control, the nodes are the same. -/
theorem resumesAt?_eq (h : Inserted n t t') (hs : t.Sound) (hs' : t'.Sound)
    (hsymbols : t'.symbols = t.symbols.renumber n) {id : Nat} (hpos : 0 < id) (hlt : id < t.size)
    (hlabel : t.flow id = .goto ∨ t.flow id = .gosub →
      ∀ m, t.symbols.target? id = some m → 0 < m ∧ m < t.size) :
    (t'.resumesAt? (renumber n id)).map (·.filter (· ≠ n))
      = (t.resumesAt? id).map (·.map (renumber n)) := by
  have hloop : ∀ l, t.enclosingLoop? id = some l → 0 < l ∧ l < t.size := by
    intro l hl
    have := of_enclosingLoop? hl
    omega
  rw [resumesAt?, resumesAt?, h.flow_renumber, h.enclosingLoop?_eq, hsymbols,
    SymbolTable.target?_renumber]
  cases hf : t.flow id with
  | ifBlock | elseIfBlock | whileLoop | forLoop | foreachLoop | skip =>
      exact congrArg some (h.after hs hs' hpos hlt)
  | breakLoop =>
      cases hl : t.enclosingLoop? id with
      | none => rfl
      | some l => exact congrArg some (h.after hs hs' (hloop l hl).1 (hloop l hl).2)
  | continueLoop =>
      cases hl : t.enclosingLoop? id with
      | none => rfl
      | some l => exact congrArg some (h.onward hs hs' (hloop l hl).1 (hloop l hl).2)
  | goto | gosub =>
      cases hm : t.symbols.target? id with
      | none => rfl
      | some m =>
          obtain ⟨hmpos, hmlt⟩ := hlabel (by rw [hf]; simp) m hm
          exact congrArg some (h.onward hs hs' hmpos hmlt)
  | plain | elseBlock | blockEnd | finish => rfl

/-- Jumps to nodes from which on the same is executed land at the same position. -/
theorem landing?_of_spaced (h : Inserted n t t') (hs : t.Sound) (hs' : t'.Sound) {y y' : Nat}
    (hy : 0 < y ∧ y < t.size) (hy' : 0 < y' ∧ y' < t'.size)
    (hspaced : Spaced n (t.onward y) (t'.onward y')) :
    t'.layout.landing? y' = t.layout.landing? y := by
  rw [landing?_eq hs hy.1 hy.2, landing?_eq hs' hy'.1 hy'.2, h.executables_eq, List.length_map,
    hspaced.filter_eq h.isExecutable_renumber h.isExecutable_self, List.length_map]

end Inserted

/-- The layout does not depend on targets and indices. -/
theorem SameShape.layout_eq {t t' : Tree} (h : t.SameShape t') : t'.layout = t.layout :=
  h.toSameStructure.layout_eq fun id => congrArg Statement.isExecutable (h.statement_eq id)

namespace Lowered

variable {n : Nat} {t t₁ t₂ t₃ t' t₁' t₂' t₃' : Tree} {r r' : Nat}

/-- A jump to a label leads to a node of the tree. -/
theorem bounds_of_label (h : Lowered t t₁ t₂ t₃ r) {id : Nat} (hpos : 0 < id) (hlt : id < t₁.size)
    (hflow : t₂.flow id = .goto ∨ t₂.flow id = .gosub) {m : Nat}
    (hm : t₂.symbols.target? id = some m) : 0 < m ∧ m < t₂.size := by
  rw [h.prepared.flow_eq hlt] at hflow
  have hjump := (h.prepared.nested.proper id hpos hlt).isLabelJump_of_flow hflow
  obtain ⟨m', hmpos, hmlt, -, hm'⟩ := h.prepared.bound.label_eq id hpos hlt hjump
  rw [h.prepared.jumped.symbols_eq, hm'] at hm
  cases hm
  exact ⟨hmpos, Nat.lt_of_lt_of_le hmlt h.prepared.size_le⟩

/-- Nodes of the source, and the returns, land at the same positions. -/
theorem landing_eq_of_lt (h : Lowered t t₁ t₂ t₃ r) (h' : Lowered t' t₁' t₂' t₃' r')
    (h₁ : Inserted n t₁ t₁') (h₂ : Inserted n t₂ t₂')
    (hsymbols : t₂'.symbols = t₂.symbols.renumber n) {id : Nat} (hid : id ∈ t₂.preorder)
    (hid' : renumber n id ∈ t₂'.preorder) (hold : id < t₁.size) :
    (t₃'.node (renumber n id)).target.bind t₂'.layout.landing?
      = (t₃.node id).target.bind t₂.layout.landing? := by
  have hs := h.prepared.sound
  have hs' := h'.prepared.sound
  obtain ⟨hpos, hlt⟩ := (mem_preorder_iff hs).mp hid
  obtain ⟨hpos', hold'⟩ := h₁.bounds hpos hold
  have hresumes := h₂.resumesAt?_eq hs hs' hsymbols hpos hlt
    fun hflow m hm => h.bounds_of_label hpos hold hflow hm
  rw [← h.onward_target hpos hold, ← h'.onward_target hpos' hold'] at hresumes
  cases hy : (t₃.node id).target with
  | none =>
      cases hy' : (t₃'.node (renumber n id)).target with
      | none => rfl
      | some y' =>
          rw [hy, hy'] at hresumes
          cases hresumes
  | some y =>
      cases hy' : (t₃'.node (renumber n id)).target with
      | none =>
          rw [hy, hy'] at hresumes
          cases hresumes
      | some y' =>
          rw [hy, hy'] at hresumes
          obtain ⟨hypos, hylt, -⟩ := h.leads_of_target hid hy
          obtain ⟨hypos', hylt', -⟩ := h'.leads_of_target hid' hy'
          exact h₂.landing?_of_spaced hs hs' ⟨hypos, hylt⟩ ⟨hypos', hylt'⟩
            (Option.some.inj hresumes)

/-- Hidden jumps land at the same positions: their targets correspond. -/
theorem landing_eq_of_le (h : Lowered t t₁ t₂ t₃ r) (h' : Lowered t' t₁' t₂' t₃' r')
    (h₁ : Inserted n t₁ t₁') (h₂ : Inserted n t₂ t₂') {id : Nat} (hid : id ∈ t₂.preorder)
    (hid' : renumber n id ∈ t₂'.preorder) (hadded : t₁.size ≤ id) :
    (t₃'.node (renumber n id)).target.bind t₂'.layout.landing?
      = (t₃.node id).target.bind t₂.layout.landing? := by
  have hs := h.prepared.sound
  have hs' := h'.prepared.sound
  have hlt := ((mem_preorder_iff hs).mp hid).2
  have hlt' := ((mem_preorder_iff hs').mp hid').2
  have hadded' : t₁'.size ≤ renumber n id := by
    rw [h₁.size_eq, ← Nat.not_lt, renumber_lt_succ_iff h₁.le_size, Nat.not_lt]
    exact hadded
  have htarget : (t₃'.node (renumber n id)).target = (t₃.node id).target.map (renumber n) := by
    rw [h.target_eq id hid, h'.target_eq _ hid', h.prepared.transfer?_added hadded hlt,
      h'.prepared.transfer?_added hadded' hlt', h₂.node_eq]
    rfl
  rw [htarget]
  cases hy : (t₃.node id).target with
  | none => rfl
  | some y =>
      obtain ⟨hypos, hylt, -⟩ := h.leads_of_target hid hy
      exact h₂.landing?_of_spaced hs hs' ⟨hypos, hylt⟩ (h₂.bounds hypos hylt)
        (h₂.onward hs hs' hypos hylt)

/-- The jumps of the two trees land at the same positions. -/
theorem landing_eq (h : Lowered t t₁ t₂ t₃ r) (h' : Lowered t' t₁' t₂' t₃' r')
    (h₁ : Inserted n t₁ t₁') (h₂ : Inserted n t₂ t₂')
    (hsymbols : t₂'.symbols = t₂.symbols.renumber n) {id : Nat} (hid : id ∈ t₂.preorder) :
    (t₃'.node (renumber n id)).target.bind t₃'.layout.landing?
      = (t₃.node id).target.bind t₃.layout.landing? := by
  obtain ⟨hpos, hlt⟩ := (mem_preorder_iff h.prepared.sound).mp hid
  have hid' : renumber n id ∈ t₂'.preorder :=
    (mem_preorder_iff h'.prepared.sound).mpr (h₂.bounds hpos hlt)
  rw [h.shape.layout_eq, h'.shape.layout_eq]
  by_cases hold : id < t₁.size
  · exact landing_eq_of_lt h h' h₁ h₂ hsymbols hid hid' hold
  · exact landing_eq_of_le h h' h₁ h₂ hid hid' (Nat.le_of_not_lt hold)

end Lowered

end Tree

/-! ### Commands

The two trees are written down side by side. One has a node more in its order, which writes nothing
(`Spaced`), so the induction is on how the two orders correspond. -/

/-- The command once another line has taken the number `n`. -/
def Command.renumber (n : Nat) (c : Command) : Command :=
  { c with line := MissionScript.renumber n c.line }

/-- The variables are the same, and the commands are so but for their lines. -/
structure Code.Matches (n : Nat) (code code' : Code) : Prop where
  vars_eq : code'.vars = code.vars
  commands_eq : code'.commands = code.commands.map (Command.renumber n)

namespace Tree

section

variable {n : Nat} {t t' : Tree} {l l' : Layout} {code code' : Code}

/-- The line of a statement is no part of its parameters. -/
theorem encodeStatement_withLine (jump : Option Nat) (vars : List String) (s : Statement)
    (line : Nat) (kind : CommandKind) :
    encodeStatement jump vars (s.withLine line) kind = encodeStatement jump vars s kind := by
  cases kind <;> rfl

/-- Nodes that correspond add commands that match. -/
theorem matches_emitNode (h : code.Matches n code') {id : Nat}
    (hstatement : t'.statement (renumber n id)
      = (t.statement id).withLine (renumber n (t.statement id).line))
    (hjump : (t'.node (renumber n id)).target.bind l'.landing?
      = (t.node id).target.bind l.landing?) (position : Nat) :
    (t.emitNode l code (id, position)).Matches n
      (t'.emitNode l' code' (renumber n id, position)) := by
  unfold emitNode addEntry
  dsimp only
  rw [hstatement, hjump, Statement.command_withLine]
  cases (t.statement id).command with
  | none => exact h
  | some d =>
      dsimp only
      rw [Statement.isExecutable_withLine, Statement.isAuxiliary_withLine,
        encodeStatement_withLine, h.vars_eq]
      split
      · refine ⟨rfl, ?_⟩
        simp only [Code.push, h.commands_eq, List.map_append, List.map_cons, List.map_nil]
        rfl
      · split
        · exact ⟨h.vars_eq, h.commands_eq⟩
        · exact h

/-- What is not executed adds no command. -/
theorem matches_emitNode_self (h : code.Matches n code')
    (hexec : (t'.statement n).isExecutable = false) (position : Nat) :
    code.Matches n (t'.emitNode l' code' (n, position)) := by
  unfold emitNode addEntry
  dsimp only
  cases (t'.statement n).command with
  | none => exact h
  | some d =>
      dsimp only
      rw [hexec, if_neg Bool.false_ne_true]
      split
      · exact ⟨h.vars_eq, h.commands_eq⟩
      · exact h

/-- Nodes that correspond one by one, with one more in the second tree that is not executed, add
commands that match. -/
theorem matches_foldl {ids ids' : List Nat} (hids : Spaced n ids ids')
    (hstatement : ∀ id, t'.statement (renumber n id)
      = (t.statement id).withLine (renumber n (t.statement id).line))
    (hexec : (t'.statement n).isExecutable = false)
    (hjump : ∀ id ∈ ids, (t'.node (renumber n id)).target.bind l'.landing?
      = (t.node id).target.bind l.landing?) (h : code.Matches n code') (start : Nat) :
    ((t.positionsFrom start ids).foldl (t.emitNode l) code).Matches n
      ((t'.positionsFrom start ids').foldl (t'.emitNode l') code') := by
  induction ids' generalizing ids code code' start with
  | nil =>
      rw [hids.eq_nil]
      exact h
  | cons x ids' ih =>
      rw [positionsFrom, List.foldl_cons]
      rcases hids.cases_cons with ⟨rfl, htail⟩ | ⟨id, rest, rfl, rfl, htail⟩
      · rw [hexec, if_neg Bool.false_ne_true]
        exact ih htail hjump (matches_emitNode_self h hexec start) start
      · rw [positionsFrom, List.foldl_cons, hstatement id, Statement.isExecutable_withLine]
        exact ih htail (fun k hk => hjump k (List.mem_cons_of_mem _ hk))
          (matches_emitNode h (hstatement id) (hjump id List.mem_cons_self) start) _

end

/-- The compiled scripts of the two trees match. -/
theorem Lowered.matches_emit {n : Nat} {t t₁ t₂ t₃ t' t₁' t₂' t₃' : Tree} {r r' : Nat}
    (h : Lowered t t₁ t₂ t₃ r) (h' : Lowered t' t₁' t₂' t₃' r') (h₁ : Inserted n t₁ t₁')
    (h₂ : Inserted n t₂ t₂') (hsymbols : t₂'.symbols = t₂.symbols.renumber n) :
    (t₃.emit t₃.layout).Matches n (t₃'.emit t₃'.layout) := by
  refine matches_foldl ?_ ?_ ?_ ?_ ⟨rfl, rfl⟩ 0
  · rw [h.shape.preorder_eq, h'.shape.preorder_eq]
    exact h₂.preorder
  · intro id
    rw [h.shape.statement_eq, h'.shape.statement_eq]
    exact h₂.statement_eq id
  · rw [h'.shape.statement_eq]
    exact h₂.isExecutable_self
  · intro id hid
    rw [h.shape.preorder_eq] at hid
    exact h.landing_eq h' h₁ h₂ hsymbols hid

/-- Trees that correspond are lowered to compiled scripts that match. -/
theorem Steps.matches_emit {n : Nat} {lang : Language} (hcat : lang.catalog.Reachable)
    {t t₁ t₂ t₃ t' t₁' t₂' t₃' : Tree} {r r' : Nat} (h : Steps lang t t₁ t₂ t₃ r)
    (h' : Steps lang t' t₁' t₂' t₃' r') (hinserted : Inserted n t t')
    (hline : t'.lineAfter = renumber n t.lineAfter)
    (hsymbols : t'.symbols = t.symbols.renumber n) :
    (t₃.emit t₃.layout).Matches n (t₃'.emit t₃'.layout) := by
  have h₁ := hinserted.addReturn hline h.addReturn_eq h'.addReturn_eq
  have h₂ := h₁.addJumps h.returned.nested h'.returned.nested hcat h.addJumps_eq h'.addJumps_eq
  refine h.toLowered.matches_emit h'.toLowered h₁ h₂ ?_
  rw [h.symbols_eq, h'.symbols_eq, hsymbols]

end Tree

end MissionScript
