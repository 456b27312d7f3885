import MissionScript.Proofs.Compile.Emission
import MissionScript.Proofs.Lowering.Table
import MissionScript.Proofs.Script.Overtaking

/-!
# MissionScript.Proofs.Compile.Placement

Where the auxiliary entries of a compiled script stand among its commands.

The reference of an entry is the number of commands before it in the order of the tree, so a command
comes before the reference exactly when its node comes before that of the entry
(`position_lt_iff`). The order of the tree is that of the lines, except that the command of a
`skip if` overtakes the comments in front of it: such an entry refers to what follows that command
(`compile_places_auxiliary`).

One half of the statement holds for every auxiliary line. The other half has an exception, and the
exception is exactly `Tree.Overtakes`. The theorem is stated with it rather than for scripts without
`skip if`, so that it says of each entry whether its reference is what the order of the lines would
give.
-/

namespace MissionScript

namespace Tree

/-! ### Positions

Positions are compared by way of the order: a node that is executed takes up a position, so all that
comes after it has a larger one. -/

/-- Of an executable node and another, the first has the smaller position exactly when it comes
first. -/
theorem position_lt_iff (t : Tree) {ids : List Nat} (hnodup : ids.Nodup) (start : Nat) {x y : Nat × Nat}
    (hx : x ∈ t.positionsFrom start ids) (hy : y ∈ t.positionsFrom start ids)
    (hexec : (t.statement x.1).isExecutable = true) (hne : x.1 ≠ y.1) :
    x.2 < y.2 ↔ ∃ rest, x.1 :: rest <:+ ids ∧ y.1 ∈ rest := by
  induction ids generalizing start with
  | nil => cases hx
  | cons id ids ih =>
      obtain ⟨hid, hrest⟩ := List.nodup_cons.mp hnodup
      have hmem : ∀ {z : Nat × Nat} {from' : Nat}, z ∈ t.positionsFrom from' ids → z.1 ∈ ids := by
        intro z from' hz
        rw [← map_fst_positionsFrom t from' ids]
        exact List.mem_map_of_mem hz
      rw [positionsFrom] at hx hy
      rcases List.mem_cons.mp hx with rfl | hx'
      · -- the first node comes before all others
        have hy' := (List.mem_cons.mp hy).resolve_left (by rintro rfl; exact hne rfl)
        have hbounds := bounds_positionsFrom t _ ids y hy'
        rw [if_pos hexec] at hbounds
        exact iff_of_true (by dsimp only; omega) ⟨ids, List.suffix_rfl, hmem hy'⟩
      · have hsuffix : ∀ rest, x.1 :: rest <:+ id :: ids ↔ x.1 :: rest <:+ ids := by
          intro rest
          rw [List.suffix_cons_iff, or_iff_right]
          intro heq
          rw [← (List.cons.inj heq).1] at hid
          exact hid (hmem hx')
        simp only [hsuffix]
        rcases List.mem_cons.mp hy with rfl | hy'
        · -- and after none of them
          have hbounds := bounds_positionsFrom t _ ids x hx'
          refine iff_of_false ?_ ?_
          · dsimp only
            split at hbounds <;> omega
          · rintro ⟨rest, hsuffix, hmem⟩
            exact hid (hsuffix.subset (List.mem_cons_of_mem _ hmem))
        · exact ih hrest _ hx' hy'

/-- An auxiliary entry stands for an auxiliary node, at the position of the node. -/
theorem exists_auxiliaryAt {t : Tree} {a : Auxiliary} (h : a ∈ (t.emit t.layout).auxiliary) :
    ∃ x ∈ t.layout.positions, (t.statement x.1).isAuxiliary = true ∧ a.reference = x.2 ∧
      a.line = (t.statement x.1).line := by
  rw [auxiliary_emit] at h
  obtain ⟨x, hx, ha⟩ := List.mem_filterMap.mp h
  refine ⟨x, hx, ?_, reference_of_auxiliaryAt? ha⟩
  unfold auxiliaryAt? at ha
  split at ha
  · assumption
  · cases ha

/-- What a `skip if` owns is no comment. -/
theorem Nested.not_overtakes_of_auxiliary {t : Tree} (h : t.Nested [] none) {x : Nat}
    (haux : (t.statement x).isAuxiliary = true) (y : Nat) : ¬ t.Overtakes x y := by
  rintro ⟨w, hpos, hw, hskip, -⟩
  have hlt := h.sound.parent_lt hw
  obtain ⟨c, hc, -, hcaux⟩ := h.skips w hpos (by omega) hskip (by simp)
  have hmem := h.sound.mem_children_iff.mpr hw
  rw [hc, List.mem_singleton] at hmem
  subst hmem
  rw [haux] at hcaux
  cases hcaux

end Tree

namespace Language

open MissionScript.Tree

namespace Emits

variable {lang : Language} {lines : List String} {t₁ t₂ t₃ : Tree} {r : Nat} {code : Code}

/-- Lowering leaves the order of the lines alone. -/
theorem precedes_iff (h : lang.Emits lines t₁ t₂ t₃ r code) {x y : Nat}
    (hx : x < (Script.readLines lang lines).tree.size)
    (hy : y < (Script.readLines lang lines).tree.size) :
    t₃.Precedes x y ↔ (Script.readLines lang lines).tree.Precedes x y := by
  have hshape := sameShape_checkedTree lang lines
  rw [h.steps.grows.precedes_iff h.steps.nested.sound h.steps.sound (by rw [hshape.size_eq]; exact hx)
    (by rw [hshape.size_eq]; exact hy)]
  unfold Precedes
  rw [hshape.preorder_eq]

/-- An auxiliary entry has the line and the position of its node. -/
theorem exists_auxiliary (h : lang.Emits lines t₁ t₂ t₃ r code) {a : Auxiliary}
    (ha : a ∈ code.auxiliary) :
    (a.line, a.reference) ∈ t₃.layout.positions ∧ 0 < a.line ∧
      a.line < (Script.readLines lang lines).tree.size ∧
      (t₃.statement a.line).isAuxiliary = true := by
  rw [h.code_eq] at ha
  obtain ⟨⟨id, position⟩, hx, haux, hreference, hline⟩ := exists_auxiliaryAt ha
  obtain ⟨hpos, hlt⟩ := (mem_preorder_iff h.steps.sound).mp (mem_preorder_of_mem_positions hx)
  have hadded : ¬ lines.length + 1 ≤ id := by
    intro hle
    rw [Statement.isAuxiliary_eq_false_of_isExecutable (h.isExecutable_of_added hle hlt)] at haux
    cases haux
  rcases h.node_cases hpos hlt with ⟨hsource, hid⟩ | ⟨-, hid, -⟩ | ⟨hle, -⟩
  · rw [hline, hid, hreference]
    exact ⟨hx, hpos, hsource, haux⟩
  · omega
  · have hsize := h.steps.returned.grows.size_le
    rw [size_checkedTree] at hsize
    omega

/-- The command of a line has its line and its position. -/
theorem exists_command (h : lang.Emits lines t₁ t₂ t₃ r code) {c : Command} (hc : c ∈ code.commands)
    (hid : c.id ≠ CommandId.hiddenJump) (hline : c.line ≤ lines.length) :
    (c.line, c.index) ∈ t₃.layout.positions ∧ 0 < c.line ∧
      c.line < (Script.readLines lang lines).tree.size ∧
      (t₃.statement c.line).isExecutable = true := by
  rw [h.code_eq] at hc
  obtain ⟨⟨id, position⟩, hx, hemitted⟩ := exists_emitted hc
  obtain ⟨hpos, hlt⟩ := (mem_preorder_iff h.steps.sound).mp (mem_preorder_of_mem_positions hx)
  have hstatement := hemitted.encodes.line_eq
  rcases h.node_cases hpos hlt with ⟨hsource, hnumber⟩ | ⟨-, -, hreturn⟩ | ⟨-, line, -, hjump⟩
  · rw [hstatement, hnumber, hemitted.index_eq]
    exact ⟨hx, hpos, hsource, hemitted.executable⟩
  · rw [(of_isAddedReturn hreturn).1] at hstatement
    omega
  · have hidentified := hemitted.encodes.id?_eq
    rw [(of_isAddedJump hjump).2] at hidentified
    exact absurd (Option.some.inj hidentified).symm hid

/-- The command of a line comes before the reference of an entry when its node comes first. -/
theorem index_lt_reference_iff (h : lang.Emits lines t₁ t₂ t₃ r code) {a : Auxiliary}
    (ha : a ∈ code.auxiliary) {c : Command} (hc : c ∈ code.commands)
    (hid : c.id ≠ CommandId.hiddenJump) (hline : c.line ≤ lines.length) :
    c.index < a.reference ↔ (Script.readLines lang lines).tree.Precedes c.line a.line := by
  obtain ⟨hx, -, hxlt, hexec⟩ := h.exists_command hc hid hline
  obtain ⟨hy, -, hylt, haux⟩ := h.exists_auxiliary ha
  have hne : c.line ≠ a.line := by
    intro heq
    rw [heq] at hexec
    rw [Statement.isAuxiliary_eq_false_of_isExecutable hexec] at haux
    cases haux
  rw [← h.precedes_iff hxlt hylt]
  exact position_lt_iff t₃ (nodup_preorder _) 0 hx hy hexec hne

end Emits

/-- The command of an earlier line comes before the reference of an auxiliary entry. That of a later
line comes at the reference or after it, unless it is the command of a `skip if` in front of which the
entry stands. -/
theorem compile_places_auxiliary {lang : Language} (hcat : lang.catalog.Reachable)
    {lines : List String} {out : Compiled} {code : Code} (hcompile : lang.compile lines = .ok out)
    (hcode : out.code = some code) {a : Auxiliary} (ha : a ∈ code.auxiliary) {c : Command}
    (hc : c ∈ code.commands) (hid : c.id ≠ CommandId.hiddenJump) (hline : c.line ≤ lines.length) :
    (c.line < a.line → c.index < a.reference) ∧
      (a.line < c.line → (a.reference ≤ c.index ↔
        ¬ (Script.readLines lang lines).tree.Overtakes c.line a.line)) := by
  obtain ⟨t₁, t₂, t₃, r, hemits⟩ := emits_of_code hcat hcompile hcode
  have hnested := hemits.sane.nested
  have haligned := hemits.sane.aligned hcat
  obtain ⟨-, hcpos, hclt, -⟩ := hemits.exists_command hc hid hline
  obtain ⟨-, hapos, halt, haux⟩ := hemits.exists_auxiliary ha
  rw [hemits.statement_eq halt] at haux
  have hiff := hemits.index_lt_reference_iff ha hc hid hline
  constructor
  · intro hlt
    exact hiff.mpr (haligned.ahead _ _ hcpos hlt halt (hnested.not_overtakes_of_auxiliary haux _))
  · intro hlt
    rw [← Nat.not_lt, hiff, haligned.precedes_iff hapos hlt hclt]

/-- A blank line inside of a loop, between a `skip if` with its command and the end. -/
theorem compile_places_auxiliary_blank :
    Catalog.builtin.Reachable ∧
      ∃ lines, lines = ["while $a", "skip if $b", "* note", "break", "", "$a = $a - 1", "end"] ∧
        ∃ out code a c, (⟨.builtin, .threat⟩ : Language).compile lines = .ok out ∧
          out.code = some code ∧ a ∈ code.auxiliary ∧ c ∈ code.commands ∧
          c.id ≠ CommandId.hiddenJump ∧ c.line ≤ lines.length ∧ a.line = 5 ∧ c.line = 6 ∧
          (a.reference ≤ c.index ↔
            ¬ (Script.readLines ⟨.builtin, .threat⟩ lines).tree.Overtakes c.line a.line) := by
  obtain ⟨out, code, hcompile, hcode, hany⟩ := exists_code_of_any ⟨.builtin, .threat⟩
    ["while $a", "skip if $b", "* note", "break", "", "$a = $a - 1", "end"]
    (fun code => code.auxiliary.any (fun a => a.line == 5) &&
      code.commands.any fun c => c.line == 6 && c.id == CommandId.expression) (by decide +kernel)
  rw [Bool.and_eq_true] at hany
  obtain ⟨a, ha, haline⟩ := List.any_eq_true.mp hany.1
  obtain ⟨c, hc, hfound⟩ := List.any_eq_true.mp hany.2
  simp only [Bool.and_eq_true, beq_iff_eq] at haline hfound
  have hid : c.id ≠ CommandId.hiddenJump := by
    rw [hfound.2]
    decide
  have hline : c.line ≤ 7 := by omega
  exact ⟨.builtin, _, rfl, out, code, a, c, hcompile, hcode, ha, hc, hid, hline, haline, hfound.1,
    (compile_places_auxiliary .builtin hcompile hcode ha hc hid hline).2 (by omega)⟩

/-- The comment in front of the command of a `skip if` refers to what follows the command. -/
theorem compile_places_auxiliary_overtaken :
    ∃ out code a c, (⟨.builtin, .terranConflict⟩ : Language).compile
        ["skip if $a", "* note", "$b = 1"] = .ok out ∧
      out.code = some code ∧ a ∈ code.auxiliary ∧ c ∈ code.commands ∧
      c.id ≠ CommandId.hiddenJump ∧ c.line ≤ 3 ∧ a.line < c.line ∧ ¬ a.reference ≤ c.index := by
  obtain ⟨out, code, hcompile, hcode, hany⟩ := exists_code_of_any ⟨.builtin, .terranConflict⟩
    ["skip if $a", "* note", "$b = 1"]
    (fun code => code.auxiliary.any fun a => code.commands.any fun c =>
      c.id != CommandId.hiddenJump && decide (c.line ≤ 3) && decide (a.line < c.line) &&
        decide (c.index < a.reference)) (by decide +kernel)
  obtain ⟨a, ha, hany⟩ := List.any_eq_true.mp hany
  obtain ⟨c, hc, hfound⟩ := List.any_eq_true.mp hany
  simp only [Bool.and_eq_true, decide_eq_true_eq, bne_iff_ne] at hfound
  obtain ⟨⟨⟨hid, hline⟩, hafter⟩, hindex⟩ := hfound
  exact ⟨out, code, a, c, hcompile, hcode, ha, hc, hid, hline, hafter, by omega⟩

end Language

end MissionScript
