import MissionScript.Proofs.Compile.ControlFlow
import MissionScript.Proofs.Lowering.LineOrder

/-!
# MissionScript.Proofs.Compile.Emission

Where the entries of a compiled script come from.

`Emits` gathers what is known once a script has been compiled: nothing is reported for it, the steps of
lowering, and that the lines are in order. From it, every command is that of a line, the added `return`
or a hidden jump (`Emits.command_cases`).

Statements about compiled scripts are proved from `Emits` without going back to the compiler. The
nodes of the lowered tree have numbers from three ranges: those of the lines, the number of an added
return, and those of hidden jumps. The return has the number after those of the lines if it has been
added; otherwise the hidden jumps begin there.
-/

namespace MissionScript

namespace Language

open MissionScript.Tree

/-- The tree that is lowered. -/
def checkedTree (lang : Language) (lines : List String) : Tree :=
  (Script.readLines lang lines).tree.check.1

/-- The script is compiled to `code`, by way of the trees `t₁`, `t₂` and `t₃`. -/
structure Emits (lang : Language) (lines : List String) (t₁ t₂ t₃ : Tree) (r : Nat) (code : Code) :
    Prop where
  sane : lang.Sane lines
  checked : (Script.readLines lang lines).tree.check.2 = []
  steps : Steps lang (lang.checkedTree lines) t₁ t₂ t₃ r
  implements : code.Implements (Script.readLines lang lines).tree t₃.setIndices
  code_eq : code = t₃.emit t₃.layout
  numbered : (lang.checkedTree lines).Numbered
  sequenced : (lang.checkedTree lines).Sequenced

theorem sameShape_checkedTree (lang : Language) (lines : List String) :
    (Script.readLines lang lines).tree.SameShape (lang.checkedTree lines) :=
  SameShape.withSymbols _ _

/-- The tree has a node for each line, and the root. -/
theorem size_checkedTree (lang : Language) (lines : List String) :
    (lang.checkedTree lines).size = lines.length + 1 := by
  rw [(sameShape_checkedTree lang lines).size_eq, Script.size_readLines]

/-- A script that is compiled goes through all the steps. -/
theorem emits_of_code {lang : Language} (hcat : lang.catalog.Reachable) {lines : List String}
    {out : Compiled} {code : Code} (hcompile : lang.compile lines = .ok out)
    (hcode : out.code = some code) : ∃ t₁ t₂ t₃ r, lang.Emits lines t₁ t₂ t₃ r code := by
  obtain ⟨hterminated, hproblems, hfound, hlower⟩ := reported_of_code hcompile hcode
  have hsane := sane_of_no_problem hcat hterminated hproblems hfound
  obtain ⟨hnested, hbound⟩ := hsane.checked
  obtain ⟨t₁, t₂, t₃, r, hsteps, hsymbols, hspec⟩ := lower_steps hcat hnested hbound
  rw [hlower, Prod.mk.injEq, Except.ok.injEq] at hspec
  have hshape := sameShape_checkedTree lang lines
  refine ⟨t₁, t₂, t₃, r, ?_⟩
  exact {
    sane := hsane
    checked := hfound
    steps := hsteps
    implements := by
      rw [hspec.2]
      refine (Lowered.of_withSymbols hsane.nested hsteps.toLowered).implements ?_
      rw [hsymbols]
      exact hsane.bindsLabels
    code_eq := hspec.2
    numbered := by
      intro id hpos hlt
      rw [hshape.statement_eq]
      exact Script.line_statement hcat hpos (hshape.size_eq ▸ hlt)
    sequenced := by
      rintro x y ⟨rest, hsuffix, hmem⟩ hx hy
      rw [hshape.statement_eq] at hx hy
      exact hsane.sequenced hcat x y ⟨rest, hshape.preorder_eq ▸ hsuffix, hmem⟩ hx hy }

namespace Emits

variable {lang : Language} {lines : List String} {t₁ t₂ t₃ : Tree} {r : Nat} {code : Code}

/-- There is a command for every executable node. -/
theorem length_commands (h : lang.Emits lines t₁ t₂ t₃ r code) :
    code.commands.length = t₃.executables.length := by
  rw [h.code_eq, Tree.length_commands]

/-- The statement of a line is that of its node. -/
theorem statement_eq (h : lang.Emits lines t₁ t₂ t₃ r code) {id : Nat}
    (hlt : id < (Script.readLines lang lines).tree.size) :
    t₃.statement id = (Script.readLines lang lines).tree.statement id := by
  have hshape := sameShape_checkedTree lang lines
  rw [h.steps.grows.statement_eq id (by rw [hshape.size_eq]; exact hlt), hshape.statement_eq]

/-- What stands on a line could be read. -/
theorem exists_line (h : lang.Emits lines t₁ t₂ t₃ r code) {id : Nat} (hpos : 0 < id)
    (hlt : id < (Script.readLines lang lines).tree.size) :
    ∃ text, lines[id - 1]? = some text ∧ (lang.readLine id text).2 = none ∧
      t₃.statement id = (lang.readLine id text).1 := by
  obtain ⟨text, htext, hstatement⟩ := Script.exists_line lang hpos hlt
  refine ⟨text, htext, ?_, (h.statement_eq hlt).trans hstatement⟩
  have hmem : (text, id) ∈ lines.zipIdx 1 := by
    rw [List.mk_mem_zipIdx_iff_le_and_getElem?_sub]
    exact ⟨hpos, htext⟩
  exact h.sane.read (text, id) hmem

/-- A node after those of the lines that is no hidden jump is the final `return`. -/
theorem eq_return (h : lang.Emits lines t₁ t₂ t₃ r code) {id : Nat} (hle : lines.length + 1 ≤ id)
    (hlt : id < t₁.size) : id = r := by
  have hsize := h.steps.returned.size_eq
  rw [size_checkedTree] at hsize
  split at hsize
  · next hr =>
    have := h.steps.returned.eq_size (by rw [size_checkedTree]; exact hr)
    rw [size_checkedTree] at this
    omega
  · omega

/-- Whatever has been added is executed. -/
theorem isExecutable_of_added (h : lang.Emits lines t₁ t₂ t₃ r code) {id : Nat}
    (hle : lines.length + 1 ≤ id) (hlt : id < t₃.size) :
    (t₃.statement id).isExecutable = true := by
  by_cases hold : id < t₁.size
  · rw [h.eq_return hle hold]
    exact h.steps.executable_return
  · rw [h.steps.shape.size_eq] at hlt
    rw [h.steps.shape.statement_eq]
    exact (h.steps.prepared.jumped.jump_of_added id (Nat.le_of_not_lt hold) hlt).1.executable

/-- A node of the lowered tree stands for a line, or it has been added. -/
theorem node_cases (h : lang.Emits lines t₁ t₂ t₃ r code) {id : Nat} (hpos : 0 < id)
    (hlt : id < t₃.size) :
    (id < (Script.readLines lang lines).tree.size ∧ (t₃.statement id).line = id) ∨
      (id < t₁.size ∧ id = lines.length + 1 ∧
        IsAddedReturn lang (t₃.statement id) (lines.length + 1)) ∨
      (t₁.size ≤ id ∧ ∃ line, 0 < line ∧ IsAddedJump lang (t₃.statement id) line) := by
  have hshape := sameShape_checkedTree lang lines
  rcases h.steps.node_cases hlt with
    hold | ⟨hid, hsize, hreturn⟩ | ⟨p, hp, jump, hle, hjump, -, hadded⟩
  · left
    refine ⟨hshape.size_eq ▸ hold, ?_⟩
    rw [h.steps.grows.statement_eq id hold]
    exact h.numbered id hpos hold
  · right
    left
    rw [lineAfter_eq h.steps.nested.sound h.numbered, size_checkedTree] at hreturn
    exact ⟨by omega, hid.trans (size_checkedTree lang lines), hreturn⟩
  · right
    right
    obtain ⟨hppos, hplt⟩ := (mem_preorder_iff h.steps.returned.nested.sound).mp hp
    obtain ⟨q, before, y, rest, hc, -, hline⟩ :=
      exists_next_of_hiddenJump? h.steps.returned.nested hppos hplt hjump
    have hy := mem_children.mp (show y ∈ t₁.children q by rw [hc]; simp)
    refine ⟨hle, jump.line, ?_, hadded⟩
    rw [hline, h.steps.numbered_returned h.numbered y (by omega) hy.1]
    omega

/-- Every command is that of a line, the added `return`, or a hidden jump. -/
theorem command_cases (h : lang.Emits lines t₁ t₂ t₃ r code) {c : Command}
    (hc : c ∈ code.commands) :
    ∃ id, id ∈ t₃.executables ∧ t₃.Encodes t₃.layout c id ∧
      ((id < (Script.readLines lang lines).tree.size ∧ 0 < id ∧ c.line = id) ∨
        (id < t₁.size ∧ id = lines.length + 1 ∧ c.line = lines.length + 1 ∧
          IsAddedReturn lang (t₃.statement id) c.line) ∨
        (t₁.size ≤ id ∧ 0 < c.line ∧ IsAddedJump lang (t₃.statement id) c.line)) := by
  rw [h.code_eq] at hc
  obtain ⟨id, hid, hencodes⟩ := exists_encodes hc
  obtain ⟨hpos, hlt⟩ := (mem_preorder_iff h.steps.sound).mp (List.mem_filter.mp hid).1
  refine ⟨id, hid, hencodes, ?_⟩
  rw [hencodes.line_eq]
  rcases h.node_cases hpos hlt with
    ⟨hold, hline⟩ | ⟨hlt₁, hid, hreturn⟩ | ⟨hle, line, hline, hadded⟩
  · exact Or.inl ⟨hold, hpos, hline⟩
  · rw [(of_isAddedReturn hreturn).1]
    exact Or.inr (Or.inl ⟨hlt₁, hid, rfl, hreturn⟩)
  · rw [(of_isAddedJump hadded).1]
    exact Or.inr (Or.inr ⟨hle, hline, hadded⟩)

end Emits

end Language

end MissionScript
