import MissionScript.Proofs.Compile.Emission
import MissionScript.Proofs.Statement.Conditions

/-!
# MissionScript.Proofs.Compile.SourceLines

No line of a script is lost, repeated or moved.

`Script.Transcribes` says that reading makes one node of each line and reports exactly the lines that
have no command. `Code.Covers` says what becomes of the lines of a script that is compiled: each of
them is one command, one auxiliary entry, or the boundary of a block (`Code.Meets`), and only hidden
jumps share a line with something else. `compile_keeps_lines` says that both hold of every script.
-/

namespace MissionScript

/-! ### What it means to keep every line -/

/-- The script has been read from the lines, one node for each. -/
structure Script.Transcribes (s : Script) (lang : Language) (lines : List String) : Prop where
  size_eq : s.tree.size = lines.length + 1
  /-- Every node but the root is somewhere below the root, once. -/
  preorder_perm : s.tree.preorder.Perm (List.range' 1 lines.length)
  /-- A node is numbered like its line. -/
  statement_eq : ∀ k text, lines[k]? = some text →
    s.tree.statement (k + 1) = (lang.readLine (k + 1) text).1 ∧
      (s.tree.statement (k + 1)).line = k + 1
  /-- The lines without a command are reported, each once, in their order. -/
  reported : s.diagnostics.map (·.line)
    = (List.range' 1 lines.length).filter fun n => (s.tree.statement n).command.isNone

/-- What can become of a line. -/
inductive Fate
  /-- It is executed. -/
  | command
  /-- It is kept beside the commands. -/
  | auxiliary
  /-- It only ends a block or starts the last branch of one. -/
  | boundary
  deriving DecidableEq, Repr

namespace Code

/-- The lines of the commands that are no hidden jumps, in the order of the commands. -/
def commandLines (code : Code) : List Nat :=
  (code.commands.filter fun c => c.id != CommandId.hiddenJump).map (·.line)

/-- The lines of the auxiliary entries. -/
def auxiliaryLines (code : Code) : List Nat := code.auxiliary.map (·.line)

/-- The line `n` of a script meets with its fate: it is one command, or one auxiliary entry, or it is an
`else` or `end` and only hidden jumps are on it. -/
def Meets (code : Code) (t : Tree) (n : Nat) : Fate → Prop
  | .command => code.commandLines.count n = 1
  | .auxiliary => code.auxiliaryLines.count n = 1
  | .boundary =>
      ((t.statement n).id? = some CommandId.elseBranch ∨
        (t.statement n).id? = some CommandId.blockEnd) ∧
      n ∉ code.commandLines ∧ n ∉ code.auxiliaryLines

/-- The compiled script has each of the `count` lines of the source in one way, and in their order. -/
structure Covers (code : Code) (t : Tree) (count : Nat) : Prop where
  meets : ∀ n, 1 ≤ n → n ≤ count → ∃! fate, code.Meets t n fate
  grow : code.commandLines.Pairwise (· < ·)
  /-- Only an added `return` stands after the last line. -/
  added : ∀ c ∈ code.commands, c.id ≠ CommandId.hiddenJump →
    c.line ≤ count ∨ (c.line = count + 1 ∧ c.id = CommandId.finish)

end Code

/-! ### Reading -/

namespace Script

/-- The lines without a command are reported. -/
theorem lines_diagnostics {lang : Language} (hcat : lang.catalog.Reachable) (lines : List String) :
    (readLines lang lines).diagnostics.map (·.line)
      = (List.range' 1 lines.length).filter
          fun n => ((readLines lang lines).tree.statement n).command.isNone := by
  have numbers : ∀ (numbered : List (String × Nat)),
      (∀ l ∈ numbered, (readLines lang lines).tree.statement l.2 = (lang.readLine l.2 l.1).1) →
      (numbered.flatMap fun l => (lang.readLine l.2 l.1).2.toList).map (·.line)
        = (numbered.map (·.2)).filter
            fun n => ((readLines lang lines).tree.statement n).command.isNone := by
    intro numbered hnumbered
    induction numbered with
    | nil => rfl
    | cons l rest ih =>
        rw [List.flatMap_cons, List.map_append, ih fun m hm => hnumbered m (List.mem_cons_of_mem _ hm),
          Language.lines_of_problem hcat, List.map_cons, List.filter_cons,
          hnumbered l List.mem_cons_self]
        split <;> rfl
  rw [diagnostics_readLines, numbers _ fun l hl => statement_of_mem_zipIdx lang hl,
    List.zipIdx_map_snd]

/-- Reading makes one node of each line. -/
theorem transcribes {lang : Language} (hcat : lang.catalog.Reachable) (lines : List String) :
    (readLines lang lines).Transcribes lang lines where
  size_eq := size_readLines lang lines
  preorder_perm := preorder_perm lang lines
  statement_eq k text htext := by
    obtain ⟨hlt, -⟩ := List.getElem?_eq_some_iff.mp htext
    refine ⟨statement_readLines lang htext, line_statement hcat (Nat.succ_pos k) ?_⟩
    rw [size_readLines]
    omega
  reported := lines_diagnostics hcat lines

end Script

/-! ### Compiling -/

namespace Statement

/-- What becomes of a statement. -/
def fate (s : Statement) : Fate :=
  if s.isExecutable then .command else if s.isAuxiliary then .auxiliary else .boundary

theorem command_eq_fate_iff {s : Statement} : Fate.command = s.fate ↔ s.isExecutable = true := by
  unfold fate
  cases s.isExecutable <;> cases s.isAuxiliary <;> simp

theorem auxiliary_eq_fate_iff {s : Statement} : Fate.auxiliary = s.fate ↔ s.isAuxiliary = true := by
  unfold fate
  cases hexec : s.isExecutable with
  | true => simp [isAuxiliary_eq_false_of_isExecutable hexec]
  | false => cases s.isAuxiliary <;> simp

theorem boundary_eq_fate_iff {s : Statement} :
    Fate.boundary = s.fate ↔ ¬ s.isExecutable = true ∧ ¬ s.isAuxiliary = true := by
  unfold fate
  cases s.isExecutable <;> cases s.isAuxiliary <;> simp

end Statement

namespace Language

open MissionScript.Tree

/-- Only `else` and `end` mark the boundary of a block. -/
theorem id_of_virtual_flow {id : Nat} {condition : Conditional}
    (h : Flow.ofCommand (some id) condition = .elseBlock ∨
      Flow.ofCommand (some id) condition = .blockEnd) :
    id = CommandId.elseBranch ∨ id = CommandId.blockEnd := by
  by_cases helse : id = CommandId.elseBranch
  · exact Or.inl helse
  · by_cases hend : id = CommandId.blockEnd
    · exact Or.inr hend
    · cases condition <;>
        simp only [Flow.ofCommand, Option.some.injEq, if_neg helse, if_neg hend] at h <;>
        grind

namespace Emits

variable {lang : Language} {lines : List String} {t₁ t₂ t₃ : Tree} {r : Nat} {code : Code}

/-- A node that is no hidden jump is numbered like its line. -/
theorem line_of_lt (h : lang.Emits lines t₁ t₂ t₃ r code) {id : Nat} (hpos : 0 < id)
    (hlt : id < t₁.size) : (t₃.statement id).line = id := by
  rw [h.steps.shape.statement_eq, h.steps.prepared.statement_eq hlt]
  exact h.steps.numbered_returned h.numbered id hpos hlt

/-- The lines of the commands are the nodes that they stand for. -/
theorem commandLines_eq (h : lang.Emits lines t₁ t₂ t₃ r code) :
    code.commandLines
      = t₃.executables.filter fun id => (t₃.statement id).id? != some CommandId.hiddenJump := by
  have horigins := origins_emit t₃
  rw [← h.code_eq] at horigins
  have hfilter := congrArg (List.filter fun o : Nat × Option Nat =>
    o.2 != some CommandId.hiddenJump) horigins
  rw [List.filter_map, List.filter_map] at hfilter
  have hlines := congrArg (List.map Prod.fst) hfilter
  rw [List.map_map, List.map_map] at hlines
  refine Eq.trans ?_ (hlines.trans ?_)
  · rfl
  · refine (List.map_congr_left ?_).trans (List.map_id _)
    intro id hid
    obtain ⟨hexec, hne⟩ := List.mem_filter.mp hid
    obtain ⟨hpos, hlt⟩ := (mem_preorder_iff h.steps.sound).mp (List.mem_filter.mp hexec).1
    exact h.line_of_lt hpos (h.steps.lt_of_not_jump hlt (by simpa using hne))

/-- The lines of the auxiliary entries are the nodes that they stand for. -/
theorem auxiliaryLines_eq (h : lang.Emits lines t₁ t₂ t₃ r code) :
    code.auxiliaryLines = t₃.preorder.filter fun id => (t₃.statement id).isAuxiliary := by
  have hcommand : ∀ id ∈ t₃.preorder, (t₃.statement id).command.isSome = true := by
    intro id hid
    obtain ⟨hpos, hlt⟩ := (mem_preorder_iff h.steps.sound).mp hid
    rcases h.node_cases hpos hlt with ⟨hold, -⟩ | ⟨-, -, hreturn⟩ | ⟨-, line, -, hadded⟩
    · rw [h.statement_eq hold]
      exact (h.sane.nested.proper id hpos hold).isSome_command
    · simpa [Statement.id?] using congrArg Option.isSome (of_isAddedReturn hreturn).2
    · simpa [Statement.id?] using congrArg Option.isSome (of_isAddedJump hadded).2
  rw [Code.auxiliaryLines, h.code_eq, lines_auxiliary hcommand]
  refine (List.map_congr_left ?_).trans (List.map_id _)
  intro id hid
  obtain ⟨hmem, haux⟩ := List.mem_filter.mp hid
  obtain ⟨hpos, hlt⟩ := (mem_preorder_iff h.steps.sound).mp hmem
  -- what has been added is executed
  have hold : id < lines.length + 1 := by
    by_contra hnot
    have hexec := h.isExecutable_of_added (Nat.le_of_not_lt hnot) hlt
    rw [Statement.isAuxiliary_eq_false_of_isExecutable hexec] at haux
    cases haux
  refine h.line_of_lt hpos (Nat.lt_of_lt_of_le hold ?_)
  rw [← size_checkedTree lang lines]
  exact h.steps.returned.grows.size_le

/-- Every line has a node in the lowered tree. -/
theorem mem_preorder_of_lt (h : lang.Emits lines t₁ t₂ t₃ r code) {n : Nat} (hpos : 0 < n)
    (hlt : n < (Script.readLines lang lines).tree.size) : n ∈ t₃.preorder := by
  rw [mem_preorder_iff h.steps.sound]
  refine ⟨hpos, Nat.lt_of_lt_of_le hlt ?_⟩
  rw [← (sameShape_checkedTree lang lines).size_eq]
  exact h.steps.grows.size_le

/-- A line is a command exactly when its statement is executed, -/
theorem mem_commandLines_iff (h : lang.Emits lines t₁ t₂ t₃ r code) {n : Nat} (hpos : 0 < n)
    (hlt : n < (Script.readLines lang lines).tree.size) :
    n ∈ code.commandLines ↔
      ((Script.readLines lang lines).tree.statement n).isExecutable = true := by
  have hmem := h.mem_preorder_of_lt hpos hlt
  have hid := (h.sane.nested.proper n hpos hlt).id_ne_hiddenJump
  rw [h.commandLines_eq, List.mem_filter, executables, List.mem_filter, h.statement_eq hlt]
  simp [hmem, hid]

/-- and an auxiliary entry exactly when its statement is auxiliary. -/
theorem mem_auxiliaryLines_iff (h : lang.Emits lines t₁ t₂ t₃ r code) {n : Nat} (hpos : 0 < n)
    (hlt : n < (Script.readLines lang lines).tree.size) :
    n ∈ code.auxiliaryLines ↔
      ((Script.readLines lang lines).tree.statement n).isAuxiliary = true := by
  have hmem := h.mem_preorder_of_lt hpos hlt
  rw [h.auxiliaryLines_eq, List.mem_filter, h.statement_eq hlt]
  simp [hmem]

theorem nodup_commandLines (h : lang.Emits lines t₁ t₂ t₃ r code) : code.commandLines.Nodup := by
  rw [h.commandLines_eq, executables]
  exact ((nodup_preorder _).filter _).filter _

theorem nodup_auxiliaryLines (h : lang.Emits lines t₁ t₂ t₃ r code) :
    code.auxiliaryLines.Nodup := by
  rw [h.auxiliaryLines_eq]
  exact (nodup_preorder _).filter _

/-- The boundary of a block is an `else` or an `end`. -/
theorem id_of_boundary (hcat : lang.catalog.Reachable) (h : lang.Emits lines t₁ t₂ t₃ r code)
    {n : Nat} (hpos : 0 < n) (hlt : n < (Script.readLines lang lines).tree.size)
    (hvirtual : ((Script.readLines lang lines).tree.statement n).isVirtual = true) :
    ((Script.readLines lang lines).tree.statement n).id? = some CommandId.elseBranch ∨
      ((Script.readLines lang lines).tree.statement n).id? = some CommandId.blockEnd := by
  obtain ⟨text, -, hread, hstatement⟩ := h.exists_line hpos hlt
  rw [h.statement_eq hlt] at hstatement
  have hflow := hvirtual
  simp only [Statement.isVirtual, Bool.and_eq_true, Bool.or_eq_true, beq_iff_eq] at hflow
  rcases readLine_cases hcat hread with haux | hcommand
  · rw [← hstatement] at haux
    have hplain := (h.sane.nested.proper n hpos hlt).flow_of_auxiliary haux
    rw [hplain] at hflow
    simp at hflow
  · obtain ⟨⟨d, hd⟩, -⟩ := isCommand_of_readCommand hcat hcommand
    rw [hstatement] at hflow ⊢
    rw [hd.flow_eq] at hflow
    rw [hd.id?_eq, Option.some.injEq, Option.some.injEq]
    exact id_of_virtual_flow hflow.2

/-- A line meets with the fate of its statement. -/
theorem meets_iff (hcat : lang.catalog.Reachable) (h : lang.Emits lines t₁ t₂ t₃ r code) {n : Nat}
    (hpos : 0 < n) (hlt : n < (Script.readLines lang lines).tree.size) (fate : Fate) :
    code.Meets (Script.readLines lang lines).tree n fate ↔
      fate = ((Script.readLines lang lines).tree.statement n).fate := by
  have hcommand := h.mem_commandLines_iff hpos hlt
  have hauxiliary := h.mem_auxiliaryLines_iff hpos hlt
  cases fate with
  | command =>
      rw [Code.Meets, h.nodup_commandLines.count, Statement.command_eq_fate_iff, ← hcommand]
      simp
  | auxiliary =>
      rw [Code.Meets, h.nodup_auxiliaryLines.count, Statement.auxiliary_eq_fate_iff, ← hauxiliary]
      simp
  | boundary =>
      have hproper := h.sane.nested.proper n hpos hlt
      rw [Code.Meets, hcommand, hauxiliary, Statement.boundary_eq_fate_iff, and_iff_right_iff_imp]
      rintro ⟨hexec, haux⟩
      rcases hproper.classified with haux' | hvirtual | hexec'
      · exact absurd haux' haux
      · exact h.id_of_boundary hcat hpos hlt hvirtual
      · exact absurd hexec' hexec

theorem covers (hcat : lang.catalog.Reachable) (h : lang.Emits lines t₁ t₂ t₃ r code) :
    code.Covers (Script.readLines lang lines).tree lines.length where
  meets n hpos hle := by
    have hlt : n < (Script.readLines lang lines).tree.size := by
      rw [Script.size_readLines]
      omega
    exact ⟨_, (h.meets_iff hcat hpos hlt _).mpr rfl, fun fate hfate =>
      (h.meets_iff hcat hpos hlt fate).mp hfate⟩
  grow := by
    have hgrow := h.steps.pairwise_line_lt h.numbered h.sequenced
    rw [← h.code_eq] at hgrow
    rw [Code.commandLines, List.pairwise_map, List.pairwise_filter]
    simpa using hgrow
  added c hc hne := by
    obtain ⟨id, -, hencodes, hcases⟩ := h.command_cases hc
    have hid := hencodes.id?_eq
    rcases hcases with ⟨hlt, -, hline⟩ | ⟨-, -, hline, hreturn⟩ | ⟨-, -, hadded⟩
    · rw [Script.size_readLines] at hlt
      exact Or.inl (by omega)
    · rw [(of_isAddedReturn hreturn).2] at hid
      exact Or.inr ⟨hline, (Option.some.inj hid).symm⟩
    · rw [(of_isAddedJump hadded).2] at hid
      exact absurd (Option.some.inj hid).symm hne

end Emits

/-- Every line of a script is read to one node, and is in the compiled script in one way. -/
theorem compile_keeps_lines {lang : Language} (hcat : lang.catalog.Reachable)
    (lines : List String) :
    (Script.readLines lang lines).Transcribes lang lines ∧
      ∀ out code, lang.compile lines = .ok out → out.code = some code →
        code.Covers (Script.readLines lang lines).tree lines.length := by
  refine ⟨Script.transcribes hcat lines, ?_⟩
  intro out code hcompile hcode
  obtain ⟨t₁, t₂, t₃, r, hemits⟩ := emits_of_code hcat hcompile hcode
  exact hemits.covers hcat

/-- A loop with branches of its own, a `skip if` whose command comes after a comment and a blank line,
and no `return` at the end. -/
theorem compile_keeps_lines_loop :
    Catalog.builtin.Reachable ∧
      ∃ lines, lines = ["while $a", "if $b", "skip if $c", "* aside", "", "break", "else",
          "continue", "end", "end", "* done"] ∧
        (Script.readLines ⟨.builtin, .threat⟩ lines).Transcribes ⟨.builtin, .threat⟩ lines ∧
        ∃ out code, (⟨.builtin, .threat⟩ : Language).compile lines = .ok out ∧
          out.code = some code ∧
          code.Covers (Script.readLines ⟨.builtin, .threat⟩ lines).tree lines.length :=
  ⟨.builtin, _, rfl, (compile_keeps_lines .builtin _).1, exists_code (by decide +kernel)
    (compile_keeps_lines .builtin _).2⟩

end Language

end MissionScript
