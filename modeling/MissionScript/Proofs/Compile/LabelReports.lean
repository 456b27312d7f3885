import MissionScript.Proofs.Compile.ReportedLines
import MissionScript.Proofs.Lowering.Frame
import MissionScript.Proofs.Statement.Conditions

/-!
# MissionScript.Proofs.Compile.LabelReports

What is reported about labels, told from the lines of a script.

The table that the reader keeps lists the lines that declare a label and the lines that jump to one
(`labels_readLines`, `references_readLines`), wherever they stand in the tree. So a jump is reported when
no line of the script declares its label, a declaration is reported when an earlier line declares the
same, and every other jump is bound to the first line that declares its label (`compile_reports_labels`).

The statement is about lines and does not mention the tree: `Language.readings` are the statements
of all lines, and the declarations and the jumps are picked from them. It also covers scripts that
are not compiled for another reason, as long as all blocks are ended; where they are not, labels are
not looked at.
-/

namespace MissionScript

/-! ### Lines with labels -/

namespace Problem

/-- Is the problem that a label is declared nowhere? -/
def isUndefinedLabel : Problem → Bool
  | .undefinedLabel _ => true
  | _ => false

/-- Is the problem that a label has been declared before? -/
def isDuplicateLabel : Problem → Bool
  | .duplicateLabel .. => true
  | _ => false

/-- Is the problem about labels? -/
def isLabel (problem : Problem) : Bool := problem.isUndefinedLabel || problem.isDuplicateLabel

end Problem

namespace Statement

/-- The parameter of a declaration or a jump that names the label. -/
def label (s : Statement) : Parameter := s.parameters.headD (Parameter.null (Slot.argument 0))

/-- The place where a line names a label. -/
def symbol (s : Statement) : Symbol :=
  { name := s.label.text, kind := .label, node := s.line, line := s.line, start := s.label.start,
    stop := s.label.stop, declaration := s.isLabel }

/-- The problem of a jump to a label that is declared nowhere. -/
def undefinedLabel (s : Statement) : Diagnostic :=
  ⟨.undefinedLabel s.label.text, s.line, s.label.start, s.label.stop⟩

/-- The problem of a declaration after the first one. -/
def duplicateLabel (s first : Statement) : Diagnostic :=
  ⟨.duplicateLabel s.label.text first.line, s.line, s.label.start, s.label.stop⟩

end Statement

namespace Language

open MissionScript.Tree

/-- The lines of a script as they are read. -/
def readings (lang : Language) (lines : List String) : List Statement :=
  (lines.zipIdx 1).map fun l => (lang.readLine l.2 l.1).1

/-- The lines that declare a label. -/
def declarations (lang : Language) (lines : List String) : List Statement :=
  (lang.readings lines).filter (·.isLabel)

/-- The lines that jump to a label. -/
def labelJumps (lang : Language) (lines : List String) : List Statement :=
  (lang.readings lines).filter (·.isLabelJump)

/-- The first line that declares a label. -/
def firstDeclaration? (lang : Language) (lines : List String) (name : String) : Option Statement :=
  (lang.declarations lines).find? (·.label.text == name)

variable {lang : Language} {lines : List String}

/-! ### The nodes of lines

A node has the statement of its line, and the table lists symbols by nodes, so it can be listed by
lines instead. -/

theorem pairwise_readings (lang : Language) (lines : List String) :
    (lang.readings lines).Pairwise fun s s' => s.line < s'.line := by
  have hnumbers : (lines.zipIdx 1).Pairwise fun l m => l.2 < m.2 := by
    rw [← List.pairwise_map, List.zipIdx_map_snd]
    exact List.pairwise_lt_range'
  rw [readings, List.pairwise_map]
  refine hnumbers.imp fun {l m} hlt => ?_
  rw [lang.line_statement_readLine, lang.line_statement_readLine]
  exact hlt

/-- A line is the statement of the node with its number. -/
theorem statement_of_mem_readings {s : Statement} (h : s ∈ lang.readings lines) :
    0 < s.line ∧ s.line < (Script.readLines lang lines).tree.size ∧
      (Script.readLines lang lines).tree.statement s.line = s := by
  obtain ⟨⟨text, number⟩, hmem, rfl⟩ := List.mem_map.mp h
  obtain ⟨hle, hget⟩ := List.mk_mem_zipIdx_iff_le_and_getElem?_sub.mp hmem
  obtain ⟨hlt, -⟩ := List.getElem?_eq_some_iff.mp hget
  rw [lang.line_statement_readLine, Script.size_readLines]
  exact ⟨hle, by omega, Script.statement_of_mem_zipIdx lang hmem⟩

theorem map_statement_readLines (lang : Language) (lines : List String) :
    (List.range' 1 ((Script.readLines lang lines).tree.size - 1)).map
        (Script.readLines lang lines).tree.statement = lang.readings lines := by
  have hnumbers : List.range' 1 ((Script.readLines lang lines).tree.size - 1)
      = (lines.zipIdx 1).map Prod.snd := by
    rw [Script.size_readLines, Nat.add_sub_cancel, List.zipIdx_map_snd]
  rw [hnumbers, List.map_map, readings]
  exact List.map_congr_left fun l hl => Script.statement_of_mem_zipIdx lang hl

/-! ### Declarations and jumps name a label -/

/-- A line that declares a label or jumps to one could be read. -/
theorem read_of_command {line : Nat} {text : String}
    (h : (lang.readLine line text).1.isLabel = true ∨
      (lang.readLine line text).1.isLabelJump = true) : (lang.readLine line text).2 = none := by
  cases hproblem : (lang.readLine line text).2 with
  | none => rfl
  | some d =>
      obtain ⟨-, condition, heq⟩ := readLine_eq_problemLine hproblem
      rw [heq] at h
      cases condition <;> rcases h with h | h <;> cases h

/-- A declaration names its label. -/
theorem parameters_of_isLabel (hcat : lang.catalog.Reachable) {line : Nat} {text : String}
    (h : (lang.readLine line text).1.isLabel = true) :
    (lang.readLine line text).1.parameters ≠ [] := by
  have hread := read_of_command (Or.inl h)
  have hexec := (proper_of_readLine hcat hread).1.executable_of_label h
  rcases readLine_cases hcat hread with haux | hcommand
  · rw [Statement.isAuxiliary_eq_false_of_isExecutable hexec] at haux
    cases haux
  obtain ⟨⟨d, hd⟩, -⟩ := isCommand_of_readCommand hcat hcommand
  have hid : d.id = CommandId.defineLabel := by
    simpa [Statement.isLabel, hd.commented_eq, hd.id?_eq] using h
  have hall : ∀ b ∈ Catalog.builtin.definitions, b.id = CommandId.defineLabel →
      b.kind = .standard ∧ b.parameters.length = 1 := by
    rw [Catalog.definitions_builtin]
    decide
  have hbuiltin : ∃ b ∈ Catalog.builtin.definitions, b.id = d.id := by
    rw [hid]
    exact Catalog.exists_builtin (by decide)
  obtain ⟨hkind, hlength⟩ := hall d (hcat.mem_builtin hd.mem_definitions hbuiltin) hid
  have hle := hd.length_parameters hkind
  intro hnil
  rw [hnil, hlength] at hle
  simp at hle

/-- A jump names its label, and it declares none. -/
theorem of_isLabelJump (hcat : lang.catalog.Reachable) {line : Nat} {text : String}
    (h : (lang.readLine line text).1.isLabelJump = true) :
    (lang.readLine line text).1.parameters ≠ [] ∧ (lang.readLine line text).1.isLabel = false := by
  have hproper := (proper_of_readLine hcat (read_of_command (Or.inr h))).1
  exact ⟨hproper.parameters_of_jump h, hproper.not_label_of_jump h⟩

/-! ### The table -/

/-- The symbol of a node is that of its line. -/
theorem symbolAt?_readLines {id : Nat} {s : Statement}
    (hstatement : (Script.readLines lang lines).tree.statement id = s) (hline : s.line = id)
    (hparameters : s.parameters ≠ []) :
    (Script.readLines lang lines).tree.symbolAt? id = some s.symbol := by
  obtain ⟨p, ps, heq⟩ := List.exists_cons_of_ne_nil hparameters
  simp [symbolAt?, hstatement, heq, Statement.symbol, Statement.label, hline]

/-- What a table lists of the nodes is what it lists of the lines. -/
theorem filterMap_readLines {f : Nat → Option Symbol} {p : Statement → Bool}
    (h : ∀ line text, (Script.readLines lang lines).tree.statement line
        = (lang.readLine line text).1 →
      f line = if p (lang.readLine line text).1 then some (lang.readLine line text).1.symbol
        else none) :
    (List.range' 1 ((Script.readLines lang lines).tree.size - 1)).filterMap f
      = ((lang.readings lines).filter p).map Statement.symbol := by
  rw [← List.filterMap_eq_map, List.filterMap_filter, ← map_statement_readLines,
    List.filterMap_map]
  refine List.filterMap_congr fun id hid => ?_
  have hbounds := List.mem_range'_1.mp hid
  obtain ⟨text, -, hstatement⟩ := Script.exists_line lang (show 0 < id by omega)
    (show id < (Script.readLines lang lines).tree.size by omega)
  rw [h id text hstatement, ← hstatement]
  rfl

/-- The table lists the declarations in the order of the lines. -/
theorem labels_readLines (hcat : lang.catalog.Reachable) (lines : List String) :
    (Script.readLines lang lines).tree.symbols.labels
      = (lang.declarations lines).map Statement.symbol := by
  rw [(indexed_readLines lang lines).labels_eq]
  refine filterMap_readLines fun line text hstatement => ?_
  rw [labelAt?, hstatement]
  split
  · next hlabel =>
    exact symbolAt?_readLines hstatement (lang.line_statement_readLine line text)
      (parameters_of_isLabel hcat hlabel)
  · rfl

/-- The table lists the jumps in the order of the lines. -/
theorem references_readLines (hcat : lang.catalog.Reachable) (lines : List String) :
    (Script.readLines lang lines).tree.symbols.references
      = (lang.labelJumps lines).map Statement.symbol := by
  rw [(indexed_readLines lang lines).references_eq]
  refine filterMap_readLines fun line text hstatement => ?_
  rw [jumpAt?, hstatement]
  cases hjump : (lang.readLine line text).1.isLabelJump with
  | false => simp
  | true =>
      obtain ⟨hparameters, hlabel⟩ := of_isLabelJump hcat hjump
      rw [hlabel, if_neg Bool.false_ne_true, if_pos rfl, if_pos rfl]
      exact symbolAt?_readLines hstatement (lang.line_statement_readLine line text) hparameters

/-- A label stands for the first line that declares it. -/
theorem declaration?_readLines (hcat : lang.catalog.Reachable) (lines : List String) (name : String) :
    (Script.readLines lang lines).tree.symbols.declaration? name
      = (lang.firstDeclaration? lines name).map Statement.symbol := by
  rw [SymbolTable.declaration?, labels_readLines hcat, List.find?_map]
  rfl

/-! ### What is found

A label is declared twice when an earlier line declares it. The first declaration is the one that
jumps are bound to. -/

/-- A jump is reported when no line declares its label. -/
theorem undefinedLabels_readLines (hcat : lang.catalog.Reachable) (lines : List String) :
    undefinedLabels (Script.readLines lang lines).tree.symbols
      = ((lang.labelJumps lines).filter
          fun s => (lang.firstDeclaration? lines s.label.text).isNone).map Statement.undefinedLabel := by
  rw [undefinedLabels, references_readLines hcat, List.filterMap_map, ← List.filterMap_eq_map,
    List.filterMap_filter]
  refine List.filterMap_congr fun s _ => ?_
  rw [Function.comp_apply, declaration?_readLines hcat,
    show s.symbol.name = s.label.text from rfl]
  cases lang.firstDeclaration? lines s.label.text <;> rfl

/-- Among the first of some lines, the first that passes a test is the first of all if it stands
there. -/
theorem find?_take_of_pairwise {ss : List Statement} (h : ss.Pairwise fun s s' => s.line < s'.line)
    (p : Statement → Bool) {i : Nat} {s : Statement} (hs : ss[i]? = some s) :
    (ss.take i).find? p = (ss.find? p).filter (·.line < s.line) := by
  obtain ⟨hlt, rfl⟩ := List.getElem?_eq_some_iff.mp hs
  have hsplit : ss.find? p = ((ss.take i).find? p).or ((ss.drop i).find? p) := by
    rw [← List.find?_append, List.take_append_drop]
  rw [← List.take_append_drop i ss, List.pairwise_append] at h
  obtain ⟨-, hdrop, hcross⟩ := h
  rw [List.drop_eq_getElem_cons hlt] at hdrop hcross
  rw [hsplit]
  cases hfirst : (ss.take i).find? p with
  | some first =>
      have hline := hcross first (List.mem_of_find?_eq_some hfirst) ss[i] List.mem_cons_self
      simp [Option.filter_some, hline]
  | none =>
      rw [Option.none_or]
      cases hlater : (ss.drop i).find? p with
      | none => rfl
      | some later =>
          have hmem := List.mem_of_find?_eq_some hlater
          rw [List.drop_eq_getElem_cons hlt] at hmem
          have hle : ss[i].line ≤ later.line := by
            rcases List.mem_cons.mp hmem with rfl | hrest
            · exact Nat.le_refl _
            · exact Nat.le_of_lt ((List.pairwise_cons.mp hdrop).1 later hrest)
          simp [Option.filter_some, Nat.not_lt.mpr hle]

/-- A declaration is reported when the first one of its label stands on an earlier line. -/
theorem duplicateLabels_readLines (hcat : lang.catalog.Reachable) (lines : List String) :
    duplicateLabels (Script.readLines lang lines).tree.symbols
      = (lang.declarations lines).filterMap fun s =>
          ((lang.firstDeclaration? lines s.label.text).filter (·.line < s.line)).map
            s.duplicateLabel := by
  have hpairwise : (lang.declarations lines).Pairwise fun s s' => s.line < s'.line :=
    (pairwise_readings lang lines).filter _
  rw [duplicateLabels, labels_readLines hcat, List.zipIdx_map, List.filterMap_map]
  conv => rhs; rw [← List.zipIdx_map_fst 0 (lang.declarations lines), List.filterMap_map]
  refine List.filterMap_congr fun x hx => ?_
  have hfind := find?_take_of_pairwise hpairwise (·.label.text == x.1.label.text)
    (List.mem_zipIdx_iff_getElem?.mp hx)
  show ((((lang.declarations lines).map Statement.symbol).take x.2).find?
    (·.name == x.1.label.text)).map _ = _
  rw [← List.map_take, List.find?_map, Option.map_map]
  exact congrArg (Option.map x.1.duplicateLabel) hfind

/-- A jump is bound to the first line that declares its label. -/
theorem target?_readLines (hcat : lang.catalog.Reachable) {s first : Statement}
    (hs : s ∈ lang.labelJumps lines)
    (hfirst : lang.firstDeclaration? lines s.label.text = some first) :
    (bindLabels (Script.readLines lang lines).tree.symbols).target? s.line = some first.line := by
  have hstatement := (statement_of_mem_readings (List.mem_filter.mp hs).1).2.2
  refine target?_bindLabels ⟨s.symbol, ?_, rfl⟩ ?_
  · rw [references_readLines hcat]
    exact List.mem_map_of_mem hs
  · intro r hr hnode
    rw [references_readLines hcat] at hr
    obtain ⟨s', hs', rfl⟩ := List.mem_map.mp hr
    -- a line has one statement, so this is the same jump
    have hsame := (statement_of_mem_readings (List.mem_filter.mp hs').1).2.2
    rw [show s'.line = s.line from hnode, hstatement] at hsame
    subst hsame
    refine ⟨first.symbol, ?_, rfl⟩
    rw [declaration?_readLines hcat, show s.symbol.name = s.label.text from rfl, hfirst,
      Option.map_some]

/-! ### What is reported

All that is found is reported, in the order of the lines. For each of the two kinds of problems this
is the order in which they are found. -/

/-- What is wrong with reading a line or with its place is not about labels. -/
theorem isLabel_of_isReading_or_isNesting {problem : Problem}
    (h : problem.isReading = true ∨ problem.isNesting = true) : problem.isLabel = false := by
  cases problem <;> first | rfl | (rcases h with h | h <;> cases h)

/-- Problems with labels are found nowhere but in the table. -/
theorem isLabel_eq_false {d : Diagnostic}
    (h : d ∈ (Script.readLines lang lines).diagnostics ∨
      d ∈ (Script.readLines lang lines).tree.preorder.flatMap
        (Script.readLines lang lines).tree.nodeProblems) : d.problem.isLabel = false := by
  rcases h with hline | hnode
  · exact isLabel_of_isReading_or_isNesting (Or.inl (Script.isReading_of_mem_diagnostics hline))
  · obtain ⟨id, -, hd⟩ := List.mem_flatMap.mp hnode
    obtain ⟨-, definition, -, hnesting | hstatement⟩ := of_mem_nodeProblems hd
    · exact isLabel_of_isReading_or_isNesting (Or.inr (isNesting_of_nestingProblem? hnesting))
    · obtain ⟨-, hproblem | ⟨_, hproblem⟩ | ⟨_, -, hproblem⟩⟩ := of_mem_statementProblems hstatement
      all_goals
        rw [hproblem]
        rfl

theorem filter_isUndefinedLabel (table : SymbolTable) :
    (duplicateLabels table ++ undefinedLabels table).filter (·.problem.isUndefinedLabel)
      = undefinedLabels table := by
  rw [List.filter_append, List.filter_eq_nil_iff.mpr, List.filter_eq_self.mpr, List.nil_append]
  · intro d hd
    obtain ⟨r, -, rfl⟩ := exists_reference_of_mem hd
    rfl
  · intro d hd
    obtain ⟨label, -, firstLine, rfl⟩ := exists_label_of_mem hd
    exact Bool.false_ne_true

theorem filter_isDuplicateLabel (table : SymbolTable) :
    (duplicateLabels table ++ undefinedLabels table).filter (·.problem.isDuplicateLabel)
      = duplicateLabels table := by
  rw [List.filter_append, List.filter_eq_self.mpr, List.filter_eq_nil_iff.mpr, List.append_nil]
  · intro d hd
    obtain ⟨r, -, rfl⟩ := exists_reference_of_mem hd
    exact Bool.false_ne_true
  · intro d hd
    obtain ⟨label, -, firstLine, rfl⟩ := exists_label_of_mem hd
    rfl

/-- What is reported about labels is what is found in the table, in the order of the lines. -/
theorem filter_diagnostics {out : Compiled} (hcompile : lang.compile lines = .ok out)
    (hclosed : (Script.readLines lang lines).isUnterminated = false) {p : Problem → Bool}
    (hp : ∀ problem, p problem = true → problem.isLabel = true)
    (hlisted : Diagnostic.Listed ((duplicateLabels (Script.readLines lang lines).tree.symbols
      ++ undefinedLabels (Script.readLines lang lines).tree.symbols).filter (p ·.problem))) :
    out.diagnostics.filter (p ·.problem)
      = (duplicateLabels (Script.readLines lang lines).tree.symbols
        ++ undefinedLabels (Script.readLines lang lines).tree.symbols).filter (p ·.problem) := by
  have none : ∀ ds : List Diagnostic, (∀ d ∈ ds, d.problem.isLabel = false) →
      ds.filter (p ·.problem) = [] := by
    intro ds hds
    refine List.filter_eq_nil_iff.mpr fun d hd htrue => ?_
    have hlabel := hp d.problem htrue
    rw [hds d hd] at hlabel
    cases hlabel
  have hblocks : (Script.readLines lang lines).blocks = [] := by
    simpa [Script.isUnterminated] using hclosed
  have hfound : ((Script.readLines lang lines).problems
      ++ (Script.readLines lang lines).tree.check.2).filter (p ·.problem)
        = (duplicateLabels (Script.readLines lang lines).tree.symbols
          ++ undefinedLabels (Script.readLines lang lines).tree.symbols).filter (p ·.problem) := by
    rw [Script.problems, hblocks, check, List.reverse_nil, List.map_nil, List.append_nil,
      List.filter_append, List.filter_append,
      none _ fun d hd => isLabel_eq_false (Or.inl hd),
      none (List.flatMap _ _) fun d hd => isLabel_eq_false (Or.inr hd), List.nil_append,
      List.append_nil]
  rw [diagnostics_of_compile hcompile, hclosed, if_neg Bool.false_ne_true,
    Diagnostic.filter_mergeSort (by rw [hfound]; exact hlisted), hfound]

/-- Compiling changes the tree of a script by binding its jumps and lowering it. -/
theorem keeps_of_compile {out : Compiled} (hcompile : lang.compile lines = .ok out)
    (hclosed : (Script.readLines lang lines).isUnterminated = false) :
    (Script.readLines lang lines).tree.check.1.Keeps out.tree := by
  unfold compile at hcompile
  dsimp only at hcompile
  rw [hclosed, if_neg Bool.false_ne_true] at hcompile
  split at hcompile
  · split at hcompile
    · next heq =>
      cases hcompile
      have hkeeps := keeps_lower lang (Script.readLines lang lines).tree.check.1
      rw [heq] at hkeeps
      exact hkeeps
    · cases hcompile
  · cases hcompile
    exact Keeps.refl _

/-- In a script whose blocks are ended, a jump is reported once if no line declares its label, and a
declaration is reported once, with the line of the first one, if an earlier line declares the same.
Every other jump is bound to the first line that declares its label, nodes being numbered like their
lines. -/
theorem compile_reports_labels (hcat : lang.catalog.Reachable)
    (hclosed : (Script.readLines lang lines).isUnterminated = false) :
    ∃ out, lang.compile lines = .ok out ∧
      out.diagnostics.filter (·.problem.isUndefinedLabel)
        = ((lang.labelJumps lines).filter
            fun s => (lang.firstDeclaration? lines s.label.text).isNone).map
              Statement.undefinedLabel ∧
      out.diagnostics.filter (·.problem.isDuplicateLabel)
        = ((lang.declarations lines).filterMap fun s =>
            ((lang.firstDeclaration? lines s.label.text).filter (·.line < s.line)).map
              s.duplicateLabel) ∧
      (∀ s ∈ lang.readings lines, out.tree.statement s.line = s) ∧
      ∀ s ∈ lang.labelJumps lines, ∀ first,
        lang.firstDeclaration? lines s.label.text = some first →
          out.tree.symbols.target? s.line = some first.line := by
  obtain ⟨out, hcompile, -⟩ := exists_compiled hcat lines
  have hkeeps := keeps_of_compile hcompile hclosed
  -- both reports are in the order of the lines already, so sorting keeps them as they are
  have hpairwise := pairwise_readings lang lines
  have hundefined := undefinedLabels_readLines hcat lines
  have hduplicate := duplicateLabels_readLines hcat lines
  refine ⟨out, hcompile, ?_, ?_, ?_, ?_⟩
  · rw [filter_diagnostics hcompile hclosed (p := Problem.isUndefinedLabel),
      filter_isUndefinedLabel, hundefined]
    · intro problem h
      simp [Problem.isLabel, h]
    · rw [filter_isUndefinedLabel, hundefined, Diagnostic.Listed, List.pairwise_map]
      exact ((hpairwise.filter _).filter _).imp Diagnostic.before_of_line_lt
  · rw [filter_diagnostics hcompile hclosed (p := Problem.isDuplicateLabel),
      filter_isDuplicateLabel, hduplicate]
    · intro problem h
      simp [Problem.isLabel, h]
    · rw [filter_isDuplicateLabel, hduplicate]
      refine (hpairwise.filter _).filterMap _ fun s s' hlt d hd e he => ?_
      obtain ⟨_, -, rfl⟩ := Option.map_eq_some_iff.mp hd
      obtain ⟨_, -, rfl⟩ := Option.map_eq_some_iff.mp he
      exact Diagnostic.before_of_line_lt hlt
  · intro s hs
    obtain ⟨-, hlt, hstatement⟩ := statement_of_mem_readings hs
    exact (hkeeps.statement_eq s.line hlt).trans hstatement
  · intro s hs first hfirst
    rw [hkeeps.symbols_eq]
    exact target?_readLines hcat hs hfirst

/-- A label that is declared twice, the second time in a block, and jumps ahead, into a `skip if`, and to
a label that is nowhere. -/
theorem compile_reports_labels_block :
    ∃ lines, lines = ["gosub a", "skip if $x", "a:", "if $x", "a:", "end", "goto b"] ∧
      Catalog.builtin.Reachable ∧
      (Script.readLines ⟨.builtin, .threat⟩ lines).isUnterminated = false ∧
      ∃ out, (⟨.builtin, .threat⟩ : Language).compile lines = .ok out ∧
        out.diagnostics.filter (·.problem.isUndefinedLabel)
          = (((⟨.builtin, .threat⟩ : Language).labelJumps lines).filter fun s =>
              ((⟨.builtin, .threat⟩ : Language).firstDeclaration? lines s.label.text).isNone).map
                Statement.undefinedLabel ∧
        out.diagnostics.filter (·.problem.isDuplicateLabel)
          = (((⟨.builtin, .threat⟩ : Language).declarations lines).filterMap fun s =>
              (((⟨.builtin, .threat⟩ : Language).firstDeclaration? lines s.label.text).filter
                (·.line < s.line)).map s.duplicateLabel) ∧
        (∀ s ∈ (⟨.builtin, .threat⟩ : Language).readings lines, out.tree.statement s.line = s) ∧
        ∀ s ∈ (⟨.builtin, .threat⟩ : Language).labelJumps lines, ∀ first,
          (⟨.builtin, .threat⟩ : Language).firstDeclaration? lines s.label.text = some first →
            out.tree.symbols.target? s.line = some first.line :=
  have hclosed : (Script.readLines ⟨.builtin, .threat⟩
      ["gosub a", "skip if $x", "a:", "if $x", "a:", "end", "goto b"]).isUnterminated = false := by
    decide +kernel
  ⟨_, rfl, .builtin, hclosed, compile_reports_labels .builtin hclosed⟩

end Language

end MissionScript
