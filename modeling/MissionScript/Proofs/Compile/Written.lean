import MissionScript.Proofs.Compile.Emission
import MissionScript.Proofs.Statement.Conditions
import MissionScript.Proofs.Statement.Recognition

/-!
# MissionScript.Proofs.Compile.Written

The commands of a compiled script that stand for a line.

`Written` gathers what is known of such a command: the line could be read, nothing is wrong with its
parameters, and the command holds them. Every command is written, or it is the added `return` or a
hidden jump (`Emits.written_cases`).
-/

namespace MissionScript

namespace Tree

/-! ### Nothing is wrong -/

theorem of_statementProblems {s : Statement} {d : Definition} (h : statementProblems s d = []) :
    allowsCondition d s.condition = true ∧
      ∀ p ∈ checkedParameters s d, p.slot.type.accepts p.dataType = true := by
  obtain ⟨hcondition, -, htypes⟩ := statementProblems_eq_nil_iff.mp h
  exact ⟨hcondition, htypes⟩

theorem statementProblems_of_check {t : Tree} (h : t.check.2 = []) {id : Nat} (hid : id ∈ t.preorder)
    {d : Definition} (hcommand : (t.statement id).command = some d)
    (hcommented : (t.statement id).commented = false) :
    statementProblems (t.statement id) d = [] := by
  obtain ⟨-, hnodes⟩ := List.append_eq_nil_iff.mp h
  have hnode := List.flatMap_eq_nil_iff.mp hnodes id hid
  rw [nodeProblems, hcommand] at hnode
  dsimp only at hnode
  rw [hcommented, if_neg Bool.false_ne_true] at hnode
  exact (List.append_eq_nil_iff.mp hnode).2

end Tree

namespace Language

open MissionScript.Tree

/-- The command stands for a line, which has been read as `s`. -/
structure Written (lang : Language) (lines : List String) (c : Command) (text : String)
    (s : Statement) (d : Definition) : Prop where
  text_eq : lines[c.line - 1]? = some text
  read : lang.readCommand (conditionOf text) (commandTokens text) c.line text = .ok s
  command_eq : s.command = some d
  id_eq : c.id = d.id
  kind_eq : c.kind = d.kind
  parameters_eq : ∃ vars, c.parameters = (encodeStatement c.jump vars s d.kind).2.1
  checked : statementProblems s d = []

/-- The line has been recognised by its shape, or it is an expression or a script call. -/
theorem Written.cases {lang : Language} {lines : List String} {c : Command} {text : String}
    {s : Statement} {d : Definition} (h : lang.Written lines c text s d) :
    (∃ found shaped arguments, found.definition = d ∧
      lang.Recognised (conditionOf text) (commandTokens text) s found shaped arguments) ∨
    (∃ target, lang.ReadExpression (conditionOf text) (commandTokens text) s d target) ∨
    ∃ before target, lang.ReadCall (conditionOf text) (commandTokens text) s d before target := by
  rcases (readCommand_cases h.read).2 with ⟨found, shaped, arguments, hread⟩ |
    ⟨e, target, hread⟩ | ⟨e, before, target, hread⟩
  · exact Or.inl ⟨found, shaped, arguments,
      Option.some.inj (hread.command_eq.symm.trans h.command_eq), hread⟩
  · obtain rfl : e = d := Option.some.inj (hread.command_eq.symm.trans h.command_eq)
    exact Or.inr (Or.inl ⟨target, hread⟩)
  · obtain rfl : e = d := Option.some.inj (hread.command_eq.symm.trans h.command_eq)
    exact Or.inr (Or.inr ⟨before, target, hread⟩)

/-- What lowering adds is no expression. -/
theorem kind_of_added {lang : Language} (hcat : lang.catalog.Reachable) {s : Statement} {line : Nat}
    (h : IsAddedReturn lang s line ∨ IsAddedJump lang s line) {d : Definition}
    (hd : s.command = some d) : d.kind = .standard := by
  rcases h with ⟨e, slot, hfind, -, rfl⟩ | ⟨e, slot, hfind, -, rfl⟩
  · cases hd
    obtain ⟨hmem, hid, -⟩ := Catalog.of_find? hfind
    have hbuiltin := hcat.mem_builtin hmem (Catalog.exists_builtin (by rw [hid]; decide))
    exact ((parameters_builtin d hbuiltin).2.2.1 hid).1
  · cases hd
    obtain ⟨hmem, hid, -⟩ := Catalog.of_find? hfind
    have hbuiltin := hcat.mem_builtin hmem (Catalog.exists_builtin (by rw [hid]; decide))
    exact ((parameters_builtin d hbuiltin).2.2.2 (by rw [hid]; decide)).1

/-- Look-up gives the command that the line stands for. -/
theorem Written.find?_eq {lang : Language} (hcat : lang.catalog.Reachable) {lines : List String}
    {c : Command} {text : String} {s : Statement} {d : Definition}
    (h : lang.Written lines c text s d) : lang.find? c.id = some d := by
  rw [h.id_eq]
  rcases h.cases with ⟨found, shaped, arguments, rfl, hread⟩ | ⟨target, hread⟩ |
    ⟨before, target, hread⟩
  · obtain ⟨hmem, hsupports, -, -⟩ := hread.of_candidate
    exact hcat.find?_of_mem hmem hsupports
  · exact (hread.builtin hcat).2.1
  · exact (hread.builtin hcat).2.1

namespace Emits

variable {lang : Language} {lines : List String} {t₁ t₂ t₃ : Tree} {r : Nat} {code : Code}

/-- What a line that is executed has been read as. -/
theorem readCommand_eq (hcat : lang.catalog.Reachable) (h : lang.Emits lines t₁ t₂ t₃ r code)
    {id : Nat} (hid : id ∈ t₃.executables) (hlt : id < (Script.readLines lang lines).tree.size)
    (hpos : 0 < id) :
    ∃ text, lines[id - 1]? = some text ∧
      lang.readCommand (conditionOf text) (commandTokens text) id text = .ok (t₃.statement id) := by
  obtain ⟨text, htext, hread, hstatement⟩ := h.exists_line hpos hlt
  have hexec := (List.mem_filter.mp hid).2
  refine ⟨text, htext, ?_⟩
  rw [hstatement]
  refine (readLine_cases hcat hread).resolve_left ?_
  rw [← hstatement, Statement.isAuxiliary_eq_false_of_isExecutable hexec]
  exact Bool.false_ne_true

/-- A command with the number of a line stands for it. -/
theorem written (hcat : lang.catalog.Reachable) (h : lang.Emits lines t₁ t₂ t₃ r code) {c : Command}
    {id : Nat} (hid : id ∈ t₃.executables) (hc : t₃.Encodes t₃.layout c id)
    (hlt : id < (Script.readLines lang lines).tree.size) (hpos : 0 < id) (hline : c.line = id) :
    ∃ text d, lang.Written lines c text (t₃.statement id) d := by
  obtain ⟨text, htext, hcommand⟩ := h.readCommand_eq hcat hid hlt hpos
  obtain ⟨⟨e, he⟩, -⟩ := isCommand_of_readCommand hcat hcommand
  obtain ⟨d, vars, hd, hcid, hkind, hparameters⟩ := hc.statement_eq
  refine ⟨text, d, ?_, ?_, hd, hcid, hkind, ⟨vars, hparameters⟩, ?_⟩
  · rw [hline]
    exact htext
  · rw [hline]
    exact hcommand
  · have hcommented := he.commented_eq
    rw [h.statement_eq hlt] at hd hcommented ⊢
    exact statementProblems_of_check h.checked
      ((mem_preorder_iff h.sane.nested.sound).mpr ⟨hpos, hlt⟩) hd hcommented

/-- Every command stands for a line, or it is the added `return`, or a hidden jump. -/
theorem written_cases (hcat : lang.catalog.Reachable) (h : lang.Emits lines t₁ t₂ t₃ r code)
    {c : Command} (hc : c ∈ code.commands) :
    (∃ text s d, lang.Written lines c text s d) ∨
      ∃ s d vars, c.id = d.id ∧ c.kind = d.kind ∧ s.command = some d ∧
        c.parameters = (encodeStatement c.jump vars s d.kind).2.1 ∧
        (IsAddedReturn lang s c.line ∨ IsAddedJump lang s c.line) := by
  obtain ⟨id, hid, hencodes, hcases⟩ := h.command_cases hc
  rcases hcases with ⟨hlt, hpos, hline⟩ | ⟨-, -, -, hreturn⟩ | ⟨-, -, hadded⟩
  · obtain ⟨text, d, hwritten⟩ := h.written hcat hid hencodes hlt hpos hline
    exact Or.inl ⟨text, _, d, hwritten⟩
  · obtain ⟨d, vars, hd, hcid, hkind, hparameters⟩ := hencodes.statement_eq
    exact Or.inr ⟨_, d, vars, hcid, hkind, hd, hparameters, Or.inl hreturn⟩
  · obtain ⟨d, vars, hd, hcid, hkind, hparameters⟩ := hencodes.statement_eq
    exact Or.inr ⟨_, d, vars, hcid, hkind, hd, hparameters, Or.inr hadded⟩

end Emits

end Language

end MissionScript
