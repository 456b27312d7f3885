import MissionScript.Proofs.Compile.Written
import MissionScript.Proofs.Lowering.Interlacing

/-!
# MissionScript.Proofs.Compile.SourceOrder

The written order of a compiled expression gives the expression back.

Expressions are never recognised by their shape, so a command of that kind comes from a line that has
been read as one (`Emits.exists_parse`), and its written order is that of the source
(`compile_rebuilds`).
-/

namespace MissionScript

/-- The operands, operators and brackets of the expression on a line, in the order of the source. -/
def sourceOf? (text : String) : Option (List (DataType × Value)) :=
  Expression.source? true
    (Expression.grammarTokens (Language.operandTokens (conditionOf text) (commandTokens text)))

namespace Language

open MissionScript.Tree

/-- A line that stands for an expression has been read as one. -/
theorem exists_parse_of_readCommand {lang : Language} (hcat : lang.catalog.Reachable)
    {condition : Conditional} {ts : List Token} {line : Nat} {text : String} {s : Statement}
    (h : lang.readCommand condition ts line text = .ok s) {d : Definition} (hd : s.command = some d)
    (hkind : d.kind = .expression) :
    ∃ target found, Expression.parse (operandTokens condition ts) 1 = .ok found ∧
      s.parameters = target :: found.written ∧ s.evaluated = found.evaluated := by
  rcases (readCommand_cases h).2 with ⟨found, shaped, arguments, hread⟩ | ⟨e, target, hread⟩ |
    ⟨e, before, target, hread⟩
  · obtain rfl := Option.some.inj (hread.command_eq.symm.trans hd)
    rw [hread.kind_eq.2] at hkind
    cases hkind
  · exact ⟨target, hread.parsed⟩
  · obtain rfl := Option.some.inj (hread.command_eq.symm.trans hd)
    rw [(hread.builtin hcat).2.2.1] at hkind
    cases hkind

namespace Emits

variable {lang : Language} {lines : List String} {t₁ t₂ t₃ : Tree} {r : Nat} {code : Code}

/-- An expression that is executed stands on a line, which has been read as one. -/
theorem exists_parse (hcat : lang.catalog.Reachable) (h : lang.Emits lines t₁ t₂ t₃ r code) {id : Nat}
    (hid : id ∈ t₃.executables) {d : Definition} (hd : (t₃.statement id).command = some d)
    (hkind : d.kind = .expression) :
    ∃ text target found, lines[(t₃.statement id).line - 1]? = some text ∧
      Expression.parse (operandTokens (conditionOf text) (commandTokens text)) 1 = .ok found ∧
      (t₃.statement id).parameters = target :: found.written ∧
      (t₃.statement id).evaluated = found.evaluated := by
  obtain ⟨hpos, hlt⟩ := (mem_preorder_iff h.steps.sound).mp (List.mem_filter.mp hid).1
  rcases h.node_cases hpos hlt with ⟨hold, hline⟩ | ⟨-, -, hreturn⟩ | ⟨-, line, -, hjump⟩
  · obtain ⟨text, htext, hread⟩ := h.readCommand_eq hcat hid hold hpos
    obtain ⟨target, found, hparse, hparameters, hevaluated⟩ :=
      exists_parse_of_readCommand hcat hread hd hkind
    rw [hline]
    exact ⟨text, target, found, htext, hparse, hparameters, hevaluated⟩
  · rw [kind_of_added hcat (Or.inl hreturn) hd] at hkind
    cases hkind
  · rw [kind_of_added hcat (Or.inr hjump) hd] at hkind
    cases hkind

end Emits

/-- The written order of a compiled expression gives the operands, operators and brackets of its line
back, and refers to each of its operands once. -/
theorem compile_rebuilds {lang : Language} (hcat : lang.catalog.Reachable) {lines : List String}
    {out : Compiled} {code : Code} (hcompile : lang.compile lines = .ok out)
    (hcode : out.code = some code) {c : Command} (hc : c ∈ code.commands)
    (hkind : c.kind = .expression) (hlength : c.parameters.length < 0x80000000) :
    ∃ text source, lines[c.line - 1]? = some text ∧ sourceOf? text = some source ∧
      c.Rebuilds code.vars source := by
  obtain ⟨t₁, t₂, t₃, r, hemits⟩ := emits_of_code hcat hcompile hcode
  rw [hemits.code_eq] at hc
  obtain ⟨⟨id, position⟩, hx, hexec, -, hencodes, d, before, hd, hequal, hvars⟩ := exists_emitted hc
  have hid : id ∈ t₃.executables := List.mem_filter.mpr ⟨mem_preorder_of_mem_positions hx, hexec⟩
  have hdkind : d.kind = .expression := by
    obtain ⟨e, vars, he, -, hekind, -⟩ := hencodes.statement_eq
    obtain rfl := Option.some.inj (hd.symm.trans he)
    rw [← hekind, hkind]
  obtain ⟨text, target, found, htext, hparse, hparameters, hevaluated⟩ :=
    hemits.exists_parse hcat hid hd hdkind
  rw [hdkind] at hequal hvars
  obtain ⟨source, hsource, hrebuilds⟩ :=
    rebuilds_of_parse hparse hparameters hevaluated hequal hvars hlength
  rw [hencodes.line_eq, hemits.code_eq]
  exact ⟨text, source, htext, hsource, hrebuilds⟩

/-- Brackets, signs of both kinds, a negative number that is split, and variables that come again. -/
theorem compile_rebuilds_split :
    Catalog.builtin.Reachable ∧ ∃ lines, lines = ["$b = 5", "if !($a - -3) * $b -3 OR $a", "end"] ∧
      ∃ out code c source, (⟨.builtin, .threat⟩ : Language).compile lines = .ok out ∧
        out.code = some code ∧ c ∈ code.commands ∧ c.kind = .expression ∧
        c.parameters.length < 0x80000000 ∧ c.line = 2 ∧
        c.written = [17, 19, -1, 12, -2, 20, 13, -5, 12, -7, 0, -9] ∧
        sourceOf? "if !($a - -3) * $b -3 OR $a" = some source ∧ c.Rebuilds code.vars source := by
  obtain ⟨out, code, hcompile, hcode, hany⟩ := exists_code_of_any ⟨.builtin, .threat⟩
    ["$b = 5", "if !($a - -3) * $b -3 OR $a", "end"]
    (fun code => code.commands.any fun c => c.line == 2 && c.kind == .expression &&
      c.parameters.length < 0x80000000 &&
      c.written == [17, 19, -1, 12, -2, 20, 13, -5, 12, -7, 0, -9]) (by decide +kernel)
  obtain ⟨c, hc, hfound⟩ := List.any_eq_true.mp hany
  simp only [Bool.and_eq_true, beq_iff_eq, decide_eq_true_eq] at hfound
  obtain ⟨⟨⟨hline, hkind⟩, hlength⟩, hwritten⟩ := hfound
  obtain ⟨text, source, htext, hsource, hrebuilds⟩ :=
    compile_rebuilds .builtin hcompile hcode hc hkind hlength
  rw [hline] at htext
  cases htext
  exact ⟨.builtin, _, rfl, out, code, c, source, hcompile, hcode, hc, hkind, hlength, hline, hwritten,
    hsource, hrebuilds⟩

end Language

end MissionScript
