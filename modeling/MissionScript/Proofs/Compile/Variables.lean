import MissionScript.Proofs.Compile.Written
import MissionScript.Proofs.Lowering.Interning
import MissionScript.Proofs.Statement.Variables

/-!
# MissionScript.Proofs.Compile.Variables

The variables of a compiled script.

A command stands for the statement of its line (`Language.sourceStatement?`), except the `return` and the
hidden jumps that are added; those have no variables. So the table is made of the names that the
statements of the commands use, and a position in it leads to the name that is written on the line. The
main result is `compile_numbers_variables`.

The table is built while commands are written down (`MissionScript.Proofs.Lowering.Interning`), from
the statements of the nodes. Here these statements are replaced by the lines: which statement a
command stands for can be told from the line of the command, and so the result does not mention the
tree.
-/

namespace MissionScript

namespace Language

open MissionScript.Tree

/-! ### Statements

The parameters of an expression are compiled in the order in which it is evaluated, those of all
other commands as they are. Either way, whatever is a variable is one on the line. -/

section

variable {lang : Language} {condition : Conditional} {ts : List Token} {line : Nat} {text : String}
  {s : Statement}

/-- Other commands than expressions are compiled as they are. -/
theorem emitted_of_ne {s : Statement} (h : s.kind? ≠ some .expression) : s.emitted = s.parameters :=
  if_neg h

/-- Only variables have a name. -/
theorem varName?_eq_none {p : Parameter} (h : p.dataType ≠ .var) : p.varName? = none := by
  cases hname : p.varName? with
  | none => rfl
  | some name => exact absurd (dataType_of_varName? hname) h

/-- A variable is not accepted as the label of a jump. -/
theorem varName?_of_accepts {p : Parameter} (h : p.slot.type.accepts p.dataType = true)
    (htype : p.slot.type = .labelNumber) : p.varName? = none := by
  refine varName?_eq_none ?_
  intro hvar
  rw [htype, hvar] at h
  cases h

/-- The variables of a line are tokens of it, and they label no jump when nothing is wrong with the
parameters. -/
theorem sourced_of_readCommand (hcat : lang.catalog.Reachable)
    (h : lang.readCommand condition ts line text = .ok s) {d : Definition} (hd : s.command = some d) :
    (∀ p ∈ s.emitted, p.Sourced ts) ∧ (statementProblems s d = [] → s.KeepsLabels) := by
  have hkind : s.kind? = some d.kind := by rw [Statement.kind?, hd, Option.map_some]
  rcases (readCommand_cases h).2 with ⟨found, shaped, arguments, hread⟩ | ⟨e, target, hread⟩ |
    ⟨e, before, target, hread⟩
  · obtain rfl := Option.some.inj (hread.command_eq.symm.trans hd)
    rw [hread.kind_eq.2] at hkind
    rw [emitted_of_ne (by simp [hkind]), hread.tokens_eq]
    refine ⟨sourced_bindParameters hread.parameters_eq, ?_⟩
    intro hproblems _ p hp htype
    have hchecked := (of_statementProblems hproblems).2
    rw [checkedParameters, hread.kind_eq.2] at hchecked
    exact varName?_of_accepts (hchecked p hp) htype
  · obtain rfl := Option.some.inj (hread.command_eq.symm.trans hd)
    rw [(hread.builtin hcat).2.2.1] at hkind
    rw [Statement.emitted, if_pos hkind]
    exact ⟨hread.sourced, fun _ hne => absurd hkind hne⟩
  · obtain rfl := Option.some.inj (hread.command_eq.symm.trans hd)
    rw [(hread.builtin hcat).2.2.1] at hkind
    obtain ⟨word, after, hsplit⟩ := hread.splitCall_eq
    obtain ⟨c, hwrites, hcall⟩ :=
      (readScriptCall_eq_ok_iff hcat hsplit).mp (readScriptCall_of_readCommand hsplit h)
    have hsourced := hcall.sourced hwrites
    rw [emitted_of_ne (by simp [hkind])]
    exact ⟨fun p hp => (hsourced p hp).1, fun _ _ p hp htype => absurd htype (hsourced p hp).2⟩

end

/-- What is added has no variables. -/
theorem varName?_of_added {lang : Language} (hcat : lang.catalog.Reachable) {s : Statement} {line : Nat}
    (h : IsAddedReturn lang s line ∨ IsAddedJump lang s line) :
    s.emitted = s.parameters ∧ ∀ p ∈ s.parameters, p.dataType ≠ .var := by
  constructor
  · refine emitted_of_ne ?_
    intro hkind
    obtain ⟨d, hd, hkind⟩ := Option.map_eq_some_iff.mp hkind
    rw [kind_of_added hcat h hd] at hkind
    cases hkind
  · rcases h with ⟨d, slot, -, -, rfl⟩ | ⟨d, slot, -, -, rfl⟩ <;>
      exact List.forall_mem_singleton.mpr DataType.noConfusion

/-! ### Commands -/

/-- The statement of the line that a command stands for. A hidden jump stands for none, and the `return`
that is added stands behind the last line. -/
def sourceStatement? (lang : Language) (lines : List String) (c : Command) : Option Statement :=
  if c.id = CommandId.hiddenJump then none
  else lines[c.line - 1]?.map fun text => (lang.readLine c.line text).1

namespace Emits

variable {lang : Language} {lines : List String} {t₁ t₂ t₃ : Tree} {r : Nat} {code : Code}

/-- A node that is executed has been read from its line, or it has been added and has no variables. -/
theorem variables_cases (hcat : lang.catalog.Reachable) (h : lang.Emits lines t₁ t₂ t₃ r code)
    {id : Nat} (hid : id ∈ t₃.executables) :
    (∃ text, (t₃.statement id).line = id ∧ lines[id - 1]? = some text ∧
      t₃.statement id = (lang.readLine id text).1 ∧
      (t₃.statement id).id? ≠ some CommandId.hiddenJump ∧ (t₃.statement id).KeepsLabels ∧
      ∀ p ∈ (t₃.statement id).emitted, p.Sourced (tokens text)) ∨
    ((t₃.statement id).emitted = (t₃.statement id).parameters ∧
      (∀ p ∈ (t₃.statement id).parameters, p.dataType ≠ .var) ∧
      ((t₃.statement id).line = lines.length + 1 ∨
        (t₃.statement id).id? = some CommandId.hiddenJump)) := by
  obtain ⟨hpos, hlt⟩ := (mem_preorder_iff h.steps.sound).mp (List.mem_filter.mp hid).1
  rcases h.node_cases hpos hlt with ⟨hold, hline⟩ | ⟨-, -, hreturn⟩ | ⟨-, line, -, hjump⟩
  · left
    obtain ⟨text, htext, hread⟩ := h.readCommand_eq hcat hid hold hpos
    obtain ⟨text', htext', -, hstatement⟩ := h.exists_line hpos hold
    obtain rfl := Option.some.inj (htext.symm.trans htext')
    obtain ⟨⟨d, hd⟩, -⟩ := isCommand_of_readCommand hcat hread
    obtain ⟨hsourced, hlabels⟩ := sourced_of_readCommand hcat hread hd.command_eq
    -- the check has found nothing wrong with the statement
    have hproblems : statementProblems (t₃.statement id) d = [] := by
      have hcommand := hd.command_eq
      have hcommented := hd.commented_eq
      rw [h.statement_eq hold] at hcommand hcommented ⊢
      exact statementProblems_of_check h.checked
        ((mem_preorder_iff h.sane.nested.sound).mpr ⟨hpos, hold⟩) hcommand hcommented
    refine ⟨text, hline, htext, hstatement, ?_, hlabels hproblems, ?_⟩
    · rw [Statement.id?, hd.command_eq, Option.map_some]
      exact fun heq => hd.id_ne_hiddenJump (Option.some.inj heq)
    · intro p hp hvar
      obtain ⟨t, ht, htoken⟩ := hsourced p hp hvar
      exact ⟨t, mem_tokens_of_mem_commandTokens ht, htoken⟩
  · obtain ⟨hemitted, hnone⟩ := varName?_of_added hcat (Or.inl hreturn)
    exact Or.inr ⟨hemitted, hnone, Or.inl (of_isAddedReturn hreturn).1⟩
  · obtain ⟨hemitted, hnone⟩ := varName?_of_added hcat (Or.inr hjump)
    exact Or.inr ⟨hemitted, hnone, Or.inr (of_isAddedJump hjump).2⟩

theorem keepsLabels (hcat : lang.catalog.Reachable) (h : lang.Emits lines t₁ t₂ t₃ r code) {id : Nat}
    (hid : id ∈ t₃.executables) : (t₃.statement id).KeepsLabels := by
  rcases h.variables_cases hcat hid with ⟨text, -, -, -, -, hlabels, -⟩ | ⟨-, hnone, -⟩
  · exact hlabels
  · exact fun _ p hp _ => varName?_eq_none (hnone p hp)

/-- The statement of a node is that of the line of its command, or there is none and it has no
variables. -/
theorem source_cases (hcat : lang.catalog.Reachable) (h : lang.Emits lines t₁ t₂ t₃ r code) {id : Nat}
    (hid : id ∈ t₃.executables) {c : Command} (hc : t₃.Encodes t₃.layout c id) :
    (∃ text, lines[c.line - 1]? = some text ∧
      lang.sourceStatement? lines c = some (t₃.statement id) ∧
      ∀ p ∈ (t₃.statement id).emitted, p.Sourced (tokens text)) ∨
    (lang.sourceStatement? lines c = none ∧
      ∀ p ∈ (t₃.statement id).emitted, p.dataType ≠ .var) := by
  rw [sourceStatement?, hc.line_eq]
  have hcid := hc.id?_eq
  rcases h.variables_cases hcat hid with
    ⟨text, hline, htext, hstatement, hne, -, hsourced⟩ | ⟨hemitted, hnone, hadded⟩
  · left
    rw [hcid] at hne
    rw [hline, if_neg fun heq => hne (congrArg some heq), htext]
    exact ⟨text, rfl, congrArg some hstatement.symm, hsourced⟩
  · right
    rw [hemitted]
    refine ⟨?_, hnone⟩
    rcases hadded with hline | hjump
    · rw [hline, Nat.add_sub_cancel, List.getElem?_eq_none (Nat.le_refl _), Option.map_none, ite_self]
    · rw [hcid] at hjump
      rw [if_pos (Option.some.inj hjump)]

/-- The names that the nodes use are those of the statements that the commands stand for. -/
theorem flatMap_varNames (hcat : lang.catalog.Reachable) (h : lang.Emits lines t₁ t₂ t₃ r code) :
    (t₃.executables.flatMap fun id => (t₃.statement id).varNames)
      = (code.commands.filterMap (lang.sourceStatement? lines)).flatMap Statement.varNames := by
  have each : ∀ {cs : List Command} {ids : List Nat}, List.Forall₂ (t₃.Encodes t₃.layout) cs ids →
      (∀ id ∈ ids, id ∈ t₃.executables) →
      (ids.flatMap fun id => (t₃.statement id).varNames)
        = (cs.filterMap (lang.sourceStatement? lines)).flatMap Statement.varNames := by
    intro cs ids hcs
    induction hcs with
    | nil => exact fun _ => rfl
    | @cons c id cs ids hc hcs ih =>
        intro hids
        obtain ⟨hid, hids⟩ := List.forall_mem_cons.mp hids
        rw [List.flatMap_cons, ih hids]
        rcases h.source_cases hcat hid hc with ⟨text, -, hsource, -⟩ | ⟨hsource, hnone⟩
        · rw [List.filterMap_cons_some hsource, List.flatMap_cons]
        · have hnames : (t₃.statement id).varNames = [] :=
            List.filterMap_eq_nil_iff.mpr fun p hp => varName?_eq_none (hnone p hp)
          rw [List.filterMap_cons_none hsource, hnames, List.nil_append]
  rw [h.code_eq]
  exact each (encodes_emit t₃) fun _ hid => hid

end Emits

/-- The variables of a compiled script are numbered by where they come first: the table is the names
that the statements of its commands use, without those that have come before. Every parameter that is a
variable holds the position of the name that stands behind the dollar sign on its line. -/
theorem compile_numbers_variables {lang : Language} (hcat : lang.catalog.Reachable)
    {lines : List String} {out : Compiled} {code : Code} (hcompile : lang.compile lines = .ok out)
    (hcode : out.code = some code) (hlength : code.vars.length < 0x80000000) :
    code.vars.Nodup ∧
      code.vars = ((code.commands.filterMap (lang.sourceStatement? lines)).flatMap
        Statement.varNames).eraseDups ∧
      ∀ c ∈ code.commands, ∀ (k : Nat) (q : CodeParameter), c.parameters[k]? = some q →
        q.dataType = .var → ∃ (text name : String) (s : Statement) (p : Parameter) (t : Token) (i : Nat),
          lines[c.line - 1]? = some text ∧ lang.sourceStatement? lines c = some s ∧
          s.emitted[k]? = some p ∧ p.varName? = some name ∧
          t ∈ tokens text ∧ t.kind = .var ∧ t.text = "$" ++ name ∧
          (p.text, p.start, p.stop) = (t.text, t.start, t.stop) ∧
          q.value = .int i ∧ i < code.vars.length ∧ code.vars[i]? = some name := by
  obtain ⟨t₁, t₂, t₃, r, hemits⟩ := emits_of_code hcat hcompile hcode
  have hvars : code.vars = ((code.commands.filterMap (lang.sourceStatement? lines)).flatMap
      Statement.varNames).eraseDups := by
    rw [← hemits.flatMap_varNames hcat, ← vars_emit fun id hid => hemits.keepsLabels hcat hid,
      ← hemits.code_eq]
  refine ⟨by rw [hvars]; exact nodup_eraseDups _, hvars, ?_⟩
  intro c hc k q hq hvar
  rw [hemits.code_eq] at hc hlength ⊢
  obtain ⟨⟨id, position⟩, hx, hemitted⟩ := exists_emitted hc
  have hid : id ∈ t₃.executables :=
    List.mem_filter.mpr ⟨mem_preorder_of_mem_positions hx, hemitted.executable⟩
  -- the command stands for its line, or has been added and then has no variables
  have hsource := hemits.source_cases hcat hid hemitted.encodes
  have hnames : ∀ p ∈ (t₃.statement id).emitted, p.dataType = .var → ∃ name, p.varName? = some name := by
    intro p hp htype
    rcases hsource with ⟨text, -, -, hsourced⟩ | ⟨-, hnone⟩
    · obtain ⟨t, name, -, -, -, hname, -⟩ := (hsourced p hp).exists_name htype
      exact ⟨name, hname⟩
    · exact absurd htype (hnone p hp)
  obtain ⟨p, name, i, hp, hname, hvalue, hi⟩ := hemitted.exists_name hnames hq hvar
  have hi' := (List.getElem?_eq_some_iff.mp hi).1
  have hmem := List.mem_of_getElem? hp
  have htype := dataType_of_varName? hname
  rcases hsource with ⟨text, htext, hsource, hsourced⟩ | ⟨-, hnone⟩
  · obtain ⟨t, name', ht, hkind, hwritten, hname', hextent⟩ := (hsourced p hmem).exists_name htype
    obtain rfl := Option.some.inj (hname.symm.trans hname')
    rw [Number.ofCount_of_lt (by omega)] at hvalue
    exact ⟨text, name, _, p, t, i, htext, hsource, hp, hname, ht, hkind, hwritten, hextent, hvalue,
      hi', hi⟩
  · exact absurd htype (hnone p hmem)

/-- Names that come again, in an expression and in branches with a hidden jump between them. The name in
the commented command is not in the table. -/
theorem compile_numbers_variables_branches :
    Catalog.builtin.Reachable ∧
      ∃ lines, lines = ["* $z = 9", "$x = ($a + 1) * $a", "if $b", "$y = $x", "else", "$a = 2", "end"] ∧
      ∃ out code, (⟨.builtin, .threat⟩ : Language).compile lines = .ok out ∧ out.code = some code ∧
        code.vars.length < 0x80000000 ∧ code.vars = ["x", "a", "b", "y"] ∧ code.vars.Nodup ∧
        code.vars = ((code.commands.filterMap ((⟨.builtin, .threat⟩ : Language).sourceStatement?
          lines)).flatMap Statement.varNames).eraseDups ∧
        ∃ c ∈ code.commands, c.parameters = [⟨.var, .int 0⟩, ⟨.var, .int 1⟩, ⟨.integer, .int 1⟩,
            ⟨.operator, .int 11⟩, ⟨.var, .int 1⟩, ⟨.operator, .int 13⟩] ∧
          ∃ (text name : String) (t : Token) (i : Nat), lines[c.line - 1]? = some text ∧
            t ∈ tokens text ∧ t.text = "$" ++ name ∧ i = 1 ∧ code.vars[i]? = some name := by
  obtain ⟨out, code, hcompile, hcode, hany⟩ := exists_code_of_any ⟨.builtin, .threat⟩
    ["* $z = 9", "$x = ($a + 1) * $a", "if $b", "$y = $x", "else", "$a = 2", "end"]
    (fun code => code.vars == ["x", "a", "b", "y"] &&
      code.commands.any fun c => c.parameters == [⟨.var, .int 0⟩, ⟨.var, .int 1⟩, ⟨.integer, .int 1⟩,
        ⟨.operator, .int 11⟩, ⟨.var, .int 1⟩, ⟨.operator, .int 13⟩]) (by decide +kernel)
  simp only [Bool.and_eq_true, beq_iff_eq, List.any_eq_true] at hany
  obtain ⟨hvars, c, hc, hparameters⟩ := hany
  have hlength : code.vars.length < 0x80000000 := by rw [hvars]; decide
  obtain ⟨hnodup, hnames, hpositions⟩ := compile_numbers_variables .builtin hcompile hcode hlength
  obtain ⟨text, name, s, p, t, i, htext, -, -, -, ht, -, hwritten, -, hvalue, -, hi⟩ :=
    hpositions c hc 1 ⟨.var, .int 1⟩ (by rw [hparameters]; rfl) rfl
  refine ⟨.builtin, _, rfl, out, code, hcompile, hcode, hlength, hvars, hnodup, hnames, c, hc, hparameters,
    text, name, t, i, htext, ht, hwritten, ?_, hi⟩
  cases hvalue
  rfl

end Language

end MissionScript
