import MissionScript.Proofs.Compile.Emission
import MissionScript.Proofs.Statement.Conditions

/-!
# MissionScript.Proofs.Compile.WellFormed

The shape of a compiled script.

`Code.WellFormed` says that the positions and lines of the commands and the references of the auxiliary
entries are what they should be, and which commands jump. `compile_wellFormed` says that it is so for
every script that is compiled.
-/

namespace MissionScript

/-- The commands that send control elsewhere, whatever stands in front of them. -/
def CommandId.senders : List Nat :=
  [CommandId.forLoop, CommandId.foreachLoop, CommandId.breakLoop, CommandId.continueLoop,
    CommandId.gotoLabel, CommandId.gosub]

/-- The line of the command starts with a test. -/
def Command.IsTested (c : Command) (lines : List String) : Prop :=
  ∃ text, lines[c.line - 1]? = some text ∧ (conditionOf text).isTest = true

/-- The shape of a script that has been compiled from lines. -/
structure Code.WellFormed (code : Code) (lines : List String) : Prop where
  nonempty : code.commands ≠ []
  /-- A command knows its position. -/
  index_eq : ∀ (i : Nat) (c : Command), code.commands[i]? = some c → c.index = i
  /-- Jumps lead to commands. -/
  jump_lt : ∀ c ∈ code.commands, ∀ k, c.jump = some k → k < code.commands.length
  /-- Tests, loops, and what leaves a loop or goes to a label jump, and so do hidden jumps. -/
  jump_iff : ∀ c ∈ code.commands, c.jump.isSome = true ↔
    c.id = CommandId.hiddenJump ∨ c.id ∈ CommandId.senders ∨ c.IsTested lines
  /-- Lines are counted from one. -/
  line_pos : ∀ c ∈ code.commands, 1 ≤ c.line
  lines_grow : code.commands.Pairwise fun c d => c.line ≤ d.line
  last : ∃ c, code.commands.getLast? = some c ∧ c.id = CommandId.finish
  reference_le : ∀ a ∈ code.auxiliary, a.reference ≤ code.commands.length
  references_grow : code.auxiliary.Pairwise fun a b => a.reference ≤ b.reference

/-- A command sends control elsewhere when it is tested, or whatever stands in front of it. -/
theorem Flow.mayJump_ofCommand_iff (id : Nat) (condition : Conditional) :
    (Flow.ofCommand (some id) condition).mayJump = true ↔
      id ∈ CommandId.senders ∨ condition.isTest = true := by
  have untested : (Flow.ofCommand (some id) .unconditional).mayJump = true ↔
      id ∈ CommandId.senders := by
    simp only [Flow.ofCommand, Option.some.injEq, CommandId.senders, List.mem_cons,
      List.not_mem_nil, or_false]
    by_cases helse : id = CommandId.elseBranch
    · subst helse; decide
    by_cases hend : id = CommandId.blockEnd
    · subst hend; decide
    by_cases hfor : id = CommandId.forLoop
    · subst hfor; decide
    by_cases hforeach : id = CommandId.foreachLoop
    · subst hforeach; decide
    by_cases hbreak : id = CommandId.breakLoop
    · subst hbreak; decide
    by_cases hcontinue : id = CommandId.continueLoop
    · subst hcontinue; decide
    by_cases hgoto : id = CommandId.gotoLabel
    · subst hgoto; decide
    by_cases hgosub : id = CommandId.gosub
    · subst hgosub; decide
    by_cases hfinish : id = CommandId.finish
    · subst hfinish; decide
    simp [helse, hend, hfor, hforeach, hbreak, hcontinue, hgoto, hgosub, hfinish, Flow.mayJump]
  cases condition with
  | unconditional => simpa [Conditional.isTest] using untested
  | start => simpa [Conditional.isTest, Flow.ofCommand] using untested
  | ifTrue | ifNot | elseIf | elseIfNot | whileTrue | whileNot | skipIf | skipIfNot =>
      simp [Flow.ofCommand, Flow.mayJump, Conditional.isTest]

namespace Language.Emits

open MissionScript.Tree

variable {lang : Language} {lines : List String} {t₁ t₂ t₃ : Tree} {r : Nat} {code : Code}

/-! ### Which commands jump

What a command does follows from its number and from the conditional in front of its line. The
commands among `CommandId.senders` jump in any case, every other one only behind a test. -/

/-- A hidden jump jumps. -/
theorem isSome_jump_of_added (h : lang.Emits lines t₁ t₂ t₃ r code) {c : Command} {id : Nat}
    (hid : id ∈ t₃.executables) (hc : t₃.Encodes t₃.layout c id) (hle : t₁.size ≤ id) :
    c.jump.isSome = true := by
  have hmem : id ∈ t₂.preorder := h.steps.shape.preorder_eq ▸ (List.mem_filter.mp hid).1
  have hlt := ((mem_preorder_iff h.steps.prepared.sound).mp hmem).2
  obtain ⟨-, p, -, jump, -, -, htarget⟩ := h.steps.prepared.jumped.jump_of_added id hle hlt
  have htarget₃ : (t₃.node id).target = some jump.target := by
    rw [h.steps.target_eq id hmem, h.steps.prepared.transfer?_added hle hlt, Option.getD_none,
      htarget]
  obtain ⟨k, -, hlanding⟩ := h.steps.landing?_of_leads (h.steps.leads_of_target hmem htarget₃)
  rw [hc.jump_eq, htarget₃, Option.bind_some, hlanding, Option.isSome_some]

/-- The added `return` does not jump. -/
theorem jump_of_return (h : lang.Emits lines t₁ t₂ t₃ r code) {c : Command} {id : Nat}
    (hid : id ∈ t₃.executables) (hc : t₃.Encodes t₃.layout c id) (heq : id = lines.length + 1)
    (hlt : id < t₁.size) : c.jump = none := by
  have hmem : id ∈ t₂.preorder := h.steps.shape.preorder_eq ▸ (List.mem_filter.mp hid).1
  have hpos := ((mem_preorder_iff h.steps.prepared.sound).mp hmem).1
  have hflow : t₁.flow id = .finish :=
    h.eq_return (Nat.le_of_eq heq.symm) hlt ▸ h.steps.prepared.final.flow_eq
  have htarget : (t₃.node id).target = none := by
    rw [h.steps.target_eq id hmem,
      h.steps.prepared.transfer?_of_flow hpos hlt (by rw [hflow]; decide), hflow,
      Option.getD_none, h.steps.prepared.jumped.node_eq id hlt,
      h.steps.prepared.bound.target_eq id hlt]
  rw [hc.jump_eq, htarget, Option.bind_none]

/-- The command of a line jumps when its part in the flow of control says so. -/
theorem isSome_jump_of_source (h : lang.Emits lines t₁ t₂ t₃ r code) {c : Command} {id : Nat}
    (hid : id ∈ t₃.executables) (hc : t₃.Encodes t₃.layout c id) (hpos : 0 < id)
    (hlt : id < (Script.readLines lang lines).tree.size) :
    c.jump.isSome = true ↔ ((Script.readLines lang lines).tree.flow id).mayJump = true := by
  have hsource : (Script.readLines lang lines).tree.IsSource id := by
    refine ⟨hpos, hlt, ?_⟩
    have hexec := (List.mem_filter.mp hid).2
    rwa [h.statement_eq hlt] at hexec
  obtain ⟨k, hk⟩ := List.getElem?_of_mem hid
  have hindex := index_setIndices hk
  obtain ⟨e, he, -, -, -, hjump⟩ := exists_command hk
  rw [← h.code_eq] at he
  rw [hc.jump_eq, ← hjump]
  cases hflow : ((Script.readLines lang lines).tree.flow id).mayJump with
  | true =>
      obtain ⟨j, hj, -⟩ := h.implements.transfers id k e hsource hindex he hflow
      simp [hj]
  | false =>
      have hnone := h.implements.straight id k e hsource hindex he hflow
      simp [hnone]

/-- What a command of a line does follows from its number and the conditional of the line. -/
theorem flow_of_source (hcat : lang.catalog.Reachable) (h : lang.Emits lines t₁ t₂ t₃ r code)
    {c : Command} {id : Nat} (hid : id ∈ t₃.executables) (hc : t₃.Encodes t₃.layout c id)
    (hpos : 0 < id) (hlt : id < (Script.readLines lang lines).tree.size) :
    ∃ text, lines[id - 1]? = some text ∧
      (Script.readLines lang lines).tree.flow id
        = Flow.ofCommand (some c.id) (conditionOf text) := by
  obtain ⟨text, htext, hread, hstatement⟩ := h.exists_line hpos hlt
  refine ⟨text, htext, ?_⟩
  have hexec : (lang.readLine id text).1.isExecutable = true := by
    rw [← hstatement]
    exact (List.mem_filter.mp hid).2
  rcases readLine_cases hcat hread with haux | hcommand
  · rw [Statement.isExecutable_eq_false_of_isAuxiliary haux] at hexec
    cases hexec
  · obtain ⟨⟨d, hd⟩, -⟩ := isCommand_of_readCommand hcat hcommand
    obtain ⟨d', vars, hcommand', hcid, -, -⟩ := hc.statement_eq
    rw [hstatement, hd.command_eq] at hcommand'
    cases hcommand'
    rw [flow, ← h.statement_eq hlt, hstatement, hd.flow_eq, hcid]

theorem jump_iff (hcat : lang.catalog.Reachable) (h : lang.Emits lines t₁ t₂ t₃ r code)
    {c : Command} (hc : c ∈ code.commands) :
    c.jump.isSome = true ↔
      c.id = CommandId.hiddenJump ∨ c.id ∈ CommandId.senders ∨ c.IsTested lines := by
  obtain ⟨id, hid, hencodes, horigin⟩ := h.command_cases hc
  have hcid := hencodes.id?_eq
  rcases horigin with ⟨hlt, hpos, hline⟩ | ⟨hlt₁, heq, hline, hreturn⟩ | ⟨hle, -, hadded⟩
  · obtain ⟨text, htext, hflow⟩ := h.flow_of_source hcat hid hencodes hpos hlt
    have hhidden : c.id ≠ CommandId.hiddenJump := by
      intro heq
      refine (h.sane.nested.proper id hpos hlt).id_ne_hiddenJump ?_
      rw [← h.statement_eq hlt, hcid, heq]
    have htested : c.IsTested lines ↔ (conditionOf text).isTest = true := by
      rw [Command.IsTested, hline, htext]
      simp
    rw [h.isSome_jump_of_source hid hencodes hpos hlt, hflow, Flow.mayJump_ofCommand_iff, htested]
    simp [hhidden]
  · rw [(of_isAddedReturn hreturn).2] at hcid
    -- no line stands where the return has been added
    have htested : ¬ c.IsTested lines := by
      rintro ⟨text, htext, -⟩
      rw [hline, Nat.add_sub_cancel, List.getElem?_eq_none (Nat.le_refl _)] at htext
      cases htext
    rw [h.jump_of_return hid hencodes heq hlt₁, ← Option.some.inj hcid]
    simp only [htested, or_false]
    decide
  · rw [(of_isAddedJump hadded).2] at hcid
    rw [h.isSome_jump_of_added hid hencodes hle, ← Option.some.inj hcid]
    simp

/-! ### The whole script

Each clause comes from what is known of positions, lines and references of the tree that has been
lowered. -/

/-- Jumps lead to commands. -/
theorem jump_lt (h : lang.Emits lines t₁ t₂ t₃ r code) {c : Command} (hc : c ∈ code.commands)
    {k : Nat} (hk : c.jump = some k) : k < code.commands.length := by
  obtain ⟨id, -, hencodes, -⟩ := h.command_cases hc
  rw [hencodes.jump_eq] at hk
  obtain ⟨y, -, hlanding⟩ := Option.bind_eq_some_iff.mp hk
  rw [h.length_commands]
  exact of_decide_eq_true (Option.filter_eq_some_iff.mp hlanding).2

theorem wellFormed (hcat : lang.catalog.Reachable) (h : lang.Emits lines t₁ t₂ t₃ r code) :
    code.WellFormed lines where
  nonempty := by
    obtain ⟨c, hc, -⟩ := h.implements.last
    rintro heq
    rw [heq] at hc
    cases hc
  index_eq i c hc := by
    rw [h.code_eq] at hc
    obtain ⟨hlt, -⟩ := List.getElem?_eq_some_iff.mp hc
    rw [Tree.length_commands] at hlt
    obtain ⟨e, he, hindex, -⟩ := exists_command (List.getElem?_eq_getElem hlt)
    rw [hc] at he
    cases he
    exact hindex
  jump_lt c hc k hk := h.jump_lt hc hk
  jump_iff c hc := h.jump_iff hcat hc
  line_pos c hc := by
    obtain ⟨id, -, -, ⟨-, hpos, hline⟩ | ⟨-, -, hline, -⟩ | ⟨-, hpos, -⟩⟩ := h.command_cases hc
    · omega
    · omega
    · exact hpos
  lines_grow := by
    rw [h.code_eq]
    exact h.steps.pairwise_line h.numbered h.sequenced
  last := h.implements.last
  reference_le a ha := by
    rw [h.length_commands]
    rw [h.code_eq] at ha
    exact reference_le ha
  references_grow := by
    rw [h.code_eq]
    exact pairwise_reference t₃

end Language.Emits

namespace Language

/-- Every compiled script is well formed. -/
theorem compile_wellFormed {lang : Language} (hcat : lang.catalog.Reachable) {lines : List String}
    {out : Compiled} {code : Code} (hcompile : lang.compile lines = .ok out)
    (hcode : out.code = some code) : code.WellFormed lines := by
  obtain ⟨t₁, t₂, t₃, r, hemits⟩ := emits_of_code hcat hcompile hcode
  exact hemits.wellFormed hcat

/-- A `skip if` whose command comes before a comment that stands between them, in a loop that ends with
a chain of branches, and a comment after the last command. -/
theorem compile_wellFormed_chain :
    Catalog.builtin.Reachable ∧
      ∃ lines, lines = ["for $i = 1 to $n step 1", "if $i", "skip if $a", "* aside", "break",
          "else if not $b", "gosub sub:", "else", "end", "end", "return null", "sub:", "endsub",
          "* done"] ∧
        ∃ out code, (⟨.builtin, .threat⟩ : Language).compile lines = .ok out ∧
          out.code = some code ∧ code.WellFormed lines :=
  ⟨.builtin, _, rfl, exists_code (by decide +kernel) fun _ _ hcompile hcode =>
    compile_wellFormed .builtin hcompile hcode⟩

end Language

end MissionScript
