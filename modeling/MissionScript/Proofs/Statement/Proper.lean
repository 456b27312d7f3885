import MissionScript.Proofs.Catalog.Reachable
import MissionScript.Statement.Reader

/-!
# MissionScript.Proofs.Statement.Proper

What is known of a line that has been read without a problem.

A line is a blank line, a comment, or a command (`IsCommand`). A command comes from the catalog, it is
never a hidden jump, and when it is recognised by its shape it has at least as many parameters as the
catalog declares. From this follows what the rest of the compiler relies on (`Statement.Proper`):
every statement is auxiliary, virtual or executable, and auxiliary ones play no part in the flow of
control.

Where the readers fail does not matter here. So the proofs go backwards through their binds: if the
whole has succeeded, each step has, and the statement is put together from what the steps gave.
-/

namespace MissionScript

/-! ### Proper statements

`Proper` collects what later stages ask of a statement, one field for each question. It is stated
about the statement alone, without the line it was read from, so that it can be said of the nodes of
a tree. -/

/-- What is known of a line that has been read without a problem. -/
structure Statement.Proper (s : Statement) : Prop where
  isSome_command : s.command.isSome = true
  classified : s.isAuxiliary = true ∨ s.isVirtual = true ∨ s.isExecutable = true
  flow_of_auxiliary : s.isAuxiliary = true → s.flow = .plain
  parameters_of_jump : s.isLabelJump = true → s.parameters ≠ []
  not_label_of_jump : s.isLabelJump = true → s.isLabel = false
  executable_of_label : s.isLabel = true → s.isExecutable = true
  id_of_finish : s.flow = .finish → s.id? = some CommandId.finish
  id_ne_hiddenJump : s.id? ≠ some CommandId.hiddenJump

namespace Statement

/-- A statement that takes part in the flow of control is executed, unless it only marks the boundary
of a block. -/
theorem Proper.isExecutable_of_flow {s : Statement} (h : s.Proper) (hplain : s.flow ≠ .plain)
    (helse : s.flow ≠ .elseBlock) (hend : s.flow ≠ .blockEnd) : s.isExecutable = true := by
  rcases h.classified with haux | hvirtual | hexec
  · exact absurd (h.flow_of_auxiliary haux) hplain
  · simp [isVirtual, helse, hend] at hvirtual
  · exact hexec

/-- A commented command is kept beside the commands. -/
theorem isAuxiliary_of_commented {s : Statement} (h : s.commented = true) :
    s.isAuxiliary = true := by
  simp [isAuxiliary, h]

/-- A commented command takes no part in the flow of control. -/
theorem Proper.commented_of_flow {s : Statement} (h : s.Proper) (hplain : s.flow ≠ .plain) :
    s.commented = false := by
  cases hc : s.commented with
  | false => rfl
  | true => exact absurd (h.flow_of_auxiliary (isAuxiliary_of_commented hc)) hplain

/-- A `goto` or `gosub` jumps to a label. -/
theorem Proper.isLabelJump_of_flow {s : Statement} (h : s.Proper)
    (hflow : s.flow = .goto ∨ s.flow = .gosub) : s.isLabelJump = true := by
  have hcommented : s.commented = false := by
    refine h.commented_of_flow ?_
    rcases hflow with hf | hf <;> rw [hf] <;> decide
  simpa [isLabelJump, hcommented] using hflow

/-- What is kept beside the commands is not executed. -/
theorem isExecutable_eq_false_of_isAuxiliary {s : Statement} (h : s.isAuxiliary = true) :
    s.isExecutable = false := by
  cases hexec : s.isExecutable with
  | false => rfl
  | true =>
      rw [isAuxiliary_eq_false_of_isExecutable hexec] at h
      cases h

/-- The boundary of a block is neither executed nor kept beside the commands. -/
theorem Proper.of_virtual_flow {s : Statement} (h : s.Proper)
    (hflow : s.flow = .elseBlock ∨ s.flow = .blockEnd) :
    s.isExecutable = false ∧ s.isAuxiliary = false := by
  have haux : s.isAuxiliary = false := by
    cases haux : s.isAuxiliary with
    | false => rfl
    | true =>
        rw [h.flow_of_auxiliary haux] at hflow
        simp at hflow
  refine ⟨?_, haux⟩
  have hcommented : s.commented = false := by
    cases hc : s.commented with
    | false => rfl
    | true =>
        rw [isAuxiliary_of_commented hc] at haux
        cases haux
  rcases hflow with hf | hf <;> simp [isExecutable, isVirtual, hcommented, hf]

end Statement

namespace Language

/-! ### Commands

The readers of commands have three outcomes, and `IsCommand` says what they have in common. That no
command is a hidden jump is a matter of the catalog: the hidden jump has a template, but it cannot
be identified by it. -/

/-- The statement stands for the command `d` with a conditional in front. -/
structure IsCommand (lang : Language) (condition : Conditional) (s : Statement) (d : Definition) :
    Prop where
  command_eq : s.command = some d
  flow_eq : s.flow = Flow.ofCommand (some d.id) condition
  commented_eq : s.commented = false
  mem_definitions : d ∈ lang.catalog.definitions
  kind_eq : d.kind = .standard ∨ d.kind = .expression ∨ d.kind = .scriptCall
  id_ne_hiddenJump : d.id ≠ CommandId.hiddenJump
  length_parameters : d.kind = .standard → d.parameters.length ≤ s.parameters.length

/-- A bind succeeds if both its steps do. -/
theorem bind_eq_ok {ε α β : Type} {x : Except ε α} {f : α → Except ε β} {b : β} :
    (x >>= f) = .ok b ↔ ∃ a, x = .ok a ∧ f a = .ok b := by
  cases x <;> simp [bind, Except.bind]

theorem pure_eq_ok {ε α : Type} {a b : α} : (pure a : Except ε α) = .ok b ↔ a = b := by
  simp [pure, Except.pure]

theorem mapError_eq_ok {ε ε' α : Type} {x : Except ε α} {f : ε → ε'} {a : α} :
    x.mapError f = .ok a ↔ x = .ok a := by
  cases x with
  | error e => constructor <;> intro h <;> cases h
  | ok b => constructor <;> intro h <;> cases h <;> rfl

/-- Nulls fill the parameters up to the declared number. -/
theorem length_bindParameters {found : Candidate} {condition : Conditional} {line : Nat}
    {tokens arguments : List Token} {ps : List Parameter}
    (h : bindParameters found condition line tokens arguments = .ok ps) :
    found.definition.parameters.length ≤ ps.length := by
  unfold bindParameters at h
  obtain ⟨values, -, h⟩ := bind_eq_ok.mp h
  obtain ⟨bound, -, h⟩ := bind_eq_ok.mp h
  rw [pure_eq_ok] at h
  subst h
  simp only [List.length_append, List.length_map, List.length_range']
  omega

/-- A command that is recognised by its shape. -/
theorem isCommand_of_candidate {lang : Language} {condition : Conditional} {shaped : List Token}
    {found : Candidate} (hfound : found ∈ lang.candidates condition shaped) {line : Nat}
    {text : String} {tokens arguments : List Token} {ps : List Parameter}
    (hps : bindParameters found condition line tokens arguments = .ok ps) :
    lang.IsCommand condition (Statement.ofLine (some found.definition) condition ps line text)
      found.definition := by
  obtain ⟨hmem, -, hform⟩ := Catalog.form_of_mem_identify (List.mem_filter.mp hfound).1
  have hshape := Catalog.isIdentifiable_of_mem_forms hform
  simp only [Definition.isIdentifiable, Bool.and_eq_true, beq_iff_eq, bne_iff_ne] at hshape
  exact {
    command_eq := rfl
    flow_eq := rfl
    commented_eq := rfl
    mem_definitions := hmem
    kind_eq := Or.inl hshape.1
    id_ne_hiddenJump := hshape.2
    length_parameters := fun _ => length_bindParameters hps }

/-- A built-in command that is looked up by its number. -/
theorem builtin_of_command {lang : Language} (hcat : lang.catalog.Reachable) {id : Nat}
    {d : Definition} (hd : lang.command id = .ok d)
    (hid : ∃ b ∈ Catalog.builtin.definitions, b.id = id) :
    d ∈ Catalog.builtin.definitions ∧ d.id = id ∧ lang.find? id = some d := by
  obtain ⟨b, hb, hbid, hfind⟩ := hcat.find?_builtin hid lang.version
  have hbd : b = d := by
    rw [command, find?, hfind] at hd
    exact Except.ok.inj hd
  subst hbd
  exact ⟨hb, hbid, hfind⟩

/-- A command that is looked up by its number. -/
theorem isCommand_of_command {lang : Language} (hcat : lang.catalog.Reachable)
    {condition : Conditional} {id : Nat} {d : Definition} (hd : lang.command id = .ok d)
    (hid : id = CommandId.expression ∨ id = CommandId.callScript) {s : Statement}
    (hcommand : s.command = some d) (hflow : s.flow = Flow.ofCommand (some d.id) condition)
    (hcommented : s.commented = false) : lang.IsCommand condition s d := by
  have hbuiltin : ∃ b ∈ Catalog.builtin.definitions, b.id = id :=
    Catalog.exists_builtin (by rcases hid with rfl | rfl <;> decide)
  obtain ⟨hmem, hdid, hfind⟩ := builtin_of_command hcat hd hbuiltin
  have hkind : d.kind = .expression ∨ d.kind = .scriptCall := by
    have hall : ∀ e ∈ Catalog.builtin.definitions,
        e.id = CommandId.expression ∨ e.id = CommandId.callScript →
          e.kind = .expression ∨ e.kind = .scriptCall := by
      rw [Catalog.definitions_builtin]
      decide
    exact hall d hmem (hdid ▸ hid)
  exact {
    command_eq := hcommand
    flow_eq := hflow
    commented_eq := hcommented
    mem_definitions := List.mem_of_find?_eq_some hfind
    kind_eq := Or.inr hkind
    id_ne_hiddenJump := by rcases hid with rfl | rfl <;> rw [hdid] <;> decide
    length_parameters := by rcases hkind with hk | hk <;> rw [hk] <;> intro h <;> cases h }

/-- An expression is the command for expressions, assigned or tested. -/
theorem isCommand_of_readExpression {lang : Language} (hcat : lang.catalog.Reachable)
    {condition : Conditional} {tokens : List Token} {line : Nat} {text : String} {s : Statement}
    (h : lang.readExpression condition tokens line text = .ok s) :
    (∃ d, lang.IsCommand condition s d) ∧ s.line = line := by
  unfold readExpression at h
  obtain ⟨d, hd, h⟩ := bind_eq_ok.mp h
  have read : ∀ {ps evaluated : List Parameter},
      { Statement.ofLine (some d) condition ps line text with evaluated } = s →
        (∃ d, lang.IsCommand condition s d) ∧ s.line = line := by
    intro ps evaluated heq
    subst heq
    exact ⟨⟨d, isCommand_of_command hcat (mapError_eq_ok.mp hd) (Or.inl rfl) rfl rfl rfl⟩, rfl⟩
  dsimp only at h
  split at h
  · obtain ⟨⟨target, operands⟩, -, h⟩ := bind_eq_ok.mp h
    obtain ⟨expression, -, h⟩ := bind_eq_ok.mp h
    exact read (pure_eq_ok.mp h)
  · split at h
    · split at h
      · obtain ⟨⟨target, operands⟩, -, h⟩ := bind_eq_ok.mp h
        obtain ⟨expression, -, h⟩ := bind_eq_ok.mp h
        exact read (pure_eq_ok.mp h)
      · obtain ⟨_, herror, -⟩ := bind_eq_ok.mp h
        cases herror
    · obtain ⟨_, herror, -⟩ := bind_eq_ok.mp h
      cases herror

/-- The candidate that `findCommand` chooses is one for some beginning of the line. -/
theorem mem_candidates_of_findCommand {lang : Language} {condition : Conditional}
    {tokens arguments : List Token} {found : Candidate}
    (h : lang.findCommand condition tokens = some (found, arguments)) :
    ∃ shaped, found ∈ lang.candidates condition shaped := by
  unfold findCommand at h
  split at h
  · next c hc =>
    cases h
    exact ⟨tokens, List.mem_of_head? hc⟩
  · obtain ⟨stripped, -, hs⟩ := List.exists_of_findSome?_eq_some h
    obtain ⟨c, hc, heq⟩ := Option.map_eq_some_iff.mp hs
    cases heq
    exact ⟨_, List.mem_of_find?_eq_some hc⟩

/-- Whatever `readCommand` reads is a command. -/
theorem isCommand_of_readCommand {lang : Language} (hcat : lang.catalog.Reachable)
    {condition : Conditional} {tokens : List Token} {line : Nat} {text : String} {s : Statement}
    (h : lang.readCommand condition tokens line text = .ok s) :
    (∃ d, lang.IsCommand condition s d) ∧ s.line = line := by
  unfold readCommand at h
  split at h
  · cases h
  · next first rest =>
    split at h
    · unfold readArrayAccess at h
      split at h
      · cases h
      · -- an access to an array
        next found hfound =>
        obtain ⟨ps, hps, h⟩ := bind_eq_ok.mp h
        rw [pure_eq_ok] at h
        subst h
        exact ⟨⟨_, isCommand_of_candidate (List.mem_of_head? hfound) hps⟩, rfl⟩
    · split at h
      · exact isCommand_of_readExpression hcat h
      · split at h
        · -- a call of a script
          unfold readScriptCall at h
          obtain ⟨d, hd, h⟩ := bind_eq_ok.mp h
          obtain ⟨⟨target, object⟩, -, h⟩ := bind_eq_ok.mp h
          obtain ⟨⟨name, rest⟩, -, h⟩ := bind_eq_ok.mp h
          obtain ⟨after, -, h⟩ := bind_eq_ok.mp h
          obtain ⟨arguments, -, h⟩ := bind_eq_ok.mp h
          rw [pure_eq_ok] at h
          subst h
          exact ⟨⟨d, isCommand_of_command hcat (mapError_eq_ok.mp hd) (Or.inr rfl) rfl rfl rfl⟩,
            rfl⟩
        · split at h
          · -- a command that is recognised by its shape
            next found arguments hfound =>
            obtain ⟨ps, hps, h⟩ := bind_eq_ok.mp h
            rw [pure_eq_ok] at h
            subst h
            obtain ⟨shaped, hmem⟩ := mem_candidates_of_findCommand hfound
            exact ⟨⟨_, isCommand_of_candidate hmem hps⟩, rfl⟩
          · cases h

/-! ### Every line that is read is proper

For a command, the part it plays in the flow of control follows from its number. For a comment or a
blank line it is fixed, and a commented command loses the part it would have played. -/

/-- Only the commands for it jump to labels. -/
theorem id_of_jump_flow {id : Nat} {condition : Conditional}
    (h : Flow.ofCommand (some id) condition = .goto ∨ Flow.ofCommand (some id) condition = .gosub) :
    id = CommandId.gotoLabel ∨ id = CommandId.gosub := by
  by_cases hgoto : id = CommandId.gotoLabel
  · exact Or.inl hgoto
  · by_cases hgosub : id = CommandId.gosub
    · exact Or.inr hgosub
    · cases condition <;>
        simp only [Flow.ofCommand, Option.some.injEq, if_neg hgoto, if_neg hgosub] at h <;>
        grind

/-- Only a `return` finishes a run. -/
theorem id_of_finish_flow {id : Nat} {condition : Conditional}
    (h : Flow.ofCommand (some id) condition = .finish) : id = CommandId.finish := by
  by_cases hfinish : id = CommandId.finish
  · exact hfinish
  · cases condition <;> simp only [Flow.ofCommand, Option.some.injEq, if_neg hfinish] at h <;> grind

theorem IsCommand.id?_eq {lang : Language} {condition : Conditional} {s : Statement}
    {d : Definition} (h : lang.IsCommand condition s d) : s.id? = some d.id := by
  rw [Statement.id?, h.command_eq, Option.map_some]

/-- A command is not kept beside the commands. -/
theorem IsCommand.isAuxiliary_eq {lang : Language} {condition : Conditional} {s : Statement}
    {d : Definition} (h : lang.IsCommand condition s d) : s.isAuxiliary = false := by
  have hkind : s.kind? = some d.kind := by rw [Statement.kind?, h.command_eq, Option.map_some]
  rcases h.kind_eq with hk | hk | hk <;> simp [Statement.isAuxiliary, h.commented_eq, hkind, hk]

/-- A command that does not only mark the boundary of a block is executed. -/
theorem IsCommand.isExecutable_of_not_virtual {lang : Language} {condition : Conditional}
    {s : Statement} {d : Definition} (h : lang.IsCommand condition s d)
    (hvirtual : s.isVirtual = false) : s.isExecutable = true := by
  have hkind : s.kind? = some d.kind := by rw [Statement.kind?, h.command_eq, Option.map_some]
  rcases h.kind_eq with hk | hk | hk <;>
    simp [Statement.isExecutable, h.commented_eq, hvirtual, hkind, hk]

/-- Every command is proper. -/
theorem IsCommand.proper {lang : Language} (hcat : lang.catalog.Reachable)
    {condition : Conditional} {s : Statement} {d : Definition}
    (h : lang.IsCommand condition s d) : s.Proper where
  isSome_command := by rw [h.command_eq, Option.isSome_some]
  classified := by
    cases hvirtual : s.isVirtual with
    | true => exact Or.inr (Or.inl rfl)
    | false => exact Or.inr (Or.inr (h.isExecutable_of_not_virtual hvirtual))
  flow_of_auxiliary haux := by
    rw [h.isAuxiliary_eq] at haux
    cases haux
  parameters_of_jump hjump := by
    have hflow : s.flow = .goto ∨ s.flow = .gosub := by
      simpa [Statement.isLabelJump, h.commented_eq] using hjump
    rw [h.flow_eq] at hflow
    have hid := id_of_jump_flow hflow
    -- jumps to labels are built-in commands, and these have one parameter
    have hall : ∀ b ∈ Catalog.builtin.definitions,
        b.id = CommandId.gotoLabel ∨ b.id = CommandId.gosub →
          b.kind = .standard ∧ b.parameters.length = 1 := by
      rw [Catalog.definitions_builtin]
      decide
    have hbuiltin : ∃ b ∈ Catalog.builtin.definitions, b.id = d.id := by
      rcases hid with hid | hid <;> rw [hid] <;> exact Catalog.exists_builtin (by decide)
    obtain ⟨hkind, hlength⟩ := hall d (hcat.mem_builtin h.mem_definitions hbuiltin) hid
    have hle := h.length_parameters hkind
    intro hnil
    rw [hnil, hlength] at hle
    simp at hle
  not_label_of_jump hjump := by
    have hflow : s.flow = .goto ∨ s.flow = .gosub := by
      simpa [Statement.isLabelJump, h.commented_eq] using hjump
    rw [h.flow_eq] at hflow
    have hid : d.id ≠ CommandId.defineLabel := by
      rcases id_of_jump_flow hflow with hid | hid <;> rw [hid] <;> decide
    simp [Statement.isLabel, h.id?_eq, hid]
  executable_of_label hlabel := by
    have hid : d.id = CommandId.defineLabel := by
      simpa [Statement.isLabel, h.commented_eq, h.id?_eq] using hlabel
    -- a declaration is no part of a block
    have hflow : s.flow ≠ .elseBlock ∧ s.flow ≠ .blockEnd := by
      rw [h.flow_eq, hid]
      cases condition <;> decide
    refine h.isExecutable_of_not_virtual ?_
    simp [Statement.isVirtual, hflow.1, hflow.2]
  id_of_finish hflow := by
    rw [h.flow_eq] at hflow
    rw [h.id?_eq, id_of_finish_flow hflow]
  id_ne_hiddenJump := by
    rw [h.id?_eq]
    exact fun heq => h.id_ne_hiddenJump (Option.some.inj heq)

/-- A statement that is kept beside the commands. -/
theorem proper_of_auxiliary {s : Statement} (hcommand : s.command.isSome = true)
    (haux : s.isAuxiliary = true) (hflow : s.flow = .plain) (hlabel : s.isLabel = false)
    (hid : s.id? ≠ some CommandId.hiddenJump) : s.Proper where
  isSome_command := hcommand
  classified := Or.inl haux
  flow_of_auxiliary _ := hflow
  parameters_of_jump hjump := by simp [Statement.isLabelJump, hflow] at hjump
  not_label_of_jump _ := hlabel
  executable_of_label h := by rw [hlabel] at h; cases h
  id_of_finish h := by rw [hflow] at h; cases h
  id_ne_hiddenJump := hid

/-- Blank lines and comments are auxiliary. -/
theorem isAuxiliary_of_command {lang : Language} (hcat : lang.catalog.Reachable) {id : Nat}
    {d : Definition} (hd : lang.command id = .ok d)
    (hid : id = CommandId.blankLine ∨ id = CommandId.comment) (ps : List Parameter) (line : Nat)
    (text : String) :
    (Statement.ofLine (some d) .unconditional ps line text).isAuxiliary = true := by
  have hbuiltin : ∃ b ∈ Catalog.builtin.definitions, b.id = id :=
    Catalog.exists_builtin (by rcases hid with rfl | rfl <;> decide)
  obtain ⟨hmem, hdid, -⟩ := builtin_of_command hcat hd hbuiltin
  have hall : ∀ e ∈ Catalog.builtin.definitions,
      e.id = CommandId.blankLine ∨ e.id = CommandId.comment →
        e.kind = .comment ∨ e.kind = .auxiliary := by
    rw [Catalog.definitions_builtin]
    decide
  have hkind := hall d hmem (hdid ▸ hid)
  simpa [Statement.isAuxiliary, Statement.kind?, Statement.ofLine] using hkind

/-- A blank line or a comment. -/
theorem proper_of_command {lang : Language} (hcat : lang.catalog.Reachable) {id : Nat}
    {d : Definition} (hd : lang.command id = .ok d)
    (hid : id = CommandId.blankLine ∨ id = CommandId.comment) (ps : List Parameter) (line : Nat)
    (text : String) : (Statement.ofLine (some d) .unconditional ps line text).Proper := by
  have hbuiltin : ∃ b ∈ Catalog.builtin.definitions, b.id = id :=
    Catalog.exists_builtin (by rcases hid with rfl | rfl <;> decide)
  obtain ⟨-, hdid, -⟩ := builtin_of_command hcat hd hbuiltin
  refine proper_of_auxiliary rfl (isAuxiliary_of_command hcat hd hid ps line text) ?_ ?_ ?_
  · rcases hid with rfl | rfl <;> simp only [Statement.ofLine, Option.map_some, hdid] <;> decide
  · rcases hid with rfl | rfl <;>
      simp only [Statement.isLabel, Statement.id?, Statement.ofLine, Option.map_some, hdid] <;>
      decide
  · rcases hid with rfl | rfl <;>
      simp only [Statement.id?, Statement.ofLine, Option.map_some, hdid] <;> decide

/-- A command behind an asterisk is proper, as an auxiliary statement. -/
theorem IsCommand.proper_commented {lang : Language} {condition : Conditional} {s : Statement}
    {d : Definition} (h : lang.IsCommand condition s d) :
    ({ s with commented := true, flow := .plain } : Statement).Proper := by
  refine proper_of_auxiliary ?_ rfl rfl rfl ?_
  · show s.command.isSome = true
    rw [h.command_eq, Option.isSome_some]
  · show s.id? ≠ _
    rw [h.id?_eq]
    exact fun heq => h.id_ne_hiddenJump (Option.some.inj heq)

/-- A commented command is proper. -/
theorem proper_of_readCommented {lang : Language} (hcat : lang.catalog.Reachable) {body : Token}
    {line : Nat} {text : String} {s : Statement} (h : lang.readCommented body line text = some s) :
    s.Proper ∧ s.line = line := by
  unfold readCommented at h
  dsimp only at h
  split at h
  · cases h
  · split at h
    · cases h
    · split at h
      · next s' hs' =>
        cases h
        obtain ⟨⟨d, hd⟩, hline⟩ := isCommand_of_readCommand hcat hs'
        exact ⟨hd.proper_commented, hline⟩
      · cases h

/-- A line that is read without a problem is proper, and it knows its number. -/
theorem proper_of_readLine {lang : Language} (hcat : lang.catalog.Reachable) {line : Nat}
    {text : String} (h : (lang.readLine line text).2 = none) :
    (lang.readLine line text).1.Proper ∧ (lang.readLine line text).1.line = line := by
  unfold readLine at h ⊢
  split
  · next htokens =>
    rw [htokens] at h
    dsimp only at h
    cases hd : lang.command CommandId.blankLine with
    | error problem => rw [hd] at h; cases h
    | ok d => exact ⟨proper_of_command hcat hd (Or.inl rfl) _ _ _, rfl⟩
  · next first rest htokens =>
    rw [htokens] at h
    dsimp only at h
    split
    · next hstar =>
      rw [if_pos hstar] at h
      unfold readComment at h ⊢
      split
      · -- a commented command
        next s hs =>
        obtain ⟨body, -, hbody⟩ := Option.bind_eq_some_iff.mp hs
        exact proper_of_readCommented hcat hbody
      · -- a plain comment
        next hs =>
        rw [hs] at h
        dsimp only at h
        cases hd : lang.command CommandId.comment with
        | error problem => rw [hd] at h; cases h
        | ok d => exact ⟨proper_of_command hcat hd (Or.inr rfl) _ _ _, rfl⟩
    · next hstar =>
      rw [if_neg hstar] at h
      dsimp only at h ⊢
      cases hs : lang.readCommand (readConditional (first :: rest)).1
          (readConditional (first :: rest)).2 line text with
      | error problem => rw [hs] at h; cases h
      | ok s =>
          obtain ⟨⟨d, hd⟩, hline⟩ := isCommand_of_readCommand hcat hs
          exact ⟨hd.proper hcat, hline⟩

end Language

end MissionScript
