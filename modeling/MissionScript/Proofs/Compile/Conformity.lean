import MissionScript.Proofs.Compile.WellFormed
import MissionScript.Proofs.Compile.Written

/-!
# MissionScript.Proofs.Compile.Conformity

The commands of a compiled script against the catalog.

Every command is one of the catalog, of its kind, and a command of the standard kind has as many
parameters as the catalog declares. Whether they are of the declared types depends on the line: a
dollar sign that stands alone looks like a value where the shape of a line is compared, but it fills no
slot, and the slots after it are filled with what comes next or with nulls
(`compile_conforms_sigils`). So does a template in which two placeholders share a token. Where neither
happens (`Command.IsLegible`), the command conforms to its definition (`compile_conforms`).

The proof has one part for each kind of command. What a reader puts into the slots is known from how
the line was read (`Recognised`, `ReadExpression`, `ReadCall`), and what is found in the compiled
script is the same values, encoded. The check of a tree compares the types of what is in the slots
and those that are declared, and this is where the types come from.
-/

namespace MissionScript

namespace Command

/-- What a line puts into the slots of its command can be told from its shape: no dollar sign stands
alone on the line, and each parameter has a token of its own in the template. Only commands that are
recognised by their shape are concerned. -/
def IsLegible (c : Command) (lines : List String) (d : Definition) : Prop :=
  d.isIdentifiable = true → d.Spaced ∧
    ∀ text, lines[c.line - 1]? = some text → ∀ t ∈ tokens text, t.isSigil = false

/-- The parameters of a command are what its definition declares, in a script of `count` commands. -/
structure Conforms (c : Command) (d : Definition) (count : Nat) : Prop where
  /-- Every declared parameter is there and has a type that its slot accepts. -/
  accepted : ∀ (i : Nat) (type : ParameterType), d.parameters[i]? = some type →
    ∃ p, c.parameters[i]? = some p ∧ type.accepts p.dataType = true
  /-- The label of a jump is the position that it leads to. -/
  label : c.id ∈ [CommandId.gotoLabel, CommandId.gosub, CommandId.hiddenJump] →
    ∃ k p, c.jump = some k ∧ c.parameters = [p] ∧ p.dataType = .integer ∧
      (count < 0x80000000 → p.value = .int k)
  /-- A script call has its name, its return value and its object. -/
  scriptCall : c.kind = .scriptCall → d.parameters.length = 3
  /-- An expression has its return value. -/
  expression : c.kind = .expression → ∃ type, d.parameters = [type] ∧ type.isReturnValue = true

end Command

namespace Language

open MissionScript.Tree

/-! ### Slots that are filled

A slot is filled when a parameter for it is there that is of an accepted type. Encoding changes the
values of variables and labels, but no type other than that of a label, which becomes a number; the
slots for labels of jumps accept both. -/

/-- Every declared parameter is there, in its slot, and of a type that the slot accepts. -/
def Filled (d : Definition) (ps : List Parameter) : Prop :=
  ∀ (i : Nat) (type : ParameterType), d.parameters[i]? = some type →
    ∃ p, ps[i]? = some p ∧ p.slot.type = type ∧ type.accepts p.dataType = true

/-- What fills a slot is still accepted in the compiled script. -/
theorem Filled.accepted {d : Definition} {ps : List Parameter} (h : Filled d ps) (jump : Option Nat)
    (vars : List String) (i : Nat) (type : ParameterType) (htype : d.parameters[i]? = some type) :
    ∃ p, (encodeParameters jump vars ps).2[i]? = some p ∧ type.accepts p.dataType = true := by
  obtain ⟨p, hp, hslot, haccepts⟩ := h i type htype
  obtain ⟨vars', hencoded⟩ := getElem?_encodeParameters jump vars hp
  exact ⟨_, hencoded, accepts_encodeParameter hslot haccepts jump vars'⟩

/-- Other commands than expressions have their parameters encoded one by one. -/
theorem parameters_encodeStatement {kind : CommandKind} (h : kind ≠ .expression) (jump : Option Nat)
    (vars : List String) (s : Statement) :
    (encodeStatement jump vars s kind).2.1 = (encodeParameters jump vars s.parameters).2 := by
  cases kind with
  | expression => exact absurd rfl h
  | standard | scriptCall | comment | commentedCommand | auxiliary => rfl

/-- A command that is recognised by its shape fills its slots. -/
theorem Recognised.filled {lang : Language} (hcat : lang.catalog.Reachable) {condition : Conditional}
    {ts : List Token} {s : Statement} {found : Candidate} {shaped arguments : List Token}
    (h : lang.Recognised condition ts s found shaped arguments)
    (hspaced : found.definition.Spaced) (hclear : ∀ t ∈ ts, t.Solid ∧ t.isSigil = false)
    (hchecked : ∀ p ∈ s.parameters, p.slot.type.accepts p.dataType = true) :
    Filled found.definition s.parameters := by
  intro i type htype
  obtain ⟨hlt, -⟩ := List.getElem?_eq_some_iff.mp htype
  obtain ⟨values, -, hplaced⟩ := h.exists_placed hcat hspaced hclear
  obtain ⟨j, p, -, hslot, -, hp⟩ := hplaced i hlt
  have hptype : p.slot.type = type := by
    have hdeclared := (Definition.of_slot? hslot).2
    rw [htype] at hdeclared
    exact (Option.some.inj hdeclared).symm
  exact ⟨p, hp, hptype, hptype ▸ hchecked p (List.mem_of_getElem? hp)⟩

/-- An expression fills its return value. -/
theorem ReadExpression.filled {lang : Language} (hcat : lang.catalog.Reachable)
    {condition : Conditional} {ts : List Token} {s : Statement} {d : Definition} {target : Parameter}
    (h : lang.ReadExpression condition ts s d target)
    (hchecked : ∀ p ∈ s.parameters.take 1, p.slot.type.accepts p.dataType = true) :
    Filled d (s.parameters.take 1 ++ s.evaluated) := by
  obtain ⟨-, -, -, hparameters, -⟩ := h.builtin hcat
  obtain ⟨rest, hrest⟩ := List.head?_eq_some_iff.mp h.parameters_eq
  intro i type htype
  rw [hparameters] at htype
  cases i with
  | zero =>
      cases htype
      have hslot : target.slot.type = .returnValueIf := by
        rw [h.slot_eq, expressionSlot]
        simp [Definition.slot?, hparameters]
      refine ⟨target, by simp [hrest], hslot, ?_⟩
      rw [← hslot]
      exact hchecked target (by simp [hrest])
  | succ i => simp at htype

/-- A script call fills its name, its return value and its object. -/
theorem ReadCall.filled {lang : Language} (hcat : lang.catalog.Reachable) {condition : Conditional}
    {ts : List Token} {s : Statement} {d : Definition} {before : List Token} {target : Parameter}
    (h : lang.ReadCall condition ts s d before target)
    (hchecked : ∀ p ∈ s.parameters.take 3, p.slot.type.accepts p.dataType = true) :
    Filled d s.parameters := by
  obtain ⟨-, -, -, hparameters, -⟩ := h.builtin hcat
  obtain ⟨name, object, arguments, heq, hname, hobject⟩ := h.parameters_eq
  rw [heq] at hchecked ⊢
  intro i type htype
  have hslot : (callSlot d i).type = type := by simp [callSlot, Definition.slot?, htype]
  have fill : ∀ p, (name :: target :: object :: arguments)[i]? = some p → p.slot = callSlot d i →
      i < 3 → ∃ p, (name :: target :: object :: arguments)[i]? = some p ∧ p.slot.type = type ∧
        type.accepts p.dataType = true := by
    intro p hp hpslot hlt
    have hptype : p.slot.type = type := by rw [hpslot, hslot]
    refine ⟨p, hp, hptype, hptype ▸ hchecked p ?_⟩
    refine List.mem_of_getElem? (i := i) ?_
    rw [List.getElem?_take_of_lt hlt]
    exact hp
  match i with
  | 0 => exact fill name rfl hname (by omega)
  | 1 => exact fill target rfl h.slot_eq (by omega)
  | 2 => exact fill object rfl hobject (by omega)
  | i + 3 =>
      rw [hparameters] at htype
      simp at htype

/-! ### Labels

A label is a position in the compiled script. It is stored as a number of 32 bits, so the number is
the position only as long as the script is not too long for that. -/

/-- The label of a jump becomes the position that it leads to. -/
theorem Filled.label {d : Definition} {ps : List Parameter} (h : Filled d ps)
    (hparameters : d.parameters = [.labelNumber]) (hlength : ps.length = 1) (k : Nat)
    (vars : List String) :
    (encodeParameters (some k) vars ps).2 = [⟨.integer, .int (Number.ofCount k)⟩] := by
  obtain ⟨p, rfl⟩ := List.length_eq_one_iff.mp hlength
  obtain ⟨q, hq, hslot, -⟩ := h 0 .labelNumber (by rw [hparameters]; rfl)
  cases hq
  simp [encodeParameters, encodeParameter_of_label hslot]

/-- A jump of the compiled script is to a position in it. -/
theorem Emits.label {lang : Language} (hcat : lang.catalog.Reachable) {lines : List String}
    {t₁ t₂ t₃ : Tree} {r : Nat} {code : Code} (h : lang.Emits lines t₁ t₂ t₃ r code) {c : Command}
    (hc : c ∈ code.commands) {d : Definition} (hd : d ∈ lang.catalog.definitions)
    (hid : c.id = d.id) {ps : List Parameter} {vars : List String} (hfilled : Filled d ps)
    (hlength : ps.length = d.parameters.length + d.vargs)
    (hparameters : c.parameters = (encodeParameters c.jump vars ps).2)
    (hlabel : c.id ∈ [CommandId.gotoLabel, CommandId.gosub, CommandId.hiddenJump]) :
    ∃ k p, c.jump = some k ∧ c.parameters = [p] ∧ p.dataType = .integer ∧
      (code.commands.length < 0x80000000 → p.value = .int k) := by
  have hbuiltin : d ∈ Catalog.builtin.definitions := by
    refine hcat.mem_builtin hd ?_
    rw [← hid]
    simp only [List.mem_cons, List.not_mem_nil, or_false] at hlabel
    rcases hlabel with heq | heq | heq <;> rw [heq] <;> exact Catalog.exists_builtin (by decide)
  obtain ⟨-, hdeclared, hvargs⟩ := (parameters_builtin d hbuiltin).2.2.2 (hid ▸ hlabel)
  have hjump : c.jump.isSome = true := by
    rw [h.jump_iff hcat hc]
    simp only [List.mem_cons, List.not_mem_nil, or_false] at hlabel
    rcases hlabel with heq | heq | heq
    · exact Or.inr (Or.inl (by rw [heq]; decide))
    · exact Or.inr (Or.inl (by rw [heq]; decide))
    · exact Or.inl heq
  obtain ⟨k, hk⟩ := Option.isSome_iff_exists.mp hjump
  rw [hdeclared, hvargs] at hlength
  rw [hk, hfilled.label hdeclared hlength] at hparameters
  refine ⟨k, _, hk, hparameters, rfl, ?_⟩
  intro hcount
  have hlt := h.jump_lt hc hk
  rw [Number.ofCount_of_lt (by omega)]

/-! ### All commands

The commands of the source are split by how their lines have been read. The two that are added,
hidden jumps and the final return, have one slot, which they are made to fill. -/

/-- The command is the one of the catalog, and where its line is legible it conforms to it. -/
structure Agrees (lang : Language) (lines : List String) (c : Command) (d : Definition) (count : Nat) :
    Prop where
  find?_eq : lang.find? c.id = some d
  kind_eq : d.kind = c.kind
  length_eq : c.kind = .standard → c.parameters.length = d.parameters.length + d.vargs
  conforms : c.IsLegible lines d → c.Conforms d count

section

variable {lang : Language} {lines : List String} {t₁ t₂ t₃ : Tree} {r : Nat} {code : Code}
  {c : Command} {text : String} {s : Statement} {d : Definition}

/-- What the shape of a legible line shows are its values. -/
theorem Written.clear_of_isLegible (hw : lang.Written lines c text s d)
    (hlegible : c.IsLegible lines d) (hidentifiable : d.isIdentifiable = true) :
    d.Spaced ∧ ∀ t ∈ commandTokens text, t.Solid ∧ t.isSigil = false := by
  obtain ⟨hspaced, hsigil⟩ := hlegible hidentifiable
  refine ⟨hspaced, fun t ht => ?_⟩
  have hmem := mem_tokens_of_mem_commandTokens ht
  exact ⟨solid_of_mem_tokens hmem, hsigil text hw.text_eq t hmem⟩

/-- A command that is recognised by its shape agrees with the catalog. -/
theorem Emits.agrees_of_recognised (hcat : lang.catalog.Reachable)
    (h : lang.Emits lines t₁ t₂ t₃ r code) (hc : c ∈ code.commands) {found : Candidate}
    (hw : lang.Written lines c text s found.definition) {shaped arguments : List Token}
    (hread : lang.Recognised (conditionOf text) (commandTokens text) s found shaped arguments) :
    lang.Agrees lines c found.definition code.commands.length := by
  obtain ⟨hidentifiable, hkind⟩ := hread.kind_eq
  have hlength := length_of_bindParameters hread.parameters_eq hread.length_arguments
  obtain ⟨vars, hparameters⟩ := hw.parameters_eq
  rw [parameters_encodeStatement (by rw [hkind]; decide)] at hparameters
  refine ⟨hw.find?_eq hcat, hw.kind_eq.symm, ?_, ?_⟩
  · intro _
    rw [hparameters, length_encodeParameters, hlength]
  · intro hlegible
    obtain ⟨hspaced, hclear⟩ := hw.clear_of_isLegible hlegible hidentifiable
    have hchecked := (of_statementProblems hw.checked).2
    rw [checkedParameters, hkind] at hchecked
    have hfilled := hread.filled hcat hspaced hclear hchecked
    exact {
      accepted := hparameters ▸ hfilled.accepted c.jump vars
      label := h.label hcat hc hread.of_candidate.1 hw.id_eq hfilled hlength hparameters
      scriptCall := by rw [hw.kind_eq, hkind]; intro hk; cases hk
      expression := by rw [hw.kind_eq, hkind]; intro hk; cases hk }

/-- So does an expression, -/
theorem Written.agrees_of_expression (hcat : lang.catalog.Reachable)
    (hw : lang.Written lines c text s d) {target : Parameter}
    (hread : lang.ReadExpression (conditionOf text) (commandTokens text) s d target) (count : Nat) :
    lang.Agrees lines c d count := by
  obtain ⟨hid, -, hkind, hdeclared, -⟩ := hread.builtin hcat
  obtain ⟨vars, hparameters⟩ := hw.parameters_eq
  have hchecked := (of_statementProblems hw.checked).2
  rw [checkedParameters, hkind] at hchecked
  rw [hkind] at hparameters
  refine ⟨hw.find?_eq hcat, hw.kind_eq.symm, ?_, fun _ => ?_⟩
  · rw [hw.kind_eq, hkind]
    intro hk
    cases hk
  · exact {
      accepted := hparameters ▸ (hread.filled hcat hchecked).accepted none vars
      label := fun hlabel => absurd hlabel (by rw [hw.id_eq, hid]; decide)
      scriptCall := by rw [hw.kind_eq, hkind]; intro hk; cases hk
      expression := fun _ => ⟨_, hdeclared, rfl⟩ }

/-- and a script call. -/
theorem Written.agrees_of_call (hcat : lang.catalog.Reachable) (hw : lang.Written lines c text s d)
    {before : List Token} {target : Parameter}
    (hread : lang.ReadCall (conditionOf text) (commandTokens text) s d before target) (count : Nat) :
    lang.Agrees lines c d count := by
  obtain ⟨hid, -, hkind, hdeclared, -⟩ := hread.builtin hcat
  obtain ⟨vars, hparameters⟩ := hw.parameters_eq
  have hchecked := (of_statementProblems hw.checked).2
  rw [checkedParameters, hkind, hdeclared] at hchecked
  rw [parameters_encodeStatement (by rw [hkind]; decide)] at hparameters
  refine ⟨hw.find?_eq hcat, hw.kind_eq.symm, ?_, fun _ => ?_⟩
  · rw [hw.kind_eq, hkind]
    intro hk
    cases hk
  · exact {
      accepted := hparameters ▸ (hread.filled hcat hchecked).accepted c.jump vars
      label := fun hlabel => absurd hlabel (by rw [hw.id_eq, hid]; decide)
      scriptCall := fun _ => by rw [hdeclared]; rfl
      expression := by rw [hw.kind_eq, hkind]; intro hk; cases hk }

/-- A command with a single slot is filled by one parameter. -/
theorem filled_singleton {type : ParameterType} {p : Parameter} (hdeclared : d.parameters = [type])
    (hslot : d.slot? 0 = some p.slot) (haccepts : type.accepts p.dataType = true) :
    Filled d [p] := by
  intro i type' htype
  have hptype := (Definition.of_slot? hslot).2
  rw [hdeclared] at htype hptype
  cases i with
  | zero =>
      cases htype
      exact ⟨p, rfl, (Option.some.inj hptype).symm, haccepts⟩
  | succ i => simp at htype

/-- A command that is added with one parameter conforms to its definition. -/
theorem Emits.agrees_of_added (hcat : lang.catalog.Reachable) (h : lang.Emits lines t₁ t₂ t₃ r code)
    (hc : c ∈ code.commands) {p : Parameter} {vars : List String} {line : Nat}
    (hfind : lang.find? d.id = some d) (hid : c.id = d.id) (hkind : c.kind = d.kind)
    (hstandard : d.kind = .standard) (hlength : d.parameters.length + d.vargs = 1)
    (hfilled : Filled d [p])
    (hparameters : c.parameters
      = (encodeStatement c.jump vars (Statement.added d [p] line) d.kind).2.1) :
    lang.Agrees lines c d code.commands.length := by
  rw [parameters_encodeStatement (by rw [hstandard]; decide)] at hparameters
  have hparameters' : c.parameters = (encodeParameters c.jump vars [p]).2 := hparameters
  refine ⟨hid ▸ hfind, hkind.symm, ?_, fun _ => ?_⟩
  · intro _
    rw [hparameters', length_encodeParameters, hlength, List.length_singleton]
  · exact {
      accepted := hparameters' ▸ hfilled.accepted c.jump vars
      label := h.label hcat hc (Catalog.of_find? hfind).1 hid hfilled hlength.symm hparameters'
      scriptCall := by rw [hkind, hstandard]; intro hk; cases hk
      expression := by rw [hkind, hstandard]; intro hk; cases hk }

/-- Every command of a compiled script agrees with one of the catalog. -/
theorem Emits.agrees (hcat : lang.catalog.Reachable) (h : lang.Emits lines t₁ t₂ t₃ r code)
    (hc : c ∈ code.commands) : ∃ d, lang.Agrees lines c d code.commands.length := by
  rcases h.written_cases hcat hc with ⟨text, s, d, hw⟩ |
    ⟨s, d, vars, hid, hkind, hcommand, hparameters, hadded⟩
  · refine ⟨d, ?_⟩
    rcases hw.cases with ⟨found, shaped, arguments, rfl, hread⟩ | ⟨target, hread⟩ |
      ⟨before, target, hread⟩
    · exact h.agrees_of_recognised hcat hc hw hread
    · exact hw.agrees_of_expression hcat hread _
    · exact hw.agrees_of_call hcat hread _
  · refine ⟨d, ?_⟩
    rcases hadded with ⟨e, slot, hfind, hslot, rfl⟩ | ⟨e, slot, hfind, hslot, rfl⟩
    · cases hcommand
      have heid := (Catalog.of_find? hfind).2.1
      have hbuiltin := hcat.mem_builtin (Catalog.of_find? hfind).1
        (Catalog.exists_builtin (by rw [heid]; decide))
      obtain ⟨hstandard, hdeclared, hvargs⟩ := (parameters_builtin d hbuiltin).2.2.1 heid
      exact h.agrees_of_added hcat hc (heid ▸ hfind) hid hkind hstandard
        (by rw [hdeclared, hvargs]; rfl) (filled_singleton hdeclared hslot rfl) hparameters
    · cases hcommand
      have heid := (Catalog.of_find? hfind).2.1
      have hbuiltin := hcat.mem_builtin (Catalog.of_find? hfind).1
        (Catalog.exists_builtin (by rw [heid]; decide))
      obtain ⟨hstandard, hdeclared, hvargs⟩ := (parameters_builtin d hbuiltin).2.2.2
        (by rw [heid]; decide)
      exact h.agrees_of_added hcat hc (heid ▸ hfind) hid hkind hstandard
        (by rw [hdeclared, hvargs]; rfl) (filled_singleton hdeclared hslot rfl) hparameters

end

/-- Every command of a compiled script is one of the catalog, and where its line is legible it conforms
to what the catalog declares. -/
theorem compile_conforms {lang : Language} (hcat : lang.catalog.Reachable) {lines : List String}
    {out : Compiled} {code : Code} (hcompile : lang.compile lines = .ok out)
    (hcode : out.code = some code) :
    ∀ c ∈ code.commands, ∃ d, lang.Agrees lines c d code.commands.length := by
  intro c hc
  obtain ⟨t₁, t₂, t₃, r, hemits⟩ := emits_of_code hcat hcompile hcode
  exact hemits.agrees hcat hc

/-- Each kind of command, and jumps to labels before and after them. -/
theorem compile_conforms_legible :
    Catalog.builtin.Reachable ∧
      ∃ lines, lines = ["for $i = 1 to $n step -1", "$x = $i + 2", "skip if not $x", "goto out",
          "end", "[THIS] -> call script 'x' : 5", "out:", "gosub out:"] ∧
        ∃ out code, (⟨.builtin, .threat⟩ : Language).compile lines = .ok out ∧
          out.code = some code ∧ ∀ c ∈ code.commands, ∃ d,
            (⟨.builtin, .threat⟩ : Language).find? c.id = some d ∧
              c.Conforms d code.commands.length := by
  have conforms : ∀ lines : List String, (∀ text ∈ lines, ∀ t ∈ tokens text, t.isSigil = false) →
      (((⟨.builtin, .threat⟩ : Language).compile lines).toOption.bind (·.code)).isSome = true →
      ∃ out code, (⟨.builtin, .threat⟩ : Language).compile lines = .ok out ∧
        out.code = some code ∧ ∀ c ∈ code.commands, ∃ d,
          (⟨.builtin, .threat⟩ : Language).find? c.id = some d ∧
            c.Conforms d code.commands.length := by
    intro lines hsigil hsome
    refine exists_code hsome ?_
    intro out code hcompile hcode c hc
    obtain ⟨d, hagrees⟩ := compile_conforms .builtin hcompile hcode c hc
    have hspaced : ∀ d ∈ Catalog.builtin.definitions, d.isIdentifiable = true →
        d.parameters.length ≤ (tokens d.text).countP Token.isValue := by decide +kernel
    refine ⟨d, hagrees.find?_eq, hagrees.conforms fun hidentifiable => ?_⟩
    exact ⟨hspaced d (Catalog.of_find? hagrees.find?_eq).1 hidentifiable,
      fun text htext => hsigil text (List.mem_of_getElem? htext)⟩
  exact ⟨.builtin, _, rfl, conforms _ (by decide +kernel) (by decide +kernel)⟩

/-- Dollar signs that stand alone make a `for` whose slots hold nulls, which none of them accepts. -/
theorem compile_conforms_sigils :
    ∃ out code c d, (⟨.builtin, .terranConflict⟩ : Language).compile
        ["for $ = $ to $ step $", "end"] = .ok out ∧
      out.code = some code ∧ c ∈ code.commands ∧
      (⟨.builtin, .terranConflict⟩ : Language).find? c.id = some d ∧
      ¬ c.Conforms d code.commands.length := by
  obtain ⟨out, code, hcompile, hcode, hany⟩ := exists_code_of_any ⟨.builtin, .terranConflict⟩
    ["for $ = $ to $ step $", "end"]
    (fun code => code.commands.any fun c =>
      c.id == CommandId.forLoop && c.parameters[0]?.map (·.dataType) == some .null)
    (by decide +kernel)
  obtain ⟨c, hc, hfor⟩ := List.any_eq_true.mp hany
  simp only [Bool.and_eq_true, beq_iff_eq] at hfor
  have hbuiltin : ∃ b ∈ Catalog.builtin.definitions, b.id = CommandId.forLoop :=
    Catalog.exists_builtin (by decide)
  obtain ⟨d, hd, hdid, hfind⟩ :=
    Catalog.Reachable.builtin.find?_builtin hbuiltin .terranConflict
  refine ⟨out, code, c, d, hcompile, hcode, hc, hfor.1 ▸ hfind, ?_⟩
  intro hconforms
  have hdeclared : ∀ d ∈ Catalog.builtin.definitions, d.id = CommandId.forLoop →
      d.parameters[0]? = some .var := by
    rw [Catalog.definitions_builtin]
    decide
  obtain ⟨p, hp, haccepts⟩ := hconforms.accepted 0 .var (hdeclared d hd hdid)
  rw [hp] at hfor
  have hnull : p.dataType = .null := Option.some.inj hfor.2
  rw [hnull] at haccepts
  cases haccepts

end Language

end MissionScript
