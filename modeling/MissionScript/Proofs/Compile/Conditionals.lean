import MissionScript.Catalog.Sample
import MissionScript.Proofs.Compile.Conformity

/-!
# MissionScript.Proofs.Compile.Conditionals

The conditional of a line in the compiled script.

A conditional is kept nowhere but in the return value slot of its command, as a number
(`CodeParameter.Records`). `compile_records_iff` says when the slot tells it: a line in whose front no
conditional stands must not write a number where its return value belongs, a script call after a
conditional must not write a return value, and the slot must be the one that the conditional takes, which
is the first on the line (`ClearReturn`). None of this is reported, and `if` and `if not` become one and
the same where a script call writes its return value (`compile_records_call`).
-/

namespace MissionScript

/-- The return value, which is displayed at a given place, is written in such a way that it is not taken
for a conditional, and a conditional is not lost behind it. -/
def ClearReturn (condition : Conditional) (display : Nat) (ts : List Token) : Prop :=
  match Language.splitCall ts with
  | some (before, _, _) => condition = .unconditional ∨ Language.writesReturn before = false
  | none =>
    if condition = .unconditional then
      ∀ t, (ts.filter Token.isValue)[display]? = some t → t.kind ≠ .number
    else
      -- at a later place, only the number of the conditional itself does
      display = 0 ∨ ∃ t, (ts.filter Token.isValue)[display - 1]? = some t ∧
        Parameter.read t = .ok (.integer, .int condition.code)

namespace CodeParameter

/-- The parameter is a number exactly when there is a conditional, and then it is the number of the
conditional. -/
def Records (p : CodeParameter) (condition : Conditional) : Prop :=
  (p.dataType = .integer ↔ condition ≠ .unconditional) ∧
    (condition ≠ .unconditional → p.value = .int condition.code)

theorem records_unconditional_iff {p : CodeParameter} :
    p.Records .unconditional ↔ p.dataType ≠ .integer := by
  simp [Records]

theorem records_of_code {p : CodeParameter} {condition : Conditional} (hc : condition ≠ .unconditional)
    (htype : p.dataType = .integer) (hvalue : p.value = .int condition.code) :
    p.Records condition := by
  simp [Records, hc, htype, hvalue]

end CodeParameter

namespace Language

open MissionScript.Tree

/-- A return value is kept as it is, except for the number of a variable. -/
theorem encodeParameter_of_return {p : Parameter} (h : p.slot.type.isReturnValue = true)
    (jump : Option Nat) (vars : List String) :
    (encodeParameter jump vars p).2.dataType = p.dataType ∧
      (p.dataType ≠ .var → (encodeParameter jump vars p).2.value = p.value) := by
  rcases encodeParameter_cases jump vars p with ⟨hlabel, -⟩ | hkept
  · rw [hlabel] at h
    cases h
  · exact hkept

/-- A slot that holds a conditional records it. -/
theorem records_conditional {slot : Slot} {condition : Conditional} {extent : Nat × Nat}
    (h : slot.type.isReturnValue = true) (hc : condition ≠ .unconditional) (jump : Option Nat)
    (vars : List String) :
    (encodeParameter jump vars (Parameter.conditional slot condition extent)).2.Records condition := by
  obtain ⟨htype, hvalue⟩ :=
    encodeParameter_of_return (p := Parameter.conditional slot condition extent) h jump vars
  exact CodeParameter.records_of_code hc htype (hvalue (by simp [Parameter.conditional]))

section

variable {p : Parameter} {t : Token}

/-- Without a conditional, only a number is taken for one. -/
theorem records_unconditional_of_read (h : p.slot.type.isReturnValue = true)
    (hread : Parameter.read t = .ok (p.dataType, p.value)) (jump : Option Nat) (vars : List String) :
    (encodeParameter jump vars p).2.Records .unconditional ↔ t.kind ≠ .number := by
  rw [CodeParameter.records_unconditional_iff, (encodeParameter_of_return h jump vars).1, Ne,
    Parameter.dataType_eq_integer_iff hread]

/-- A value on the line records a conditional only when it is the number of the conditional. -/
theorem records_of_read {condition : Conditional} (hc : condition ≠ .unconditional)
    (h : p.slot.type.isReturnValue = true)
    (hread : Parameter.read t = .ok (p.dataType, p.value)) (jump : Option Nat) (vars : List String) :
    (encodeParameter jump vars p).2.Records condition ↔
      Parameter.read t = .ok (.integer, .int condition.code) := by
  obtain ⟨htype, hvalue⟩ := encodeParameter_of_return h jump vars
  rw [hread]
  constructor
  · rintro ⟨hinteger, hcode⟩
    have hdata : p.dataType = .integer := by
      rw [← htype]
      exact hinteger.mpr hc
    have hkept := hcode hc
    rw [hvalue (by rw [hdata]; decide)] at hkept
    rw [hdata, hkept]
  · intro heq
    obtain ⟨hdata, hkept⟩ := Prod.mk.inj (Except.ok.inj heq)
    refine CodeParameter.records_of_code hc (htype.trans hdata) ?_
    rw [hvalue (by rw [hdata]; decide), hkept]

end

variable {lang : Language} {condition : Conditional} {ts : List Token} {s : Statement}

/-! ### The three ways of reading

A command of the catalog has its return value in a slot of its own, which the conditional takes when
the form leaves the value out. An expression and a script call have the slot by construction. For
each way the slot that a conditional may be found in is determined first, and then whether what
stands in it could be read as a conditional. -/

/-- A command that is recognised by its shape puts the conditional into the slot that is displayed
first. -/
theorem Recognised.records_iff (hcat : lang.catalog.Reachable) {found : Candidate}
    {shaped arguments : List Token} (h : lang.Recognised condition ts s found shaped arguments)
    (hspaced : found.definition.Spaced) (hclear : ∀ t ∈ ts, t.Solid ∧ t.isSigil = false) {k : Nat}
    {type : ParameterType} (htype : found.definition.parameters[k]? = some type)
    (hreturn : type.isReturnValue = true) :
    ∃ p, s.parameters[k]? = some p ∧ ∀ jump vars,
      (encodeParameter jump vars p).2.Records condition ↔
        ClearReturn condition (found.definition.order.idxOf k) ts := by
  obtain ⟨hmem, -, -, homits⟩ := h.of_candidate
  obtain ⟨hlt, -⟩ := List.getElem?_eq_some_iff.mp htype
  obtain ⟨values, hplaces, hplaced⟩ := h.exists_placed hcat hspaced hclear
  obtain ⟨j, p, horder, hslot, hp, hparameter⟩ := hplaced k hlt
  have hptype : p.slot.type.isReturnValue = true := by
    have hdeclared := (Definition.of_slot? hslot).2
    rw [htype] at hdeclared
    rwa [← Option.some.inj hdeclared]
  have hdisplay : found.definition.order.idxOf k = j := by
    obtain ⟨hj, heq⟩ := List.getElem?_eq_some_iff.mp horder
    rw [← heq]
    exact (hcat.arranged _ hmem).nodup_order.idxOf_getElem j hj
  -- the shape of the command stands at the front, so its values are the first on the line
  have hvalue : ∀ (i : Nat) t, (shaped.filter Token.isValue)[i]? = some t →
      (ts.filter Token.isValue)[i]? = some t := by
    intro i t ht
    obtain ⟨hi, -⟩ := List.getElem?_eq_some_iff.mp ht
    rw [h.tokens_eq, List.filter_append, List.getElem?_append_left hi, ht]
  refine ⟨p, hparameter, fun jump vars => ?_⟩
  rw [ClearReturn, h.splitCall_eq, hdisplay]
  dsimp only
  by_cases hc : condition = .unconditional
  · subst hc
    -- all slots have values, so the return value is the one at its display position
    have hfull : found.omitsReturn = false := by rw [homits]; rfl
    obtain ⟨t, ht, hread⟩ := hplaces.token_of_placed (j := j) (by rwa [hfull])
    rw [if_pos rfl, hvalue j t ht,
      records_unconditional_of_read hptype (Parameter.of_ofToken hread).2.1]
    simp
  · -- the conditional has taken the slot that is displayed first, and the values are moved by one
    have homitted : found.omitsReturn = true := by rw [homits]; simpa using hc
    rw [if_neg hc]
    cases j with
    | zero =>
        obtain ⟨slot, -, heq⟩ := hplaces.omittedReturn_eq homitted condition
        rw [placed, heq] at hp
        cases hp
        exact iff_of_true (records_conditional hptype hc jump vars) (Or.inl rfl)
    | succ j =>
        obtain ⟨t, ht, hread⟩ := hplaces.token_of_placed (j := j) (by rwa [homitted])
        rw [Nat.add_sub_cancel, hvalue j t ht,
          records_of_read hc hptype (Parameter.of_ofToken hread).2.1]
        simp

/-- An expression always records whether it is tested. -/
theorem ReadExpression.records_iff (hcat : lang.catalog.Reachable) {d : Definition}
    {target : Parameter} (h : lang.ReadExpression condition ts s d target) (jump : Option Nat)
    (vars : List String) :
    (encodeParameter jump vars target).2.Records condition ↔ ClearReturn condition 0 ts := by
  obtain ⟨-, -, -, hparameters, -⟩ := h.builtin hcat
  have hslot : (expressionSlot d).type.isReturnValue = true := by
    simp [expressionSlot, Definition.slot?, hparameters, ParameterType.isReturnValue,
      ParameterType.isConditionalReturn]
  rw [ClearReturn, h.splitCall_eq]
  dsimp only
  rcases h.target_eq with ⟨htest, rfl⟩ | ⟨rfl, t, rest, rfl, hkind, htoken⟩
  · have hc : condition ≠ .unconditional := by
      rintro rfl
      cases htest
    rw [if_neg hc]
    exact iff_of_true (records_conditional hslot hc jump vars) (Or.inl rfl)
  · obtain ⟨hslot', hread, -⟩ := Parameter.of_ofToken htoken
    have hvalue : t.isValue = true := by simp [Token.isValue, hkind]
    rw [if_pos rfl, records_unconditional_of_read (hslot' ▸ hslot) hread,
      List.filter_cons_of_pos hvalue]
    simp

/-- A script call records its conditional unless it writes a return value. -/
theorem ReadCall.records_iff (hcat : lang.catalog.Reachable) {d : Definition} {before : List Token}
    {target : Parameter} (h : lang.ReadCall condition ts s d before target) (jump : Option Nat)
    (vars : List String) (display : Nat) :
    (encodeParameter jump vars target).2.Records condition ↔ ClearReturn condition display ts := by
  obtain ⟨-, -, -, hparameters, -⟩ := h.builtin hcat
  have hslot : (callSlot d 1).type.isReturnValue = true := by
    simp [callSlot, Definition.slot?, hparameters, ParameterType.isReturnValue,
      ParameterType.isConditionalReturn]
  obtain ⟨word, after, hsplit⟩ := h.splitCall_eq
  rw [ClearReturn, hsplit]
  dsimp only
  rcases h.target_eq with ⟨hwrites, hslot', hvar⟩ | ⟨hwrites, rfl⟩
  · have htype := (encodeParameter_of_return (hslot' ▸ hslot) jump vars).1
    rw [hvar] at htype
    rw [hwrites]
    by_cases hc : condition = .unconditional
    · subst hc
      simp [CodeParameter.records_unconditional_iff, htype]
    · simp [CodeParameter.Records, hc, htype]
  · refine iff_of_true ?_ (Or.inr hwrites)
    by_cases hc : condition = .unconditional
    · subst hc
      rw [if_pos rfl, CodeParameter.records_unconditional_iff,
        (encodeParameter_of_return (p := Parameter.null (callSlot d 1)) hslot jump vars).1]
      simp [Parameter.null]
    · rw [if_neg hc]
      exact records_conditional hslot hc jump vars

/-! ### All commands

A command of the compiled script is that of a line, or has been added. The commands that are added
have no slot for a return value, so the statement is about lines after all. -/

/-- The command of a line records its conditional exactly when the return value is clear. -/
theorem Written.records_iff (hcat : lang.catalog.Reachable) {lines : List String} {c : Command}
    {text : String} {d : Definition} (hw : lang.Written lines c text s d)
    (hlegible : c.IsLegible lines d) {k : Nat} {type : ParameterType}
    (htype : d.parameters[k]? = some type) (hreturn : type.isReturnValue = true) :
    ∃ p, c.parameters[k]? = some p ∧ (p.Records (conditionOf text) ↔
      ClearReturn (conditionOf text) (d.order.idxOf k) (commandTokens text)) := by
  obtain ⟨vars, hparameters⟩ := hw.parameters_eq
  rcases hw.cases with ⟨found, shaped, arguments, rfl, hread⟩ | ⟨target, hread⟩ |
    ⟨before, target, hread⟩
  · obtain ⟨hidentifiable, hkind⟩ := hread.kind_eq
    obtain ⟨hspaced, hclear⟩ := hw.clear_of_isLegible hlegible hidentifiable
    rw [parameters_encodeStatement (by rw [hkind]; decide)] at hparameters
    obtain ⟨p, hp, hrecords⟩ := hread.records_iff hcat hspaced hclear htype hreturn
    obtain ⟨vars', hencoded⟩ := getElem?_encodeParameters c.jump vars hp
    exact ⟨_, hparameters ▸ hencoded, hrecords c.jump vars'⟩
  · obtain ⟨-, -, hkind, hdeclared, horder⟩ := hread.builtin hcat
    obtain rfl : k = 0 := by
      obtain ⟨hlt, -⟩ := List.getElem?_eq_some_iff.mp htype
      rw [hdeclared, List.length_singleton] at hlt
      omega
    obtain ⟨rest, hrest⟩ := List.head?_eq_some_iff.mp hread.parameters_eq
    rw [hkind, encodeStatement, hrest] at hparameters
    rw [horder]
    exact ⟨_, by rw [hparameters]; rfl, hread.records_iff hcat none vars⟩
  · obtain ⟨-, -, hkind, hdeclared, -⟩ := hread.builtin hcat
    obtain rfl : k = 1 := by
      rw [hdeclared] at htype
      match k with
      | 0 | 2 => cases htype; cases hreturn
      | 1 => rfl
      | k + 3 => cases htype
    obtain ⟨name, object, args, heq, -, -⟩ := hread.parameters_eq
    rw [parameters_encodeStatement (by rw [hkind]; decide)] at hparameters
    obtain ⟨vars', hencoded⟩ := getElem?_encodeParameters c.jump vars
      (show s.parameters[1]? = some target by rw [heq]; rfl)
    exact ⟨_, hparameters ▸ hencoded, hread.records_iff hcat c.jump vars' _⟩

/-- What has been added has no return value. -/
theorem Emits.written_of_return (hcat : lang.catalog.Reachable) {lines : List String}
    {t₁ t₂ t₃ : Tree} {r : Nat} {code : Code} (h : lang.Emits lines t₁ t₂ t₃ r code) {c : Command}
    (hc : c ∈ code.commands) {d : Definition} (hd : lang.find? c.id = some d)
    (hreturn : ∃ type ∈ d.parameters, type.isReturnValue = true) :
    ∃ text s, lang.Written lines c text s d := by
  rcases h.written_cases hcat hc with ⟨text, s, e, hw⟩ | ⟨s, e, vars, hid, -, hcommand, -, hadded⟩
  · rw [hw.find?_eq hcat] at hd
    cases hd
    exact ⟨text, s, hw⟩
  · obtain ⟨type, htype, hvalue⟩ := hreturn
    obtain ⟨hmem, hdid, -⟩ := Catalog.of_find? hd
    rw [hid] at hdid
    have hadded' : d.id = CommandId.finish ∨ d.id = CommandId.hiddenJump := by
      rw [hdid]
      rcases hadded with hreturn | hjump
      · have := (of_isAddedReturn hreturn).2
        simp only [Statement.id?, hcommand, Option.map_some, Option.some.injEq] at this
        exact Or.inl this
      · have := (of_isAddedJump hjump).2
        simp only [Statement.id?, hcommand, Option.map_some, Option.some.injEq] at this
        exact Or.inr this
    have hbuiltin : d ∈ Catalog.builtin.definitions := by
      refine hcat.mem_builtin hmem (Catalog.exists_builtin ?_)
      rcases hadded' with heq | heq <;> rw [heq] <;> decide
    have hnone := parameters_builtin d hbuiltin
    rcases hadded' with heq | heq
    · rw [(hnone.2.2.1 heq).2.1, List.mem_singleton] at htype
      rw [htype] at hvalue
      cases hvalue
    · rw [(hnone.2.2.2 (by rw [heq]; decide)).2.1, List.mem_singleton] at htype
      rw [htype] at hvalue
      cases hvalue

/-- The return value slot of a command records the conditional of its line exactly when the return value
on the line is clear. -/
theorem compile_records_iff (hcat : lang.catalog.Reachable) {lines : List String} {out : Compiled}
    {code : Code} (hcompile : lang.compile lines = .ok out) (hcode : out.code = some code)
    {c : Command} (hc : c ∈ code.commands) {d : Definition} (hd : lang.find? c.id = some d) {k : Nat}
    (hk : d.parameters.findIdx? ParameterType.isReturnValue = some k)
    (hlegible : c.IsLegible lines d) :
    ∃ text p, lines[c.line - 1]? = some text ∧ c.parameters[k]? = some p ∧
      (p.Records (conditionOf text) ↔
        ClearReturn (conditionOf text) (d.order.idxOf k) (commandTokens text)) := by
  obtain ⟨t₁, t₂, t₃, r, hemits⟩ := emits_of_code hcat hcompile hcode
  obtain ⟨hlt, hreturn, -⟩ := List.findIdx?_eq_some_iff_getElem.mp hk
  obtain ⟨text, s, hw⟩ := hemits.written_of_return hcat hc hd ⟨_, List.getElem_mem hlt, hreturn⟩
  obtain ⟨p, hp, hrecords⟩ :=
    hw.records_iff hcat hlegible (List.getElem?_eq_getElem hlt) hreturn
  exact ⟨text, p, hw.text_eq, hp, hrecords⟩

/-- A loop that tests a command of the catalog: the slot of the return value holds the test. -/
theorem compile_records_iff_docked :
    Catalog.sample.Reachable ∧ ∃ lines, lines = ["while not [THIS] -> is docked", "end"] ∧
      ∃ out code c d p, (⟨.sample, .threat⟩ : Language).compile lines = .ok out ∧
        out.code = some code ∧ c ∈ code.commands ∧
        (⟨.sample, .threat⟩ : Language).find? c.id = some d ∧
        d.parameters.findIdx? ParameterType.isReturnValue = some 0 ∧ c.IsLegible lines d ∧
        c.parameters[0]? = some p ∧ p.Records .whileNot := by
  have hcat : Catalog.sample.Reachable :=
    Catalog.of_extend (P := Catalog.Reachable) .insert .builtin Catalog.sampleDefinitions
  have hdefinition : ((⟨.sample, .threat⟩ : Language).find? 401).any (fun d =>
      d.parameters.findIdx? ParameterType.isReturnValue == some 0 && d.order.idxOf 0 == 0 &&
        d.parameters.length ≤ (tokens d.text).countP Token.isValue) = true := by decide +kernel
  obtain ⟨out, code, hcompile, hcode, hany⟩ := exists_code_of_any ⟨.sample, .threat⟩
    ["while not [THIS] -> is docked", "end"]
    (fun code => code.commands.any fun c => c.id == 401 && c.line == 1) (by decide +kernel)
  obtain ⟨c, hc, hfound⟩ := List.any_eq_true.mp hany
  simp only [Bool.and_eq_true, beq_iff_eq] at hfound
  obtain ⟨hid, hline⟩ := hfound
  cases hd : (⟨.sample, .threat⟩ : Language).find? 401 with
  | none =>
      rw [hd] at hdefinition
      cases hdefinition
  | some d =>
      rw [hd] at hdefinition
      simp only [Option.any_some, Bool.and_eq_true, beq_iff_eq, decide_eq_true_eq] at hdefinition
      obtain ⟨⟨hk, hdisplay⟩, hspaced⟩ := hdefinition
      have hlegible : c.IsLegible ["while not [THIS] -> is docked", "end"] d := by
        refine fun _ => ⟨hspaced, ?_⟩
        rw [hline]
        rintro text ⟨⟩
        decide +kernel
      obtain ⟨text, p, htext, hp, hrecords⟩ :=
        compile_records_iff hcat hcompile hcode hc (hid ▸ hd) hk hlegible
      refine ⟨hcat, _, rfl, out, code, c, d, p, hcompile, hcode, hc, hid ▸ hd, hk, hlegible, hp, ?_⟩
      rw [hline] at htext
      cases htext
      have hcondition : conditionOf "while not [THIS] -> is docked" = .whileNot := by decide +kernel
      have hcall : splitCall (commandTokens "while not [THIS] -> is docked") = none := by
        decide +kernel
      rw [hcondition, ClearReturn, hcall, hdisplay] at hrecords
      exact hrecords.mpr (Or.inl rfl)

/-- A script call that is tested and writes its return value: nothing is left of the test, and `if not`
gives the same script. -/
theorem compile_records_call :
    ∃ out out' code c d k text p,
      (⟨.builtin, .terranConflict⟩ : Language).compile ["if $r = call script 'x'", "end"]
        = .ok out ∧
      (⟨.builtin, .terranConflict⟩ : Language).compile ["if not $r = call script 'x'", "end"]
        = .ok out' ∧
      out.code = some code ∧ out'.code = some code ∧ c ∈ code.commands ∧
      (⟨.builtin, .terranConflict⟩ : Language).find? c.id = some d ∧
      d.parameters.findIdx? ParameterType.isReturnValue = some k ∧
      ["if $r = call script 'x'", "end"][c.line - 1]? = some text ∧ c.parameters[k]? = some p ∧
      ¬ p.Records (conditionOf text) := by
  -- both scripts have the same code, and the return value slot of the call holds the variable
  have hsame : ((⟨.builtin, .terranConflict⟩ : Language).compile
        ["if not $r = call script 'x'", "end"]).toOption.bind (·.code)
      = ((⟨.builtin, .terranConflict⟩ : Language).compile
        ["if $r = call script 'x'", "end"]).toOption.bind (·.code) := by decide +kernel
  obtain ⟨out, code, hcompile, hcode, hany⟩ := exists_code_of_any ⟨.builtin, .terranConflict⟩
    ["if $r = call script 'x'", "end"]
    (fun code => code.commands.any fun c => c.id == CommandId.callScript && c.line == 1 &&
      c.parameters[1]?.any (·.dataType == .var))
    (by decide +kernel)
  obtain ⟨out', code', hcompile', hcode', heq⟩ := exists_code_of_any _ _ (· == code)
    (by rw [hsame, hcompile]; simp [Except.toOption, hcode])
  obtain rfl := eq_of_beq heq
  obtain ⟨c, hc, hfound⟩ := List.any_eq_true.mp hany
  simp only [Bool.and_eq_true, beq_iff_eq] at hfound
  obtain ⟨⟨hid, hline⟩, hvar⟩ := hfound
  have hbuiltin : ∃ b ∈ Catalog.builtin.definitions, b.id = CommandId.callScript :=
    Catalog.exists_builtin (by decide)
  obtain ⟨d, hd, hdid, hfind⟩ :=
    Catalog.Reachable.builtin.find?_builtin hbuiltin .terranConflict
  have hdeclared := ((parameters_builtin d hd).1 hdid).2.1
  cases hp : c.parameters[1]? with
  | none =>
      rw [hp] at hvar
      cases hvar
  | some p =>
      rw [hp, Option.any_some, beq_iff_eq] at hvar
      refine ⟨out, out', code', c, d, 1, _, p, hcompile, hcompile', hcode, hcode', hc, hid ▸ hfind,
        by rw [hdeclared]; rfl, by rw [hline]; rfl, hp, ?_⟩
      rintro ⟨hinteger, -⟩
      have hcondition : conditionOf "if $r = call script 'x'" = .ifTrue := by decide +kernel
      rw [hvar, hcondition] at hinteger
      exact absurd (hinteger.mpr (by decide)) (by decide)

end Language

end MissionScript
