import MissionScript.Proofs.Catalog.Placeholders
import MissionScript.Proofs.Compile.LabelReports
import MissionScript.Proofs.Compile.Written
import MissionScript.Proofs.Token.Shape

/-!
# MissionScript.Proofs.Compile.LabelNames

The names of labels in a compiled script.

Labels are compared as they are written, and compiled as what they stand for: a label in apostrophes
stands for the text between them. In a script that is compiled no two labels are written the same, so
the names of labels that are written without apostrophes are different
(`compile_distinguishes_labels`). A label in apostrophes may have the name of another one
(`compile_distinguishes_labels_quoted`).

A declaration is a command of the catalog with one slot. The proof follows its label from the token
on the line to the parameter of the statement and to that of the command; the table of symbols has
it from the same parameter, and the check for labels that are declared twice compares the texts in
that table.
-/

namespace MissionScript

/-! ### What a label stands for

Only texts are accepted as names of labels. A text comes from a label or from a string, and the
first character tells which of them it was. -/

/-- Is a label written in apostrophes? -/
def isQuoted (text : String) : Bool := text.toList.head? == some '\''

/-- What a declaration compiles to when its label is written as `text`. Nothing is written where a dollar
sign without a name takes the place of the label. -/
def labelValue (text : String) : CodeParameter :=
  if text = "" then ⟨.null, .int 0⟩
  else if isQuoted text then ⟨.string, .str (String.ofList (unquote text.toList))⟩
  else ⟨.string, .str text⟩

/-- Labels that are written without apostrophes stand for themselves. -/
theorem eq_of_labelValue {x y : String} (hx : isQuoted x = false) (hy : isQuoted y = false)
    (h : labelValue x = labelValue y) : x = y := by
  unfold labelValue at h
  rw [hx, hy] at h
  by_cases hxnil : x = ""
  · by_cases hynil : y = ""
    · rw [hxnil, hynil]
    · simp [hxnil, hynil] at h
  · by_cases hynil : y = ""
    · simp [hxnil, hynil] at h
    · simpa [hxnil, hynil] using h

/-- Of the tokens of a line, strings begin with an apostrophe, and labels do not. -/
theorem isQuoted_of_mem_tokens {text : String} {t : Token} (h : t ∈ tokens text) :
    t.text ≠ "" ∧ (t.kind = .string → isQuoted t.text = true) ∧
      (t.kind = .label → isQuoted t.text = false) := by
  obtain ⟨place, c, cs, hkind, htext⟩ := exists_scan h
  have hlist : t.text.toList = c :: (scan place c cs).2 := by rw [htext, String.toList_ofList]
  have hquoted : isQuoted t.text = (c == '\'') := by
    rw [isQuoted, hlist]
    rfl
  refine ⟨fun hnil => by simp [hnil] at hlist, fun hstring => ?_, fun hlabel => ?_⟩
  · rw [hquoted, first_of_kind_scan.2 (hkind.symm.trans hstring)]
    rfl
  · rw [hquoted, beq_eq_false_iff_ne]
    rintro rfl
    -- an apostrophe begins a string, or stands in a comment
    rw [hkind, scan, if_neg (by decide)] at hlabel
    split at hlabel
    · cases hlabel
    · rw [if_neg (by simp), if_neg (by decide), if_neg (by decide), if_pos rfl] at hlabel
      cases hlabel

/-- A token that is accepted as the name of a label stands for what is written. -/
theorem labelValue_of_ofToken {text : String} {t : Token} (h : t ∈ tokens text) {slot : Slot}
    {p : Parameter} (hp : Parameter.ofToken slot t = .ok p)
    (haccepts : ParameterType.labelName.accepts p.dataType = true) :
    labelValue p.text = ⟨p.dataType, p.value⟩ := by
  obtain ⟨hne, hstring, hlabel⟩ := isQuoted_of_mem_tokens h
  unfold Parameter.ofToken at hp
  cases hread : Parameter.read t with
  | error error =>
      rw [hread] at hp
      cases hp
  | ok found =>
      rw [hread] at hp
      cases hp
      unfold Parameter.read at hread
      split at hread
      all_goals first
        | (next hkind =>
            cases hread
            rw [labelValue, if_neg hne, if_pos (hstring hkind)])
        | (next hkind =>
            cases hread
            rw [labelValue, if_neg hne, hlabel hkind, if_neg Bool.false_ne_true])
        | (split at hread <;> cases hread <;> cases haccepts)
        | (cases hread <;> cases haccepts)

/-! ### What a declaration holds

There is one command for declarations, and one slot in it. Whatever is placed in this slot is
accepted as the name of a label, since the check of the tree has not complained. -/

namespace Tree

/-- What is neither a variable nor the label of a jump is compiled as it is. -/
theorem encodeParameter_eq {p : Parameter} (hslot : p.slot.type ≠ .labelNumber)
    (hvar : p.dataType ≠ .var) (jump : Option Nat) (vars : List String) :
    (encodeParameter jump vars p).2 = ⟨p.dataType, p.value⟩ := by
  rcases encodeParameter_cases jump vars p with ⟨hlabel, -⟩ | ⟨htype, hvalue⟩
  · exact absurd hlabel hslot
  · rw [← htype, ← hvalue hvar]

end Tree

namespace Language

open MissionScript.Tree

/-- The command that declares labels. -/
theorem defineLabel_builtin : ∀ d ∈ Catalog.builtin.definitions, d.id = CommandId.defineLabel →
    d.kind = .standard ∧ d.parameters = [.labelName] ∧ d.order = [0] ∧ d.vargs = 0 := by
  rw [Catalog.definitions_builtin]
  decide

/-- What is placed is the conditional, or it has been read from a token. -/
theorem Places.conditional_or_token {found : Candidate} {condition : Conditional} {line : Nat}
    {shaped : List Token} {values : List Parameter} (h : Places found line shaped values)
    {p : Parameter} (hp : p ∈ placed found condition shaped values) :
    p.dataType = .integer ∨ ∃ t ∈ shaped, Parameter.ofToken p.slot t = .ok p := by
  rcases List.mem_append.mp hp with homitted | hvalue
  · unfold omittedReturn at homitted
    split at homitted
    · obtain ⟨slot, -, rfl⟩ := List.mem_map.mp homitted
      exact Or.inl rfl
    · cases homitted
  · obtain ⟨k, hk⟩ := List.getElem?_of_mem hvalue
    obtain ⟨-, t, ht, htoken⟩ := (of_bindValues h.values_eq).2 k p hk
    exact Or.inr ⟨t, (List.mem_filter.mp (List.mem_of_getElem? ht)).1, htoken⟩

/-- What is placed in a declaration is the label, and it is compiled to what it stands for. -/
theorem Places.encode_label {found : Candidate} {text : String} {line : Nat} {shaped : List Token}
    {values : List Parameter} (h : Places found line shaped values)
    (hparameters : found.definition.parameters = [.labelName])
    (hshaped : ∀ t ∈ shaped, t ∈ commandTokens text) {p : Parameter}
    (hp : p ∈ placed found (conditionOf text) shaped values)
    (haccepts : p.slot.type.accepts p.dataType = true) (jump : Option Nat) (vars : List String) :
    (encodeParameter jump vars p).2 = labelValue p.text := by
  have htype : p.slot.type = .labelName := by
    obtain ⟨j, hj⟩ := List.getElem?_of_mem hp
    have hslot := (Definition.of_slotAtDisplay? (h.slot_of_placed hj)).2
    have hdeclared := (Definition.of_slot? hslot).2
    rw [hparameters, List.getElem?_singleton] at hdeclared
    split at hdeclared
    · exact (Option.some.inj hdeclared).symm
    · cases hdeclared
  rw [htype] at haccepts
  have hvar : p.dataType ≠ .var := by
    intro hdata
    rw [hdata] at haccepts
    cases haccepts
  rw [encodeParameter_eq (by simp [htype]) hvar]
  rcases h.conditional_or_token hp with hinteger | ⟨t, ht, htoken⟩
  · rw [hinteger] at haccepts
    cases haccepts
  · have hmem := mem_tokens_of_mem_commandTokens (hshaped t ht)
    exact (labelValue_of_ofToken hmem htoken haccepts).symm

/-- A declaration has one parameter, and it is compiled to what the label stands for. -/
theorem Recognised.exists_label {lang : Language} {text : String} {s : Statement}
    {found : Candidate} {shaped arguments : List Token}
    (h : lang.Recognised (conditionOf text) (commandTokens text) s found shaped arguments)
    (hparameters : found.definition.parameters = [.labelName])
    (horder : found.definition.order = [0]) (hvargs : found.definition.vargs = 0)
    (hchecked : ∀ p ∈ s.parameters, p.slot.type.accepts p.dataType = true) :
    ∃ p, s.parameters = [p] ∧
      ∀ jump vars, (encodeParameter jump vars p).2 = labelValue p.text := by
  obtain ⟨values, args, _, hvalues, rfl, hargs, heq⟩ := bindParameters_eq_ok_iff.mp h.parameters_eq
  have hlength := length_of_bindParameters h.parameters_eq h.length_arguments
  rw [hparameters, hvargs] at hlength
  obtain ⟨p, hp⟩ := List.length_eq_one_iff.mp hlength
  have hnone : args = [] := by
    have hle := h.length_arguments
    rw [hvargs, ← length_of_bindArguments hargs] at hle
    exact List.eq_nil_of_length_eq_zero (Nat.le_zero.mp hle)
  have hmem : p ∈ s.parameters := by rw [hp]; exact List.mem_singleton_self p
  refine ⟨p, hp, fun jump vars => ?_⟩
  have haccepts := hchecked p hmem
  rw [heq, hnone, List.append_nil] at hmem
  rcases List.mem_append.mp hmem with hplaced | hpadded
  · -- something is written, and it is the label
    obtain ⟨physical, -, hfind⟩ := List.mem_filterMap.mp hplaced
    have hplaces : Places found s.line shaped values :=
      ⟨hvalues, fun _ => by
        simp [Definition.slotAtDisplay?, Definition.slot?, horder, hparameters]⟩
    have hshaped : ∀ t ∈ shaped, t ∈ commandTokens text := by
      intro t ht
      rw [h.tokens_eq]
      exact List.mem_append_left _ ht
    exact hplaces.encode_label hparameters hshaped (List.mem_of_find?_eq_some hfind) haccepts _ _
  · -- nothing is written, and the slot is filled up
    obtain ⟨index, -, rfl⟩ := List.mem_map.mp hpadded
    exact encodeParameter_eq (by simp [Parameter.null, Slot.argument]) (by simp [Parameter.null]) _ _

/-- The command of a declaration holds what the label of its line stands for. -/
theorem Written.parameters_of_label {lang : Language} (hcat : lang.catalog.Reachable)
    {lines : List String} {c : Command} {text : String} {s : Statement} {d : Definition}
    (h : lang.Written lines c text s d) (hlabel : c.id = CommandId.defineLabel) :
    c.parameters = [labelValue s.label.text] := by
  have hdid : d.id = CommandId.defineLabel := h.id_eq.symm.trans hlabel
  obtain ⟨vars, hparameters⟩ := h.parameters_eq
  rcases h.cases with ⟨found, shaped, arguments, rfl, hread⟩ | ⟨target, hread⟩ |
    ⟨before, target, hread⟩
  · have hbuiltin : ∃ b ∈ Catalog.builtin.definitions, b.id = found.definition.id := by
      rw [hdid]
      exact Catalog.exists_builtin (by decide)
    obtain ⟨hkind, hps, horder, hvargs⟩ := defineLabel_builtin _
      (hcat.mem_builtin hread.of_candidate.1 hbuiltin) hdid
    have hchecked := (of_statementProblems h.checked).2
    rw [checkedParameters, hkind] at hchecked
    obtain ⟨p, hp, hencoded⟩ := hread.exists_label hps horder hvargs hchecked
    have hlabelled : s.label = p := by rw [Statement.label, hp]; rfl
    rw [hparameters, hkind]
    show (encodeParameters c.jump vars s.parameters).2 = _
    rw [hp, hlabelled, ← hencoded c.jump vars]
    rfl
  · rw [(hread.builtin hcat).1] at hdid
    cases hdid
  · rw [(hread.builtin hcat).1] at hdid
    cases hdid

namespace Emits

variable {lang : Language} {lines : List String} {t₁ t₂ t₃ : Tree} {r : Nat} {code : Code}

/-- The command of a declaration stands for a line that declares a label, and holds what the label
stands for. -/
theorem exists_declaration (hcat : lang.catalog.Reachable) (h : lang.Emits lines t₁ t₂ t₃ r code)
    {c : Command} {id : Nat} (hid : id ∈ t₃.executables) (hc : t₃.Encodes t₃.layout c id)
    (hlabel : c.id = CommandId.defineLabel) :
    c.line = id ∧ ∃ s ∈ lang.declarations lines, s.line = id ∧
      c.parameters = [labelValue s.label.text] := by
  obtain ⟨hmem, hexec⟩ := List.mem_filter.mp hid
  obtain ⟨hpos, hlt⟩ := (mem_preorder_iff h.steps.sound).mp hmem
  have hidentified := hc.id?_eq
  rw [hlabel] at hidentified
  rcases h.node_cases hpos hlt with ⟨hold, hline⟩ | ⟨-, -, hreturn⟩ | ⟨-, line, -, hadded⟩
  · have hcline : c.line = id := hc.line_eq.trans hline
    obtain ⟨text, d, hwritten⟩ := h.written hcat hid hc hold hpos hcline
    have hread : t₃.statement id ∈ lang.readings lines := by
      rw [← map_statement_readLines, h.statement_eq hold]
      exact List.mem_map_of_mem (List.mem_range'_1.mpr (by omega))
    have hcommented : (t₃.statement id).commented = false := by
      simp only [Statement.isExecutable, Bool.and_eq_true, Bool.not_eq_true'] at hexec
      exact hexec.1.1
    have hdeclares : (t₃.statement id).isLabel = true := by
      simp [Statement.isLabel, hcommented, hidentified]
    exact ⟨hcline, t₃.statement id, List.mem_filter.mpr ⟨hread, hdeclares⟩, hline,
      hwritten.parameters_of_label hcat hlabel⟩
  · rw [(of_isAddedReturn hreturn).2] at hidentified
    cases hidentified
  · rw [(of_isAddedJump hadded).2] at hidentified
    cases hidentified

end Emits

/-- The names of two labels in a compiled script are what their lines write, and no two lines write the
same. So the names are different where no apostrophes are written. -/
theorem compile_distinguishes_labels {lang : Language} (hcat : lang.catalog.Reachable)
    {lines : List String} {out : Compiled} {code : Code} (hcompile : lang.compile lines = .ok out)
    (hcode : out.code = some code) :
    ∀ c ∈ code.commands, ∀ c' ∈ code.commands, c.id = CommandId.defineLabel →
      c'.id = CommandId.defineLabel → c.index ≠ c'.index →
        ∃ s ∈ lang.declarations lines, ∃ s' ∈ lang.declarations lines,
          s.line = c.line ∧ s'.line = c'.line ∧ s.label.text ≠ s'.label.text ∧
          c.parameters = [labelValue s.label.text] ∧
          c'.parameters = [labelValue s'.label.text] ∧
          (isQuoted s.label.text = false → isQuoted s'.label.text = false →
            c.parameters ≠ c'.parameters) := by
  intro c hc c' hc' hlabel hlabel' hindex
  obtain ⟨t₁, t₂, t₃, r, hemits⟩ := emits_of_code hcat hcompile hcode
  rw [hemits.code_eq] at hc hc'
  obtain ⟨i, hi, rfl⟩ := List.getElem_of_mem hc
  obtain ⟨j, hj, rfl⟩ := List.getElem_of_mem hc'
  have hencodes := encodes_emit t₃
  have hi' : i < t₃.executables.length := hencodes.length_eq ▸ hi
  have hj' : j < t₃.executables.length := hencodes.length_eq ▸ hj
  obtain ⟨hline, s, hs, hsline, hparameters⟩ := hemits.exists_declaration hcat
    (List.getElem_mem hi') (hencodes.get hi hi') hlabel
  obtain ⟨hline', s', hs', hsline', hparameters'⟩ := hemits.exists_declaration hcat
    (List.getElem_mem hj') (hencodes.get hj hj') hlabel'
  -- the commands stand for different lines, and no label is declared twice
  have hnodup : t₃.executables.Nodup := (nodup_preorder _).filter _
  have hids : t₃.executables[i] ≠ t₃.executables[j] := by
    intro heq
    obtain rfl : i = j := (hnodup.getElem_inj_iff).mp heq
    exact hindex rfl
  have hnames : ((lang.declarations lines).map (·.label.text)).Nodup := by
    have hlabels := duplicateLabels_eq_nil_iff.mp hemits.sane.no_duplicates
    rw [labels_readLines hcat, List.map_map] at hlabels
    exact hlabels
  have htexts : s.label.text ≠ s'.label.text := by
    intro heq
    have hsame : s = s' := List.inj_on_of_nodup_map hnames hs hs' heq
    rw [hsame, hsline'] at hsline
    exact hids hsline.symm
  refine ⟨s, hs, s', hs', hsline.trans hline.symm, hsline'.trans hline'.symm, htexts, hparameters,
    hparameters', fun hquoted hquoted' heq => ?_⟩
  have hsame := hparameters.symm.trans (heq.trans hparameters')
  exact htexts (eq_of_labelValue hquoted hquoted' (List.singleton_injective hsame))

/-- Two labels without apostrophes, and a third one with them: the first two have different names. -/
theorem compile_distinguishes_labels_plain :
    Catalog.builtin.Reachable ∧
      ∃ lines, lines = ["start:", "done:", "'7':", "gosub done:", "gosub '7':", "goto start"] ∧
        ∃ out code c c', (⟨.builtin, .threat⟩ : Language).compile lines = .ok out ∧
          out.code = some code ∧ c ∈ code.commands ∧ c' ∈ code.commands ∧
          c.id = CommandId.defineLabel ∧ c'.id = CommandId.defineLabel ∧ c.index ≠ c'.index ∧
          ∃ s ∈ (⟨.builtin, .threat⟩ : Language).declarations lines,
            ∃ s' ∈ (⟨.builtin, .threat⟩ : Language).declarations lines,
              s.line = c.line ∧ s'.line = c'.line ∧ s.label.text ≠ s'.label.text ∧
              c.parameters = [labelValue s.label.text] ∧
              c'.parameters = [labelValue s'.label.text] ∧
              isQuoted s.label.text = false ∧ isQuoted s'.label.text = false ∧
              c.parameters ≠ c'.parameters := by
  obtain ⟨out, code, hcompile, hcode, hany⟩ := exists_code_of_any ⟨.builtin, .threat⟩
    ["start:", "done:", "'7':", "gosub done:", "gosub '7':", "goto start"]
    (fun code => code.commands.any fun c => code.commands.any fun c' =>
      c.id == CommandId.defineLabel && c'.id == CommandId.defineLabel && c.index != c'.index &&
        c.line == 1 && c'.line == 2)
    (by decide +kernel)
  obtain ⟨c, hc, hany⟩ := List.any_eq_true.mp hany
  obtain ⟨c', hc', hlabels⟩ := List.any_eq_true.mp hany
  simp only [Bool.and_eq_true, beq_iff_eq, bne_iff_ne] at hlabels
  obtain ⟨⟨⟨⟨hlabel, hlabel'⟩, hindex⟩, hline⟩, hline'⟩ := hlabels
  obtain ⟨s, hs, s', hs', hsline, hsline', htexts, hparameters, hparameters', hnames⟩ :=
    compile_distinguishes_labels .builtin hcompile hcode c hc c' hc' hlabel hlabel' hindex
  -- only the label on the third line is quoted
  have hplain : ((⟨.builtin, .threat⟩ : Language).declarations
      ["start:", "done:", "'7':", "gosub done:", "gosub '7':", "goto start"]).all
      (fun s => s.line == 3 || !isQuoted s.label.text) = true := by decide +kernel
  have hunquoted : isQuoted s.label.text = false := by
    have hor := List.all_eq_true.mp hplain s hs
    rw [hsline, hline] at hor
    simpa using hor
  have hunquoted' : isQuoted s'.label.text = false := by
    have hor := List.all_eq_true.mp hplain s' hs'
    rw [hsline', hline'] at hor
    simpa using hor
  exact ⟨.builtin, _, rfl, out, code, c, c', hcompile, hcode, hc, hc', hlabel, hlabel', hindex,
    s, hs, s', hs', hsline, hsline', htexts, hparameters, hparameters', hunquoted, hunquoted',
    hnames hunquoted hunquoted'⟩

/-- A label and the same label in apostrophes get the same name. -/
theorem compile_distinguishes_labels_quoted :
    ∃ out code c c', (⟨.builtin, .terranConflict⟩ : Language).compile
        ["abc:", "'abc':", "goto abc"] = .ok out ∧
      out.code = some code ∧ c ∈ code.commands ∧ c' ∈ code.commands ∧
      c.id = CommandId.defineLabel ∧ c'.id = CommandId.defineLabel ∧ c.index ≠ c'.index ∧
      c.parameters = c'.parameters := by
  obtain ⟨out, code, hcompile, hcode, hany⟩ := exists_code_of_any ⟨.builtin, .terranConflict⟩
    ["abc:", "'abc':", "goto abc"]
    (fun code => code.commands.any fun c => code.commands.any fun c' =>
      c.id == CommandId.defineLabel && c'.id == CommandId.defineLabel && c.index != c'.index &&
        c.parameters == c'.parameters)
    (by decide +kernel)
  obtain ⟨c, hc, hany⟩ := List.any_eq_true.mp hany
  obtain ⟨c', hc', hlabels⟩ := List.any_eq_true.mp hany
  simp only [Bool.and_eq_true, beq_iff_eq, bne_iff_ne] at hlabels
  obtain ⟨⟨⟨hlabel, hlabel'⟩, hindex⟩, hsame⟩ := hlabels
  exact ⟨out, code, c, c', hcompile, hcode, hc, hc', hlabel, hlabel', hindex, hsame⟩

end Language

end MissionScript
