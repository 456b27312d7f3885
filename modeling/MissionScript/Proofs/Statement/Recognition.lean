import MissionScript.Proofs.Statement.Binding
import MissionScript.Proofs.Statement.Problems

/-!
# MissionScript.Proofs.Statement.Recognition

The ways in which a command can be read: by its shape (`Recognised`), as an expression
(`ReadExpression`) or as a script call (`ReadCall`). `readCommand_cases` says that there are no others,
and what each of them puts into the return value slot.

Each of the three is a structure with all that its reader has established, so later proofs take a
command apart by these fields and never by the branches of a reader. `Recognised` also says of which
form in the catalog the line is; the other two are looked up by their numbers, and what they are
then follows from the built-in definitions.
-/

namespace MissionScript

namespace Language

/-! ### The three ways -/

/-- Does a return value stand in front of a script call? -/
def writesReturn : List Token → Bool
  | t :: equals :: _ => t.kind == .var && equals.isOperator "="
  | _ => false

/-- The tokens have been recognised by their shape, with arguments at their end. -/
structure Recognised (lang : Language) (condition : Conditional) (ts : List Token) (s : Statement)
    (found : Candidate) (shaped arguments : List Token) : Prop where
  command_eq : s.command = some found.definition
  candidate : found ∈ lang.candidates condition shaped
  tokens_eq : ts = shaped ++ arguments
  length_arguments : arguments.length ≤ found.definition.vargs
  parameters_eq : bindParameters found condition s.line shaped arguments = .ok s.parameters
  splitCall_eq : splitCall ts = none

/-- The slot that an expression is assigned to. -/
def expressionSlot (d : Definition) : Slot := (d.slot? 0).getD ⟨.returnValueIf, 0, 0⟩

/-- The tokens of an expression, without the variable that it is assigned to. -/
def operandTokens (condition : Conditional) (ts : List Token) : List Token :=
  if condition.isTest then ts else ts.drop 2

/-- The tokens have been read as an expression, which is tested or assigned to a variable. -/
structure ReadExpression (lang : Language) (condition : Conditional) (ts : List Token) (s : Statement)
    (d : Definition) (target : Parameter) : Prop where
  command_eq : s.command = some d
  found : lang.command CommandId.expression = .ok d
  parameters_eq : s.parameters.head? = some target
  target_eq :
    (condition.isTest = true ∧
      target = Parameter.conditional (expressionSlot d) condition (Token.extent ts)) ∨
    (condition = .unconditional ∧ ∃ t rest, ts = t :: rest ∧ t.kind = .var ∧
      Parameter.ofToken (expressionSlot d) t = .ok target)
  isExpression_eq : isExpression condition ts = true
  splitCall_eq : splitCall ts = none
  parsed : ∃ found, Expression.parse (operandTokens condition ts) 1 = .ok found ∧
    s.parameters = target :: found.written ∧ s.evaluated = found.evaluated

/-- The tokens have been read as a script call, in front of which the tokens `before` stand. -/
structure ReadCall (lang : Language) (condition : Conditional) (ts : List Token) (s : Statement)
    (d : Definition) (before : List Token) (target : Parameter) : Prop where
  command_eq : s.command = some d
  found : lang.command CommandId.callScript = .ok d
  splitCall_eq : ∃ word after, splitCall ts = some (before, word, after)
  parameters_eq : ∃ name object arguments, s.parameters = name :: target :: object :: arguments ∧
    name.slot = callSlot d 0 ∧ object.slot = callSlot d 2
  target_eq :
    (writesReturn before = true ∧ target.slot = callSlot d 1 ∧ target.dataType = .var) ∨
    (writesReturn before = false ∧ target =
      if condition = .unconditional then Parameter.null (callSlot d 1)
      else Parameter.conditional (callSlot d 1) condition (Token.extent ts))

/-! ### Commands of the catalog

A command is found by the shape of a beginning of the line, and the tokens after that beginning are
its variable arguments. -/

/-- The arguments stand at the end of the line, and there are no more than the command may have. -/
theorem of_findCommand {lang : Language} {condition : Conditional} {ts arguments : List Token}
    {found : Candidate} (h : lang.findCommand condition ts = some (found, arguments)) :
    found ∈ lang.candidates condition (ts.take (ts.length - arguments.length)) ∧
      ts = ts.take (ts.length - arguments.length) ++ arguments ∧
      arguments.length ≤ found.definition.vargs := by
  unfold findCommand at h
  split at h
  · next c hc =>
    cases h
    simpa using List.mem_of_head? hc
  · obtain ⟨stripped, hstripped, hs⟩ := List.exists_of_findSome?_eq_some h
    obtain ⟨c, hc, heq⟩ := Option.map_eq_some_iff.mp hs
    cases heq
    have hle : stripped ≤ ts.length := by
      have htrailing := (List.takeWhile_prefix (l := ts.reverse) Token.isValue).length_le
      rw [List.length_reverse] at htrailing
      rw [List.mem_range'_1] at hstripped
      omega
    have hlength : (ts.drop (ts.length - stripped)).length = stripped := by
      rw [List.length_drop]
      omega
    have hvargs : stripped ≤ found.definition.vargs := by simpa using List.find?_some hc
    rw [hlength]
    exact ⟨List.mem_of_find?_eq_some hc, (List.take_append_drop _ _).symm, hvargs⟩

/-- What the catalog says about a command that has been recognised. -/
theorem Recognised.of_candidate {lang : Language} {condition : Conditional} {ts : List Token}
    {s : Statement} {found : Candidate} {shaped arguments : List Token}
    (h : lang.Recognised condition ts s found shaped arguments) :
    found.definition ∈ lang.catalog.definitions ∧
      found.definition.supports lang.version = true ∧
      (⟨Token.shape shaped, found.omitsReturn⟩ : Form) ∈ found.definition.forms ∧
      found.omitsReturn = (condition != .unconditional) := by
  obtain ⟨hmem, homits⟩ := List.mem_filter.mp h.candidate
  obtain ⟨hdefinition, hsupports, hform⟩ := Catalog.form_of_mem_identify hmem
  exact ⟨hdefinition, hsupports, hform, eq_of_beq homits⟩

/-- Only standard commands have forms to be recognised by. -/
theorem Recognised.kind_eq {lang : Language} {condition : Conditional} {ts : List Token}
    {s : Statement} {found : Candidate} {shaped arguments : List Token}
    (h : lang.Recognised condition ts s found shaped arguments) :
    found.definition.isIdentifiable = true ∧ found.definition.kind = .standard := by
  have hidentifiable := Catalog.isIdentifiable_of_mem_forms h.of_candidate.2.2.1
  refine ⟨hidentifiable, ?_⟩
  simp only [Definition.isIdentifiable, Bool.and_eq_true, beq_iff_eq] at hidentifiable
  exact hidentifiable.1

/-- Where the return value is left out, there is a slot for the conditional. -/
theorem Recognised.isSome_first {lang : Language} (hcat : lang.catalog.Reachable)
    {condition : Conditional} {ts : List Token} {s : Statement} {found : Candidate}
    {shaped arguments : List Token} (h : lang.Recognised condition ts s found shaped arguments)
    (homits : found.omitsReturn = true) : (found.definition.slotAtDisplay? 0).isSome = true := by
  obtain ⟨hmem, -, hform, -⟩ := h.of_candidate
  rcases Definition.of_mem_forms hform with ⟨hfull, -⟩ |
    ⟨-, first, equals, rest, index, type, -, -, -, htype, -, -⟩
  · rw [homits] at hfull
    cases hfull
  · obtain ⟨hlt, -⟩ := List.getElem?_eq_some_iff.mp htype
    exact (hcat.arranged _ hmem).isSome_slotAtDisplay? (by omega)

/-- Where no dollar sign stands alone and the parameters are spaced, every slot is filled. -/
theorem Recognised.exists_placed {lang : Language} (hcat : lang.catalog.Reachable)
    {condition : Conditional} {ts : List Token} {s : Statement} {found : Candidate}
    {shaped arguments : List Token} (h : lang.Recognised condition ts s found shaped arguments)
    (hspaced : found.definition.Spaced) (hclear : ∀ t ∈ ts, t.Solid ∧ t.isSigil = false) :
    ∃ values, Places found s.line shaped values ∧
      ∀ i < found.definition.parameters.length, ∃ (j : Nat) (p : Parameter),
        found.definition.order[j]? = some i ∧ found.definition.slot? i = some p.slot ∧
          (placed found condition shaped values)[j]? = some p ∧ s.parameters[i]? = some p := by
  obtain ⟨hmem, -, hform, -⟩ := h.of_candidate
  have hshaped : ∀ t ∈ shaped, t ∈ ts := by
    intro t ht
    rw [h.tokens_eq]
    exact List.mem_append_left _ ht
  have hroom := hspaced.le_countP hform (fun t ht => (hclear t (hshaped t ht)).1)
    fun t ht => (hclear t (hshaped t ht)).2
  exact getElem?_of_bindParameters (hcat.arranged _ hmem) h.parameters_eq hroom (h.isSome_first hcat)

/-- Without words nothing is called. -/
theorem splitCall_eq_none {ts : List Token} (h : ∀ t ∈ ts, t.kind ≠ .word) : splitCall ts = none := by
  fun_induction splitCall ts with
  | case1 a b rest hcall =>
      simp only [Token.isWord, Bool.and_eq_true, beq_iff_eq] at hcall
      exact absurd hcall.1.1 (h a List.mem_cons_self)
  | case2 a b rest hcall ih =>
      rw [ih fun t ht => h t (List.mem_cons_of_mem _ ht), Option.map_none]
  | case3 => rfl

theorem kind_of_isOperator {t : Token} {text : String} (h : t.isOperator text = true) :
    t.kind ≠ .word := by
  intro hk
  simp [Token.isOperator, Token.isOperatorKind, hk] at h

theorem kind_of_isOperandOrOperator {t : Token} (h : isOperandOrOperator t = true) :
    t.kind ≠ .word := by
  intro hk
  simp [isOperandOrOperator, Token.isOperand, Token.isValue, Token.isOperatorKind, hk] at h

theorem kind_of_isElement {a b c d : Token} (h : isElement a b c d = true) :
    ∀ t ∈ [a, b, c, d], t.kind ≠ .word := by
  simp only [isElement, Bool.and_eq_true, beq_iff_eq] at h
  obtain ⟨⟨⟨ha, hb⟩, hc⟩, hd⟩ := h
  have hc' : c.kind ≠ .word := kind_of_isOperandOrOperator (by simp [isOperandOrOperator, hc])
  simp [ha, kind_of_isOperator hb, hc', kind_of_isOperator hd]

/-- Nothing is called where an element of an array is read or written. -/
theorem splitCall_of_isArrayAccess {condition : Conditional} {ts : List Token}
    (h : isArrayAccess condition ts = true) : splitCall ts = none := by
  refine splitCall_eq_none ?_
  unfold isArrayAccess at h
  split at h
  · rw [Bool.and_eq_true] at h
    exact kind_of_isElement h.2
  · next a b c d e f =>
    simp only [Bool.and_eq_true, Bool.or_eq_true] at h
    rcases h.2 with ⟨⟨helement, he⟩, hf⟩ | ⟨⟨ha, hb⟩, helement⟩
    · have hf' : f.kind ≠ .word := kind_of_isOperandOrOperator (by simp [isOperandOrOperator, hf])
      have hrest := kind_of_isElement helement
      simp only [List.forall_mem_cons] at hrest ⊢
      simp [hrest, kind_of_isOperator he, hf']
    · have hrest := kind_of_isElement helement
      simp only [List.forall_mem_cons] at hrest ⊢
      simp only [beq_iff_eq] at ha
      simp [hrest, kind_of_isOperator hb, ha]
  · cases h

/-! ### Expressions

An expression is told by its tokens: all of them are operands and operators, and in an assignment a
variable and an equals sign stand in front. There is no word among them, so nothing is called. -/

/-- An expression is tested, or it is assigned to the variable in front of it. -/
theorem of_isExpression {condition : Conditional} {ts : List Token}
    (h : isExpression condition ts = true) :
    splitCall ts = none ∧ (condition.isTest = true ∨
      condition = .unconditional ∧ ∃ t rest, ts = t :: rest ∧ t.kind = .var) := by
  unfold isExpression at h
  split at h
  · next htest =>
    refine ⟨splitCall_eq_none fun t ht => ?_, Or.inl htest⟩
    exact kind_of_isOperandOrOperator (List.all_eq_true.mp h t ht)
  · simp only [Bool.and_eq_true, beq_iff_eq] at h
    obtain ⟨hcondition, h⟩ := h
    split at h
    · next target equals operands =>
      simp only [Bool.and_eq_true, beq_iff_eq, List.all_eq_true] at h
      obtain ⟨⟨⟨htarget, hequals⟩, -⟩, hoperands⟩ := h
      refine ⟨splitCall_eq_none ?_, Or.inr ⟨hcondition, target, _, rfl, htarget⟩⟩
      simp only [List.forall_mem_cons]
      refine ⟨by simp [htarget], kind_of_isOperator hequals, ?_⟩
      exact fun t ht => kind_of_isOperandOrOperator (hoperands t ht)
    · cases h

/-- An expression is read as one, with the conditional of its line. -/
theorem of_readExpression {lang : Language} {condition : Conditional} {ts : List Token} {line : Nat}
    {text : String} {s : Statement} (hexpression : isExpression condition ts = true)
    (h : lang.readExpression condition ts line text = .ok s) :
    s.condition = condition ∧ ∃ d target, lang.ReadExpression condition ts s d target := by
  obtain ⟨hcall, htarget⟩ := of_isExpression hexpression
  unfold readExpression at h
  obtain ⟨d, hd, h⟩ := bind_eq_ok.mp h
  have hfound := mapError_eq_ok.mp hd
  dsimp only at h
  split at h
  · -- all tokens are operands, and the conditional is the target
    next htest =>
    obtain ⟨⟨target, operands⟩, hpair, h⟩ := bind_eq_ok.mp h
    cases hpair
    obtain ⟨expression, hparse, h⟩ := bind_eq_ok.mp h
    rw [pure_eq_ok] at h
    subst h
    have hparsed := mapError_eq_ok.mp hparse
    refine ⟨rfl, d, _, rfl, hfound, rfl, Or.inl ⟨htest, rfl⟩, hexpression, hcall, expression, ?_, rfl,
      rfl⟩
    rw [operandTokens, if_pos htest]
    exact hparsed
  · next htest =>
    -- the first token is the target, and the operands come after the equals sign
    obtain ⟨hcondition, t, rest, hts, hkind⟩ := htarget.resolve_left htest
    split at h
    · next t' equals operands =>
      cases hts
      split at h
      · next target htoken =>
        obtain ⟨⟨target', operands'⟩, hpair, h⟩ := bind_eq_ok.mp h
        cases hpair
        obtain ⟨expression, hparse, h⟩ := bind_eq_ok.mp h
        rw [pure_eq_ok] at h
        subst h
        have hparsed := mapError_eq_ok.mp hparse
        refine ⟨rfl, d, _, rfl, hfound, rfl, Or.inr ⟨hcondition, t, _, rfl, hkind, htoken⟩, hexpression,
          hcall, expression, ?_, rfl, rfl⟩
        rw [operandTokens, if_neg htest]
        exact hparsed
      · obtain ⟨_, herror, -⟩ := bind_eq_ok.mp h
        cases herror
    · obtain ⟨_, herror, -⟩ := bind_eq_ok.mp h
      cases herror

/-! ### Script calls

A call is read in pieces, and each piece has a lemma that says when it is read and what it gives.
They are stated as equivalences because the lines that are rejected matter as well. -/

section

variable {d : Definition} {line : Nat} {ts rest : List Token}

theorem bindToken_eq_ok_iff {slot : Slot} {t : Token} {p : Parameter} :
    bindToken slot line t = .ok p ↔ Parameter.ofToken slot t = .ok p :=
  mapError_eq_ok

/-- A return value in front of a call is a variable with an equals sign behind it. -/
theorem readCallReturn_eq_ok_iff {target : Option Parameter} :
    readCallReturn d line ts = .ok (target, rest) ↔
      (∃ t equals p, ts = t :: equals :: rest ∧ t.kind = .var ∧ equals.isOperator "=" = true ∧
        Parameter.ofToken (callSlot d 1) t = .ok p ∧ target = some p) ∨
      (writesReturn ts = false ∧ ts = rest ∧ target = none) := by
  constructor
  · intro h
    unfold readCallReturn at h
    split at h
    · next t equals rest' =>
      split at h
      · next hwrites =>
        rw [Bool.and_eq_true, beq_iff_eq] at hwrites
        obtain ⟨p, hp, h⟩ := bind_eq_ok.mp h
        rw [pure_eq_ok] at h
        cases h
        exact Or.inl ⟨t, equals, p, rfl, hwrites.1, hwrites.2, bindToken_eq_ok_iff.mp hp, rfl⟩
      · next hwrites =>
        cases h
        exact Or.inr ⟨by simpa [writesReturn] using hwrites, rfl, rfl⟩
    · next hshort =>
      cases h
      refine Or.inr ⟨?_, rfl, rfl⟩
      unfold writesReturn
      split
      · next t equals rest' => exact absurd rfl (hshort t equals rest')
      · rfl
  · rintro (⟨t, equals, p, rfl, hvar, hequals, hp, rfl⟩ | ⟨hwrites, rfl, rfl⟩)
    · rw [readCallReturn, if_pos (by rw [hvar, hequals]; rfl), bindToken_eq_ok_iff.mpr hp]
      rfl
    · unfold readCallReturn
      split
      · exact if_neg (by simpa only [writesReturn, Bool.not_eq_true] using hwrites)
      · rfl

/-- An object in front of a call is a value with an arrow behind it, and nothing else is there. -/
theorem readCallObject_eq_ok_iff {object : Option Parameter} :
    readCallObject d line ts = .ok object ↔
      (ts = [] ∧ object = none) ∨
      ∃ t arrow p, ts = [t, arrow] ∧ t.isValue = true ∧ arrow.isOperator "->" = true ∧
        Parameter.ofToken (callSlot d 2) t = .ok p ∧ object = some p := by
  constructor
  · intro h
    unfold readCallObject at h
    split at h
    · cases h
      exact Or.inl ⟨rfl, rfl⟩
    · next t arrow =>
      split at h
      · next hmarked =>
        obtain ⟨hvalue, harrow⟩ := Bool.and_eq_true_iff.mp hmarked
        obtain ⟨p, hp, h⟩ := bind_eq_ok.mp h
        rw [pure_eq_ok] at h
        exact Or.inr ⟨t, arrow, p, rfl, hvalue, harrow, bindToken_eq_ok_iff.mp hp, h.symm⟩
      · cases h
    · cases h
  · rintro (⟨rfl, rfl⟩ | ⟨t, arrow, p, rfl, hvalue, harrow, hp, rfl⟩)
    · rfl
    · rw [readCallObject, if_pos (by rw [hvalue, harrow]; rfl), bindToken_eq_ok_iff.mpr hp]
      rfl

/-- The name of a script is a string or a word. -/
theorem readCallName_eq_ok_iff {word : Token} {name : Parameter} :
    readCallName d line word ts = .ok (name, rest) ↔
      ∃ t, ts = t :: rest ∧
        (t.kind = .string ∧ Parameter.ofToken (callSlot d 0) t = .ok name ∨
          t.kind = .word ∧ name = Parameter.ofText (callSlot d 0) t.text t.start t.stop) := by
  constructor
  · intro h
    unfold readCallName at h
    split at h
    · next t rest' =>
      split at h
      · next hstring =>
        obtain ⟨p, hp, h⟩ := bind_eq_ok.mp h
        rw [pure_eq_ok] at h
        cases h
        exact ⟨t, rfl, Or.inl ⟨beq_iff_eq.mp hstring, bindToken_eq_ok_iff.mp hp⟩⟩
      · split at h
        · next hword =>
          cases h
          exact ⟨t, rfl, Or.inr ⟨beq_iff_eq.mp hword, rfl⟩⟩
        · cases h
    · cases h
  · rintro ⟨t, rfl, ⟨hstring, hp⟩ | ⟨hword, rfl⟩⟩
    · rw [readCallName, if_pos (beq_iff_eq.mpr hstring), bindToken_eq_ok_iff.mpr hp]
      rfl
    · simp [readCallName, hword]

end

/-- A script call is read as one, with the conditional of its line. -/
theorem of_readScriptCall {lang : Language} {condition : Conditional} {ts before after : List Token}
    {word : Token} {line : Nat} {text : String} {s : Statement}
    (hsplit : splitCall ts = some (before, word, after))
    (h : lang.readScriptCall condition ts before word after line text = .ok s) :
    s.condition = condition ∧ ∃ d target, lang.ReadCall condition ts s d before target := by
  unfold readScriptCall at h
  obtain ⟨d, hd, h⟩ := bind_eq_ok.mp h
  obtain ⟨⟨target, object⟩, htarget, h⟩ := bind_eq_ok.mp h
  obtain ⟨⟨name, rest⟩, hname, h⟩ := bind_eq_ok.mp h
  obtain ⟨args, -, h⟩ := bind_eq_ok.mp h
  obtain ⟨arguments, -, h⟩ := bind_eq_ok.mp h
  rw [pure_eq_ok] at h
  subst h
  rw [readCallTarget_eq] at htarget
  obtain ⟨⟨target', rest'⟩, hreturn, htarget⟩ := bind_eq_ok.mp htarget
  obtain ⟨object', hobject, htarget⟩ := bind_eq_ok.mp htarget
  rw [pure_eq_ok] at htarget
  cases htarget
  refine ⟨rfl, d, _, rfl, mapError_eq_ok.mp hd, ⟨word, after, hsplit⟩,
    ⟨name, _, arguments, rfl, ?_, ?_⟩, ?_⟩
  · obtain ⟨t, -, ⟨-, hp⟩ | ⟨-, rfl⟩⟩ := readCallName_eq_ok_iff.mp hname
    · exact (Parameter.of_ofToken hp).1
    · rfl
  · rcases readCallObject_eq_ok_iff.mp hobject with ⟨-, rfl⟩ | ⟨t, arrow, p, -, -, -, hp, rfl⟩
    · rfl
    · exact (Parameter.of_ofToken hp).1
  · rcases readCallReturn_eq_ok_iff.mp hreturn with
      ⟨t, equals, p, rfl, hvar, hequals, hp, rfl⟩ | ⟨hwrites, -, rfl⟩
    · obtain ⟨hslot, hread, -⟩ := Parameter.of_ofToken hp
      rw [Parameter.read, hvar] at hread
      exact Or.inl ⟨by simp [writesReturn, hvar, hequals], hslot,
        (Prod.mk.inj (Except.ok.inj hread)).1.symm⟩
    · exact Or.inr ⟨hwrites, rfl⟩

/-! ### Built-in commands

What the catalog says about the commands that the compiler relies on is known, whatever else it has:
a reachable catalog begins with the built-in definitions, and no later one can take their numbers. -/

/-- The built-in commands that are not recognised by their shape, and those that jump to labels. -/
theorem parameters_builtin : ∀ d ∈ Catalog.builtin.definitions,
    (d.id = CommandId.callScript → d.kind = .scriptCall ∧
      d.parameters = [.scriptName, .returnValueIfStart, .refObj] ∧ d.order = [1, 2, 0]) ∧
    (d.id = CommandId.expression →
      d.kind = .expression ∧ d.parameters = [.returnValueIf] ∧ d.order = [0]) ∧
    (d.id = CommandId.finish → d.kind = .standard ∧ d.parameters = [.value] ∧ d.vargs = 0) ∧
    (d.id ∈ [CommandId.gotoLabel, CommandId.gosub, CommandId.hiddenJump] →
      d.kind = .standard ∧ d.parameters = [.labelNumber] ∧ d.vargs = 0) := by
  rw [Catalog.definitions_builtin]
  decide

/-- The command for expressions. -/
theorem ReadExpression.builtin {lang : Language} (hcat : lang.catalog.Reachable)
    {condition : Conditional} {ts : List Token} {s : Statement} {d : Definition} {target : Parameter}
    (h : lang.ReadExpression condition ts s d target) :
    d.id = CommandId.expression ∧ lang.find? d.id = some d ∧ d.kind = .expression ∧
      d.parameters = [.returnValueIf] ∧ d.order = [0] := by
  obtain ⟨hmem, hid, hfind⟩ := builtin_of_command hcat h.found (Catalog.exists_builtin (by decide))
  exact ⟨hid, hid ▸ hfind, (parameters_builtin d hmem).2.1 hid⟩

/-- The command for script calls. -/
theorem ReadCall.builtin {lang : Language} (hcat : lang.catalog.Reachable) {condition : Conditional}
    {ts : List Token} {s : Statement} {d : Definition} {before : List Token} {target : Parameter}
    (h : lang.ReadCall condition ts s d before target) :
    d.id = CommandId.callScript ∧ lang.find? d.id = some d ∧ d.kind = .scriptCall ∧
      d.parameters = [.scriptName, .returnValueIfStart, .refObj] ∧ d.order = [1, 2, 0] := by
  obtain ⟨hmem, hid, hfind⟩ := builtin_of_command hcat h.found (Catalog.exists_builtin (by decide))
  exact ⟨hid, hid ▸ hfind, (parameters_builtin d hmem).1 hid⟩

/-- The target of an expression stands in the slot of its return value. -/
theorem ReadExpression.slot_eq {lang : Language} {condition : Conditional} {ts : List Token}
    {s : Statement} {d : Definition} {target : Parameter}
    (h : lang.ReadExpression condition ts s d target) : target.slot = expressionSlot d := by
  rcases h.target_eq with ⟨-, rfl⟩ | ⟨-, t, rest, -, -, htoken⟩
  · rfl
  · exact (Parameter.of_ofToken htoken).1

/-- The target of a call stands in the second slot, behind the name of the script. -/
theorem ReadCall.slot_eq {lang : Language} {condition : Conditional} {ts : List Token} {s : Statement}
    {d : Definition} {before : List Token} {target : Parameter}
    (h : lang.ReadCall condition ts s d before target) : target.slot = callSlot d 1 := by
  rcases h.target_eq with ⟨-, hslot, -⟩ | ⟨-, rfl⟩
  · exact hslot
  · split <;> rfl

/-! ### All commands -/

/-- A command is recognised by its shape, or it is an expression or a script call. -/
theorem readCommand_cases {lang : Language} {condition : Conditional} {ts : List Token} {line : Nat}
    {text : String} {s : Statement} (h : lang.readCommand condition ts line text = .ok s) :
    s.condition = condition ∧
      ((∃ found shaped arguments, lang.Recognised condition ts s found shaped arguments) ∨
        (∃ d target, lang.ReadExpression condition ts s d target) ∨
        ∃ d before target, lang.ReadCall condition ts s d before target) := by
  unfold readCommand at h
  split at h
  · cases h
  · next first rest =>
    split at h
    · -- an access to an array is always the same command
      next harray =>
      unfold readArrayAccess at h
      split at h
      · cases h
      · next found hfound =>
        obtain ⟨ps, hps, h⟩ := bind_eq_ok.mp h
        rw [pure_eq_ok] at h
        subst h
        exact ⟨rfl, Or.inl ⟨found, _, [], rfl, List.mem_of_head? hfound, by simp, Nat.zero_le _, hps,
          splitCall_of_isArrayAccess harray⟩⟩
    · split at h
      · next hexpression =>
        obtain ⟨hcondition, d, target, hread⟩ := of_readExpression hexpression h
        exact ⟨hcondition, Or.inr (Or.inl ⟨d, target, hread⟩)⟩
      · split at h
        · next before word after hsplit =>
          obtain ⟨hcondition, d, target, hread⟩ := of_readScriptCall hsplit h
          exact ⟨hcondition, Or.inr (Or.inr ⟨d, before, target, hread⟩)⟩
        · -- what is left is looked up by its shape
          next hsplit =>
          split at h
          · next found arguments hfound =>
            obtain ⟨ps, hps, h⟩ := bind_eq_ok.mp h
            rw [pure_eq_ok] at h
            subst h
            obtain ⟨hmem, htokens, hlength⟩ := of_findCommand hfound
            exact ⟨rfl, Or.inl ⟨found, _, arguments, rfl, hmem, htokens, hlength, hps, hsplit⟩⟩
          · cases h

end Language

end MissionScript
