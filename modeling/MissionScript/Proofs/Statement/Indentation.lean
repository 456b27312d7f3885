import MissionScript.Proofs.Catalog.Placeholders
import MissionScript.Proofs.Expression.Indentation
import MissionScript.Proofs.Statement.Problems
import MissionScript.Proofs.Statement.Recognition
import Mathlib.Data.List.Forall2

/-!
# MissionScript.Proofs.Statement.Indentation

What stands on a line does not depend on the blanks in front of it.

When the tokens of a line are moved, every reader gives the same problem, or what it reads is moved along
(`Moved`). Only what stands nowhere on the line stays: the nulls that fill up the slots, and a conditional
in front of nothing. They fit their slots, so there will be nothing to report about them.

The proof goes through the readers in the order in which they call each other. Each of them gets one
lemma, and all of these lemmas have the same form: `Agree Same R x y` says that two readings go
wrong with the same problem, or give results that `R` relates. Such lemmas are put together along
the binds of a reader, so that a change to one reader touches its own lemma and none of those that
cite it.

The catalog enters in one place only. A form that leaves the return value out must leave out one
that may carry a conditional, or the conditional would have nowhere to go; that is a property of the
templates (`MissionScript.Proofs.Catalog.Placeholders`), and the reason why the catalog has to be
reachable.
-/

namespace MissionScript

open Text

/-- What is looked for is found in both lists at the same place. -/
theorem rel_find? {α β : Type} {R : α → β → Prop} {p : α → Bool} {q : β → Bool} {xs : List α}
    {ys : List β} (h : List.Forall₂ R xs ys) (hpq : ∀ x y, R x y → q y = p x) :
    Option.Rel R (xs.find? p) (ys.find? q) := by
  induction h with
  | nil => exact .none
  | @cons x y xs ys hxy _ ih =>
      rw [List.find?_cons, List.find?_cons, hpq x y hxy]
      cases p x with
      | true => exact .some hxy
      | false => exact ih

/-- What is chosen for each element corresponds. -/
theorem forall₂_filterMap {α β γ : Type} {R : β → γ → Prop} {f : α → Option β} {g : α → Option γ}
    (h : ∀ x, Option.Rel R (f x) (g x)) (xs : List α) :
    List.Forall₂ R (xs.filterMap f) (xs.filterMap g) := by
  refine List.rel_filterMap (R := Eq) ?_ (List.forall₂_same.mpr fun _ _ => rfl)
  rintro x _ rfl
  exact h x

/-! ### Parameters

A parameter that was read from tokens moves with them. Two kinds of parameter were not: the null of
a slot that nothing fills, and a conditional in front of nothing, whose extent is empty. Both stand
at the beginning of the line whatever the blanks there are. -/

namespace Parameter

/-- The parameter moved to the right, or one that stands nowhere and fits its slot. -/
inductive Moved (offset : Nat) (p : Parameter) : Parameter → Prop
  | shifted : Moved offset p (p.shift offset)
  | unplaced (htext : p.text = "") (hstart : p.start = 0)
      (haccepts : p.slot.type.accepts p.dataType = true) : Moved offset p p

namespace Moved

variable {offset : Nat} {p q : Parameter}

theorem slot_eq (h : Moved offset p q) : q.slot = p.slot := by cases h <;> rfl

theorem text_eq (h : Moved offset p q) : q.text = p.text := by cases h <;> rfl

theorem null {slot : Slot} (h : slot.type.accepts .null = true) :
    Moved offset (Parameter.null slot) (Parameter.null slot) := .unplaced rfl rfl h

/-- A conditional moves along with the tokens after it. -/
theorem conditional {slot : Slot} (condition : Conditional) {ts : List Token}
    (h : ts = [] → slot.type.isConditionalReturn = true) :
    Moved offset (Parameter.conditional slot condition (Token.extent ts))
      (Parameter.conditional slot condition (Token.extent (ts.map (Token.shift offset)))) := by
  by_cases hts : ts = []
  · subst hts
    exact .unplaced rfl rfl (ParameterType.accepts_integer_of_isConditionalReturn (h rfl))
  · rw [Token.extent_map_shift offset hts]
    exact .shifted

/-- Parameters that are all read from tokens all move. -/
theorem map_shift (offset : Nat) (ps : List Parameter) :
    List.Forall₂ (Moved offset) ps (ps.map (Parameter.shift offset)) := by
  rw [List.forall₂_map_right_iff]
  exact List.forall₂_same.mpr fun _ _ => .shifted

end Moved

end Parameter

/-! ### Problems

A problem moves along with the tokens it is about, but a problem with the line as a whole stays at
its beginning. So all that can be said of any two is that they are about the same thing. -/

namespace Diagnostic

/-- The diagnostics are about the same problem with the same line. -/
structure Same (d e : Diagnostic) : Prop where
  problem_eq : e.problem = d.problem
  line_eq : e.line = d.line

theorem Same.refl (d : Diagnostic) : d.Same d := ⟨rfl, rfl⟩

end Diagnostic

open Diagnostic (Same)

/-! ### Statements

The text of a statement is kept as it was written, so it is the same up to the blanks around it. -/

/-- What the second statement says is the same, and where it does has moved. -/
structure Statement.Moved (offset : Nat) (s s' : Statement) : Prop where
  flow_eq : s'.flow = s.flow
  condition_eq : s'.condition = s.condition
  command_eq : s'.command = s.command
  line_eq : s'.line = s.line
  commented_eq : s'.commented = s.commented
  synthetic_eq : s'.synthetic = s.synthetic
  parameters : List.Forall₂ (Parameter.Moved offset) s.parameters s'.parameters
  evaluated_eq : s'.evaluated = s.evaluated.map (Parameter.shift offset)
  start_eq : s'.start = s.start + offset
  trim_eq : trim s'.text = trim s.text

/-- A statement is put together from its line alike if the parts that were read correspond. -/
theorem Statement.moved_ofLine {offset : Nat} {text text' : String} (htext : Indented offset text text')
    (command : Option Definition) (condition : Conditional) {ps qs : List Parameter}
    (h : List.Forall₂ (Parameter.Moved offset) ps qs) (line : Nat) :
    (ofLine command condition ps line text).Moved offset
      (ofLine command condition qs line text') where
  flow_eq := rfl
  condition_eq := rfl
  command_eq := rfl
  line_eq := rfl
  commented_eq := rfl
  synthetic_eq := rfl
  parameters := h
  evaluated_eq := rfl
  start_eq := htext.length_takeWhile
  trim_eq := htext.trim_eq

namespace Language

section

variable (line offset : Nat)

/-! ### Binding

What is bound to a slot depends on the text of a token, and the token's place is only copied. The
exception are the slots that no token fills, which is why the parameters of a command are `Moved`
and not just shifted. -/

theorem agree_bindToken (slot : Slot) (t : Token) :
    Agree Same (fun p q => q = p.shift offset) (bindToken slot line t)
      (bindToken slot line (t.shift offset)) :=
  (Parameter.agree_ofToken slot offset t).mapError fun _ _ h => ⟨by rw [h]; rfl, rfl⟩

theorem agree_bindValues (d : Definition) (display : Nat) (ts : List Token) :
    Agree Same (fun ps qs => qs = ps.map (Parameter.shift offset)) (bindValues d line display ts)
      (bindValues d line display (ts.map (Token.shift offset))) := by
  induction ts generalizing display with
  | nil => exact .ok rfl
  | cons t ts ih =>
      rw [List.map_cons]
      unfold bindValues
      cases d.slotAtDisplay? display with
      | none => exact .error ⟨rfl, rfl⟩
      | some slot =>
          dsimp only
          have hread := Parameter.agree_ofToken slot offset t
          generalize Parameter.ofToken slot t = x at hread ⊢
          generalize Parameter.ofToken slot (t.shift offset) = y at hread ⊢
          cases hread with
          | error h => exact .error ⟨by rw [h]; rfl, rfl⟩
          | ok h =>
              subst h
              exact (ih _).bind fun _ _ h => .ok (by rw [h]; rfl)

theorem agree_bindArguments (index : Nat) (ts : List Token) :
    Agree Same (fun ps qs => qs = ps.map (Parameter.shift offset)) (bindArguments line index ts)
      (bindArguments line index (ts.map (Token.shift offset))) := by
  induction ts generalizing index with
  | nil => exact .ok rfl
  | cons t ts ih =>
      rw [List.map_cons]
      unfold bindArguments
      have hread := Parameter.agree_ofToken (Slot.argument index) offset t
      generalize Parameter.ofToken (Slot.argument index) t = x at hread ⊢
      generalize Parameter.ofToken (Slot.argument index) (t.shift offset) = y at hread ⊢
      cases hread with
      | error h => exact .error ⟨by rw [h]; rfl, rfl⟩
      | ok h =>
          subst h
          exact (ih _).bind fun _ _ h => .ok (by rw [h]; rfl)

theorem agree_bindParameters {found : Candidate} (condition : Conditional) (ts arguments : List Token)
    (hfound : found.omitsReturn = true →
      ∀ slot, found.definition.slotAtDisplay? 0 = some slot → slot.type.isConditionalReturn = true) :
    Agree Same (List.Forall₂ (Parameter.Moved offset))
      (bindParameters found condition line ts arguments)
      (bindParameters found condition line (ts.map (Token.shift offset))
        (arguments.map (Token.shift offset))) := by
  unfold bindParameters
  rw [List.filter_map]
  refine (agree_bindValues line offset _ _ _).bind fun values values' hvalues => ?_
  subst hvalues
  have homitted : List.Forall₂ (Parameter.Moved offset) (omittedReturn found condition ts)
      (omittedReturn found condition (ts.map (Token.shift offset))) := by
    unfold omittedReturn
    cases homits : found.omitsReturn with
    | false => exact .nil
    | true =>
        rw [if_pos rfl, if_pos rfl]
        cases hslot : found.definition.slotAtDisplay? 0 with
        | none => exact .nil
        | some slot => exact .cons (.conditional condition fun _ => hfound homits slot hslot) .nil
  have hplaced := List.rel_append homitted (Parameter.Moved.map_shift offset values)
  have hparameters := forall₂_filterMap
    (fun physical : Nat => rel_find? hplaced (p := (·.slot.physical == physical))
      (q := (·.slot.physical == physical)) fun _ _ hpq => by rw [hpq.slot_eq])
    (List.range found.definition.parameters.length)
  dsimp only
  rw [← hparameters.length_eq]
  refine (agree_bindArguments line offset _ _).bind fun bound bound' hbound => ?_
  subst hbound
  have hall := List.rel_append hparameters (Parameter.Moved.map_shift offset bound)
  refine .ok ?_
  rw [← hall.length_eq]
  refine List.rel_append hall (List.forall₂_same.mpr fun p hp => ?_)
  obtain ⟨index, -, rfl⟩ := List.mem_map.mp hp
  exact .null rfl

/-! ### What a line is

The questions by which a reader chooses its way (is it an access to an array, does it begin with a
conditional, is it a call of a script) are about kinds and texts of tokens, which moving leaves
alone. -/

theorem isArrayAccess_map_shift (condition : Conditional) (ts : List Token) :
    isArrayAccess condition (ts.map (Token.shift offset)) = isArrayAccess condition ts := by
  rcases ts with _ | ⟨a, _ | ⟨b, _ | ⟨c, _ | ⟨d, _ | ⟨e, _ | ⟨f, _ | ⟨g, rest⟩⟩⟩⟩⟩⟩⟩ <;> rfl

theorem isExpression_map_shift (condition : Conditional) (ts : List Token) :
    isExpression condition (ts.map (Token.shift offset)) = isExpression condition ts := by
  have hall : ∀ us : List Token,
      (us.map (Token.shift offset)).all isOperandOrOperator = us.all isOperandOrOperator := by
    intro us
    rw [List.all_map]
    rfl
  unfold isExpression
  rw [hall]
  rcases ts with _ | ⟨target, _ | ⟨equals, operands⟩⟩
  · rfl
  · rfl
  · simp only [List.map_cons, hall, List.isEmpty_map]
    rfl

theorem stripKeywords_map_shift (words : List String) (ts : List Token) :
    stripKeywords words (ts.map (Token.shift offset))
      = (stripKeywords words ts).map (List.map (Token.shift offset)) := by
  induction words generalizing ts with
  | nil => rfl
  | cons word words ih =>
      cases ts with
      | nil => rfl
      | cons t ts =>
          rw [List.map_cons, stripKeywords, stripKeywords, Token.isKeyword_shift, ih]
          split <;> rfl

theorem readConditional_map_shift (ts : List Token) :
    readConditional (ts.map (Token.shift offset))
      = ((readConditional ts).1, (readConditional ts).2.map (Token.shift offset)) := by
  have htests : (testWords.findSome? fun test =>
        (stripKeywords test.1 (ts.map (Token.shift offset))).map (test.2, ·))
      = (testWords.findSome? fun test => (stripKeywords test.1 ts).map (test.2, ·)).map
          (Prod.map id (List.map (Token.shift offset))) := by
    rw [List.map_findSome?]
    congr 1
    funext test
    rw [stripKeywords_map_shift, Function.comp_apply, Option.map_map, Option.map_map]
    rfl
  unfold readConditional
  dsimp only
  rw [htests]
  cases testWords.findSome? fun test => (stripKeywords test.1 ts).map (test.2, ·) with
  | some found => rfl
  | none =>
      cases ts with
      | nil => rfl
      | cons t rest =>
          simp only [Option.map_none, List.map_cons, Token.isKeyword_shift, List.isEmpty_map]
          split <;> rfl

theorem splitCall_map_shift (ts : List Token) :
    splitCall (ts.map (Token.shift offset)) = (splitCall ts).map fun call =>
      (call.1.map (Token.shift offset), call.2.1.shift offset, call.2.2.map (Token.shift offset)) := by
  fun_induction splitCall ts with
  | case1 a b rest hcall =>
      rw [List.map_cons, List.map_cons, splitCall, Token.isWord_shift, Token.isWord_shift, if_pos hcall]
      rfl
  | case2 a b rest hcall ih =>
      rw [List.map_cons, List.map_cons, splitCall, Token.isWord_shift, Token.isWord_shift, if_neg hcall,
        ← List.map_cons, ih, Option.map_map, Option.map_map]
      rfl
  | case3 ts hshort =>
      rcases ts with _ | ⟨a, _ | ⟨b, rest⟩⟩
      · rfl
      · rfl
      · exact absurd rfl (hshort a b rest)

/-! ### Commands of the catalog

Commands are looked up by the shape of a line, and so they are found alike. -/

/-- The commands that a line may stand for depend on its shape and its conditional. -/
theorem candidates_map_shift (lang : Language) (condition : Conditional) (ts : List Token) :
    lang.candidates condition (ts.map (Token.shift offset)) = lang.candidates condition ts := by
  rw [candidates, candidates, Token.shape_map_shift]

/-- The same command is found, for the same tokens. -/
theorem findCommand_map_shift (lang : Language) (condition : Conditional) (ts : List Token) :
    lang.findCommand condition (ts.map (Token.shift offset))
      = (lang.findCommand condition ts).map (Prod.map id (List.map (Token.shift offset))) := by
  have htrailing : ((ts.map (Token.shift offset)).reverse.takeWhile Token.isValue).length
      = (ts.reverse.takeWhile Token.isValue).length := by
    rw [← List.map_reverse, List.takeWhile_map, List.length_map]
    rfl
  unfold findCommand
  dsimp only
  rw [candidates_map_shift, htrailing, List.length_map]
  cases (lang.candidates condition ts).head? with
  | some found => rfl
  | none =>
      dsimp only
      rw [List.map_findSome?]
      congr 1
      funext stripped
      rw [← List.map_take, candidates_map_shift, ← List.map_drop, Function.comp_apply, Option.map_map]
      rfl

/-- A line that leaves the return value out has room for the conditional. -/
theorem isConditionalReturn_of_candidate {lang : Language} (hcat : lang.catalog.Reachable)
    {condition : Conditional} {ts : List Token} {found : Candidate}
    (h : found ∈ lang.candidates condition ts) (homits : found.omitsReturn = true) (slot : Slot)
    (hslot : found.definition.slotAtDisplay? 0 = some slot) : slot.type.isConditionalReturn = true := by
  obtain ⟨hdefinition, -, hform⟩ := Catalog.form_of_mem_identify (List.mem_filter.mp h).1
  rw [homits] at hform
  exact hcat.isConditionalReturn_of_omitsReturn hdefinition hform hslot

/-! ### Expressions and script calls

These two forms are read by readers of their own. Both fill a slot for a return value: with the
target if one is written, else with the conditional, else with a null. -/

section

variable {offset} {text text' : String} (htext : Indented offset text text')

include htext

theorem agree_readArrayAccess {lang : Language} (hcat : lang.catalog.Reachable)
    (condition : Conditional) (ts : List Token) :
    Agree Same (Statement.Moved offset) (lang.readArrayAccess condition ts line text)
      (lang.readArrayAccess condition (ts.map (Token.shift offset)) line text') := by
  unfold readArrayAccess
  rw [candidates_map_shift]
  cases hfound : (lang.candidates condition ts).head? with
  | none => exact .error ⟨rfl, rfl⟩
  | some found =>
      exact (agree_bindParameters line offset condition ts []
        (isConditionalReturn_of_candidate hcat (List.mem_of_head? hfound))).bind fun ps qs h =>
          .ok (Statement.moved_ofLine htext _ _ h line)

theorem agree_readExpression (lang : Language) (condition : Conditional) {ts : List Token}
    (hts : ts ≠ []) :
    Agree Same (Statement.Moved offset) (lang.readExpression condition ts line text)
      (lang.readExpression condition (ts.map (Token.shift offset)) line text') := by
  -- with its target known, an expression is read alike, whether it is assigned or tested
  have hparse : ∀ (d : Definition) (target target' : Parameter) (us : List Token),
      Parameter.Moved offset target target' →
      Agree Same (Statement.Moved offset)
        (do
          let expression ← (Expression.parse us 1).mapError fun e =>
            (⟨.expression e.fault, line, e.start, e.stop⟩ : Diagnostic)
          return { Statement.ofLine (some d) condition (target :: expression.written) line text with
            evaluated := expression.evaluated })
        (do
          let expression ← (Expression.parse (us.map (Token.shift offset)) 1).mapError fun e =>
            (⟨.expression e.fault, line, e.start, e.stop⟩ : Diagnostic)
          return { Statement.ofLine (some d) condition (target' :: expression.written) line text' with
            evaluated := expression.evaluated }) := by
    intro d target target' us htarget
    refine Agree.bind ((Expression.agree_parse offset 1 us).mapError ?_) ?_
    · intro e e' h
      exact ⟨congrArg Problem.expression h, rfl⟩
    · intro found found' h
      have hwritten := Parameter.Moved.map_shift offset found.written
      rw [← h.1] at hwritten
      have hmoved := Statement.moved_ofLine htext (some d) condition (.cons htarget hwritten) line
      exact .ok { hmoved with evaluated_eq := h.2 }
  unfold readExpression
  refine .bind_self Same.refl _ fun d => ?_
  dsimp only
  split
  · exact hparse d _ _ ts (.conditional condition fun h => absurd h hts)
  · rcases ts with _ | ⟨t, _ | ⟨equals, operands⟩⟩
    · exact absurd rfl hts
    · exact .error ⟨rfl, rfl⟩
    · simp only [List.map_cons]
      have hread := Parameter.agree_ofToken ((d.slot? 0).getD ⟨.returnValueIf, 0, 0⟩) offset t
      generalize Parameter.ofToken ((d.slot? 0).getD ⟨.returnValueIf, 0, 0⟩) t = x at hread ⊢
      generalize Parameter.ofToken ((d.slot? 0).getD ⟨.returnValueIf, 0, 0⟩) (t.shift offset) = y
        at hread ⊢
      cases hread with
      | @error e e' h =>
          subst h
          exact .error ⟨rfl, rfl⟩
      | @ok target target' h =>
          subst h
          exact hparse d target _ operands .shifted

end

theorem agree_readCallTarget (d : Definition) (ts : List Token) :
    Agree Same (fun x y => y = (x.1.map (Parameter.shift offset), x.2.map (Parameter.shift offset)))
      (readCallTarget d line ts) (readCallTarget d line (ts.map (Token.shift offset))) := by
  have hreturn : Agree Same
      (fun x y => y = (x.1.map (Parameter.shift offset), x.2.map (Token.shift offset)))
      (readCallReturn d line ts) (readCallReturn d line (ts.map (Token.shift offset))) := by
    rcases ts with _ | ⟨t, _ | ⟨equals, rest⟩⟩
    · exact .ok rfl
    · exact .ok rfl
    · unfold readCallReturn
      refine .ite Iff.rfl (fun _ => ?_) fun _ => .ok rfl
      exact (agree_bindToken line offset _ t).bind fun _ _ h => .ok (by rw [h]; rfl)
  have hobject : ∀ us : List Token, Agree Same (fun x y => y = x.map (Parameter.shift offset))
      (readCallObject d line us) (readCallObject d line (us.map (Token.shift offset))) := by
    intro us
    rcases us with _ | ⟨t, _ | ⟨arrow, _ | ⟨u, rest⟩⟩⟩
    · exact .ok rfl
    · exact .error ⟨rfl, rfl⟩
    · unfold readCallObject
      refine .ite Iff.rfl (fun _ => ?_) fun _ => .error ⟨rfl, rfl⟩
      exact (agree_bindToken line offset _ t).bind fun _ _ h => .ok (by rw [h]; rfl)
    · exact .error ⟨rfl, rfl⟩
  rw [readCallTarget_eq, readCallTarget_eq]
  refine hreturn.bind fun found _ hfound => ?_
  subst hfound
  exact (hobject found.2).bind fun object _ h => .ok (by rw [h])

theorem agree_readCallName (d : Definition) (word : Token) (ts : List Token) :
    Agree Same (fun x y => y = (x.1.shift offset, x.2.map (Token.shift offset)))
      (readCallName d line word ts)
      (readCallName d line (word.shift offset) (ts.map (Token.shift offset))) := by
  cases ts with
  | nil => exact .error ⟨rfl, rfl⟩
  | cons t rest =>
      unfold readCallName
      refine .ite Iff.rfl (fun _ => ?_) fun _ => ?_
      · exact (agree_bindToken line offset _ t).bind fun _ _ h => .ok (by rw [h])
      · exact .ite Iff.rfl (fun _ => .ok rfl) fun _ => .error ⟨rfl, rfl⟩

theorem agree_readArgument (index : Nat) (t : Token) :
    Agree Same (fun p q => q = p.shift offset) (readArgument line index t)
      (readArgument line index (t.shift offset)) := by
  exact .ite Iff.rfl (fun _ => agree_bindToken line offset _ t) fun _ => .error ⟨rfl, rfl⟩

theorem agree_readArguments (index : Nat) (ts : List Token) :
    Agree Same (fun ps qs => qs = ps.map (Parameter.shift offset)) (readArguments line index ts)
      (readArguments line index (ts.map (Token.shift offset))) := by
  fun_induction readArguments line index ts with
  | case1 => exact .ok rfl
  | case2 index t =>
      exact (agree_readArgument line offset index t).bind fun _ _ h => .ok (by rw [h]; rfl)
  | case3 index t equals rest hname ih =>
      rw [List.map_cons, List.map_cons, readArguments, Token.shift_kind, Token.isOperator_shift,
        if_pos hname]
      exact ih
  | case4 index t equals rest hname ih =>
      rw [List.map_cons, List.map_cons, readArguments, Token.shift_kind, Token.isOperator_shift,
        if_neg hname]
      refine (agree_readArgument line offset index t).bind fun p _ hp => ?_
      exact ih.bind fun _ _ h => .ok (by rw [hp, h]; rfl)

theorem agree_skipColon (ts : List Token) :
    Agree Same (fun us vs => vs = us.map (Token.shift offset)) (skipColon line ts)
      (skipColon line (ts.map (Token.shift offset))) := by
  cases ts with
  | nil => exact .ok rfl
  | cons t rest => exact .ite Iff.rfl (fun _ => .ok rfl) fun _ => .error ⟨rfl, rfl⟩

section

variable {offset} {text text' : String} (htext : Indented offset text text')

include htext

theorem agree_readScriptCall {lang : Language} (hcat : lang.catalog.Reachable)
    (condition : Conditional) {ts : List Token} (hts : ts ≠ []) (before after : List Token)
    (word : Token) :
    Agree Same (Statement.Moved offset)
      (lang.readScriptCall condition ts before word after line text)
      (lang.readScriptCall condition (ts.map (Token.shift offset)) (before.map (Token.shift offset))
        (word.shift offset) (after.map (Token.shift offset)) line text') := by
  unfold readScriptCall
  cases hd : lang.command CommandId.callScript with
  | error problem => exact .error (Same.refl _)
  | ok d =>
      obtain ⟨hmem, hid, -⟩ := builtin_of_command hcat hd (Catalog.exists_builtin (by decide))
      obtain ⟨-, hparameters, horder⟩ := (parameters_builtin d hmem).1 hid
      have hslots : (callSlot d 1).type = .returnValueIfStart ∧ (callSlot d 2).type = .refObj := by
        simp [callSlot, Definition.slot?, hparameters]
      -- without a target there is a null, or the conditional, which begins where the line does
      have habsent : Parameter.Moved offset
          (if condition = .unconditional then Parameter.null (callSlot d 1)
            else Parameter.conditional (callSlot d 1) condition (Token.extent ts))
          (if condition = .unconditional then Parameter.null (callSlot d 1)
            else Parameter.conditional (callSlot d 1) condition
              (Token.extent (ts.map (Token.shift offset)))) := by
        split
        · exact .null (by rw [hslots.1]; decide)
        · exact .conditional condition fun h => absurd h hts
      refine (agree_readCallTarget line offset d before).bind fun found _ hfound => ?_
      subst hfound
      refine (agree_readCallName line offset d word after).bind fun name _ hname => ?_
      subst hname
      refine (agree_skipColon line offset name.2).bind fun us _ hus => ?_
      subst hus
      refine (agree_readArguments line offset 3 us).bind fun arguments _ harguments => ?_
      subst harguments
      refine .ok (Statement.moved_ofLine htext _ _ ?_ line)
      refine .cons .shifted (.cons ?_ (.cons ?_ (Parameter.Moved.map_shift offset arguments)))
      · cases found.1 with
        | none => exact habsent
        | some target => exact .shifted
      · cases found.2 with
        | none => exact .null (by rw [hslots.2]; decide)
        | some object => exact .shifted

/-! ### Lines

A line is read as a command, a comment, or nothing. A line that is not readable has its problem with
all of its tokens, or with the line. -/

theorem same_unreadable (lang : Language) (condition : Conditional) (first : Token)
    (rest : List Token) :
    (lang.unreadable condition (first :: rest) first line text).Same
      (lang.unreadable condition ((first :: rest).map (Token.shift offset)) (first.shift offset) line
        text') := by
  have hsource : ∀ start stop : Nat,
      (text'.toList.drop (start + offset)).take (stop + offset - (start + offset))
        = (text.toList.drop start).take (stop - start) := by
    intro start stop
    rw [htext.drop_eq, Nat.add_sub_add_right]
  unfold unreadable
  dsimp only
  rw [Token.shape_map_shift, Token.extent_map_shift offset (List.cons_ne_nil _ _), hsource]
  split
  · exact ⟨rfl, rfl⟩
  · exact ⟨rfl, rfl⟩

/-- A command that is moved is read alike. -/
theorem agree_readCommand {lang : Language} (hcat : lang.catalog.Reachable)
    (condition : Conditional) (ts : List Token) :
    Agree Same (Statement.Moved offset) (lang.readCommand condition ts line text)
      (lang.readCommand condition (ts.map (Token.shift offset)) line text') := by
  cases ts with
  | nil => exact .error ⟨rfl, rfl⟩
  | cons first rest =>
      have hts := List.cons_ne_nil first rest
      refine .ite (by rw [isArrayAccess_map_shift])
        (fun _ => agree_readArrayAccess line htext hcat condition _) fun _ => ?_
      refine .ite (by rw [isExpression_map_shift])
        (fun _ => agree_readExpression line htext lang condition hts) fun _ => ?_
      rw [splitCall_map_shift, findCommand_map_shift]
      cases splitCall (first :: rest) with
      | some call => exact agree_readScriptCall line htext hcat condition hts _ _ _
      | none =>
          cases hfound : lang.findCommand condition (first :: rest) with
          | none => exact .error (same_unreadable line htext lang condition first rest)
          | some found =>
              dsimp only [Option.map_some, Option.map_none, Prod.map_fst, Prod.map_snd, id_eq]
              rw [List.length_map, List.length_map, ← List.map_take]
              exact (agree_bindParameters line offset condition _ _
                (isConditionalReturn_of_candidate hcat (of_findCommand hfound).1)).bind
                  fun ps qs h => .ok (Statement.moved_ofLine htext _ _ h line)

/-- A commented command that is moved is read alike. -/
theorem rel_readCommented {lang : Language} (hcat : lang.catalog.Reachable) (body : Token) :
    Option.Rel (Statement.Moved offset) (lang.readCommented body line text)
      (lang.readCommented (body.shift offset) line text') := by
  have hinner : (tokens (body.shift offset).text).map (Token.shift (body.shift offset).start)
      = ((tokens body.text).map (Token.shift body.start)).map (Token.shift offset) := by
    rw [List.map_map]
    exact List.map_congr_left fun t _ => (t.shift_shift body.start offset).symm
  unfold readCommented
  rw [hinner]
  cases (tokens body.text).map (Token.shift body.start) with
  | nil => exact .none
  | cons first rest =>
      have hcommand := agree_readCommand line htext hcat (readConditional (first :: rest)).1
        (readConditional (first :: rest)).2
      dsimp only
      rw [readConditional_map_shift]
      simp only [List.map_cons]
      by_cases hstar : first.isOperator "*" = true
      · rw [if_pos hstar, if_pos (by exact hstar)]
        exact .none
      · rw [if_neg hstar, if_neg (by exact hstar)]
        generalize lang.readCommand (readConditional (first :: rest)).1
          (readConditional (first :: rest)).2 line text = x at hcommand ⊢
        generalize lang.readCommand (readConditional (first :: rest)).1
          ((readConditional (first :: rest)).2.map (Token.shift offset)) line text' = y at hcommand ⊢
        cases hcommand with
        | error h => exact .none
        | ok h => exact .some { h with flow_eq := rfl, commented_eq := rfl }

/-- A comment, or a commented command, moves along with its line. -/
theorem moved_readComment {lang : Language} (hcat : lang.catalog.Reachable) (star : Token)
    (body : Option Token) :
    (lang.readComment star body line text).1.Moved offset
        (lang.readComment (star.shift offset) (body.map (Token.shift offset)) line text').1 ∧
      Option.Rel Same (lang.readComment star body line text).2
        (lang.readComment (star.shift offset) (body.map (Token.shift offset)) line text').2 := by
  have hbody : Option.Rel (Statement.Moved offset) (body.bind (lang.readCommented · line text))
      ((body.map (Token.shift offset)).bind (lang.readCommented · line text')) := by
    cases body with
    | none => exact .none
    | some body => exact rel_readCommented line htext hcat body
  unfold readComment
  generalize body.bind (lang.readCommented · line text) = x at hbody ⊢
  generalize (body.map (Token.shift offset)).bind (lang.readCommented · line text') = y at hbody ⊢
  cases hbody with
  | some h => exact ⟨h, .none⟩
  | none =>
      dsimp only
      cases lang.command CommandId.comment with
      | error problem => exact ⟨Statement.moved_ofLine htext _ _ .nil line, .some ⟨rfl, rfl⟩⟩
      | ok d =>
          refine ⟨Statement.moved_ofLine htext _ _ (.cons ?_ .nil) line, .none⟩
          cases body with
          | none => exact .shifted
          | some body => exact .shifted

/-- A line behind blanks has the same problem, or its statement is moved along. -/
theorem moved_readLine {lang : Language} (hcat : lang.catalog.Reachable) :
    (lang.readLine line text).1.Moved offset (lang.readLine line text').1 ∧
      Option.Rel Same (lang.readLine line text).2 (lang.readLine line text').2 := by
  unfold readLine
  rw [htext.tokens_eq]
  cases tokens text with
  | nil =>
      dsimp only [List.map_nil]
      cases lang.command CommandId.blankLine with
      | error problem => exact ⟨Statement.moved_ofLine htext _ _ .nil line, .some ⟨rfl, rfl⟩⟩
      | ok d => exact ⟨Statement.moved_ofLine htext _ _ .nil line, .none⟩
  | cons first rest =>
      have hbody : ((rest.map (Token.shift offset)).head?.filter (·.kind == .comment))
          = (rest.head?.filter (·.kind == .comment)).map (Token.shift offset) := by
        rw [List.head?_map, Option.filter_map]
        rfl
      have hcommand := agree_readCommand line htext hcat (readConditional (first :: rest)).1
        (readConditional (first :: rest)).2
      simp only [List.map_cons]
      rw [hbody, ← List.map_cons, readConditional_map_shift]
      by_cases hstar : first.isOperator "*" = true
      · rw [if_pos hstar, if_pos (by exact hstar)]
        exact moved_readComment line htext hcat first _
      · rw [if_neg hstar, if_neg (by exact hstar)]
        dsimp only
        generalize lang.readCommand (readConditional (first :: rest)).1
          (readConditional (first :: rest)).2 line text = x at hcommand ⊢
        generalize lang.readCommand (readConditional (first :: rest)).1
          ((readConditional (first :: rest)).2.map (Token.shift offset)) line text' = y at hcommand ⊢
        cases hcommand with
        | error h => exact ⟨Statement.moved_ofLine htext _ _ .nil line, .some h⟩
        | ok h => exact ⟨h, .none⟩

end

end

end Language

end MissionScript
