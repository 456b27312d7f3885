import MissionScript.Proofs.Catalog.Placeholders
import MissionScript.Proofs.Expression.Run
import MissionScript.Proofs.Statement.Placing

/-!
# MissionScript.Proofs.Statement.Variables

The variables of a command come from the tokens of its line.

Parameters are made of tokens, of conditionals and of operators, and some are null. Only tokens give
variables (`Parameter.Sourced`), in each of the three ways to read a command
(`sourced_of_readCommand`). The name is what follows the dollar sign on the line
(`Parameter.Sourced.exists_name`).

This is one half of what there is to say about the variables of a line: no command has a variable
that is not written on it. The other half, that none is lost and none is there twice, counts them
and is found in `MissionScript.Proofs.Statement.Occurrences`.
-/

namespace MissionScript

/-! ### Parameters

A token is the only thing that a variable can come from, because a conditional is stored as a number
and a null as nothing. So for all other parameters there is nothing to show (`sourced_of_ne`). -/

/-- A variable is a dollar sign and a name. -/
theorem Token.text_of_var {text : String} {t : Token} (ht : t ∈ tokens text) (hkind : t.kind = .var) :
    t.text = "$" ++ String.ofList t.text.toList.tail := by
  obtain ⟨place, c, cs, hscan, hcharacters⟩ := exists_scan ht
  obtain rfl : c = '$' := first_of_kind_scan.1 (hscan.symm.trans hkind)
  rw [hcharacters, String.toList_ofList, List.tail_cons]
  exact @String.ofList_append ['$'] (scan place '$' cs).2

namespace Parameter

/-- If the parameter is a variable, it is one of the tokens. -/
def Sourced (ts : List Token) (p : Parameter) : Prop :=
  p.dataType = .var → ∃ t ∈ ts, Parameter.ofToken p.slot t = .ok p

/-- A parameter that is read from one of the tokens is one of them. -/
theorem sourced_of_ofToken {ts : List Token} {t : Token} (ht : t ∈ ts) {slot : Slot} {p : Parameter}
    (h : Parameter.ofToken slot t = .ok p) : p.Sourced ts := by
  intro _
  rw [(of_ofToken h).1]
  exact ⟨t, ht, h⟩

theorem sourced_of_ne {ts : List Token} {p : Parameter} (h : p.dataType ≠ .var) : p.Sourced ts :=
  fun hvar => absurd hvar h

/-- Only variables are read as such. -/
theorem kind_of_read {t : Token} {value : Value} (h : Parameter.read t = .ok (.var, value)) :
    t.kind = .var ∧ value = .str (String.ofList t.text.toList.tail) := by
  unfold read at h
  split at h
  · next hkind =>
    cases h
    exact ⟨hkind, rfl⟩
  · split at h <;> cases h
  all_goals cases h

/-- The name of a variable stands behind a dollar sign on the line. -/
theorem Sourced.exists_name {text : String} {p : Parameter} (h : p.Sourced (tokens text))
    (hvar : p.dataType = .var) :
    ∃ t name, t ∈ tokens text ∧ t.kind = .var ∧ t.text = "$" ++ name ∧ p.varName? = some name ∧
      (p.text, p.start, p.stop) = (t.text, t.start, t.stop) := by
  obtain ⟨t, ht, htoken⟩ := h hvar
  obtain ⟨-, hread, htext, hstart, hstop⟩ := of_ofToken htoken
  rw [hvar] at hread
  obtain ⟨hkind, hvalue⟩ := kind_of_read hread
  refine ⟨t, String.ofList t.text.toList.tail, ht, hkind, Token.text_of_var ht hkind, ?_,
    by rw [htext, hstart, hstop]⟩
  rw [varName?, hvar, hvalue]

end Parameter

/-! ### Expressions

An expression is read token by token, with a stack of operators that wait for their operands. The
invariant is that all operands evaluated so far come from the line. What moves from the stack to
them is an operator, and so no variable. -/

namespace Expression

open Reading

variable {ts : List Token} {first : Nat} {r r' : Reading} {t : Token}

/-- Completing operators adds no variable. -/
theorem sourced_evaluate {stack : List (Operator × Token)} {ps : List Parameter}
    (h : ∀ p ∈ ps, p.Sourced ts) : ∀ p ∈ evaluate stack ps, p.Sourced ts := by
  induction stack generalizing ps with
  | nil => exact h
  | cons top stack ih =>
      refine ih ?_
      rw [List.forall_mem_append]
      refine ⟨h, List.forall_mem_singleton.mpr (Parameter.sourced_of_ne ?_)⟩
      exact DataType.noConfusion

/-- An operand comes from the line if it is a variable; only then does it matter. -/
theorem sourced_pushOperand (h : ∀ p ∈ r.evaluated, p.Sourced ts) (ht : t.kind = .var → t ∈ ts)
    (hpush : r.pushOperand first t = .ok r') : ∀ p ∈ r'.evaluated, p.Sourced ts := by
  unfold Reading.pushOperand at hpush
  cases hp : Parameter.ofToken (Slot.operand (first + r.written.length)) t with
  | error e => simp [hp] at hpush
  | ok p =>
      simp only [hp] at hpush
      cases hpush
      rw [List.forall_mem_append]
      refine ⟨h, List.forall_mem_singleton.mpr fun hvar => ⟨t, ?_, ?_⟩⟩
      · obtain ⟨-, hread, -⟩ := Parameter.of_ofToken hp
        rw [show p.dataType = .var from hvar] at hread
        exact ht (Parameter.kind_of_read hread).1
      · unfold Parameter.ofToken at hp ⊢
        cases hread : Parameter.read t with
        | error e =>
            rw [hread] at hp
            cases hp
        | ok found =>
            rw [hread] at hp
            cases hp
            rfl

/-- A token of the line keeps the invariant. -/
theorem sourced_push (h : ∀ p ∈ r.evaluated, p.Sourced ts) (ht : t ∈ ts)
    (hpush : r.push first t = .ok r') : ∀ p ∈ r'.evaluated, p.Sourced ts := by
  by_cases hsplit : (!r.wantsOperand && isNegative t) = true
  · simp only [Bool.and_eq_true, Bool.not_eq_true'] at hsplit
    rw [push_negative hsplit.1 hsplit.2] at hpush
    -- the number behind the sign is no token of the line, and no variable either
    exact sourced_pushOperand (r := r.pushBinary first .subtract (minusOf t)) (sourced_evaluate h)
      TokenKind.noConfusion hpush
  · cases step_of_push hpush (by simpa using hsplit) with
    | operand _ _ hoperand => exact sourced_pushOperand h (fun _ => ht) hoperand
    | opening => exact h
    | closing _ _ hclose =>
        unfold Reading.close at hclose
        cases hd : r.stack.dropWhile fun top => top.1 != .openBracket with
        | nil => simp [hd] at hclose
        | cons top outer =>
            simp only [hd] at hclose
            cases hclose
            exact sourced_evaluate h
    | unary => exact h
    | binary => exact sourced_evaluate h

/-- Every variable of an expression is a token of it. -/
theorem sourced_parse {found : Expression} (h : parse ts first = .ok found) :
    ∀ p ∈ found.evaluated, p.Sourced ts := by
  unfold parse at h
  split at h
  · cases h
  · next last hlast =>
    obtain ⟨r, hrun, h⟩ := Language.bind_eq_ok.mp h
    have run : ∀ (us : List Token) (r r' : Reading), (∀ t ∈ us, t ∈ ts) →
        (∀ p ∈ r.evaluated, p.Sourced ts) → us.foldlM (push first) r = .ok r' →
        ∀ p ∈ r'.evaluated, p.Sourced ts := by
      intro us
      induction us with
      | nil =>
          intro r r' _ hr hrun
          cases hrun
          exact hr
      | cons t us ih =>
          intro r r' hus hr hrun
          obtain ⟨ht, hus⟩ := List.forall_mem_cons.mp hus
          rw [List.foldlM_cons] at hrun
          obtain ⟨r₁, hpush, hrun⟩ := Language.bind_eq_ok.mp hrun
          exact ih r₁ r' hus (sourced_push hr ht hpush) hrun
    have hsourced := run _ _ _ (fun t ht => (List.mem_filter.mp ht).1) (by simp) hrun
    unfold finish at h
    split at h
    · cases h
    · split at h
      · cases h
      · cases h
        exact sourced_evaluate hsourced

end Expression

/-! ### Script calls

A call is described by the tokens of its parts, so all that is needed is that these are tokens of
the line. A part may be missing; what fills its slot then is a null or the conditional. -/

/-- A marked part is one of the tokens. -/
theorem Marked.mem {part : Token → Prop} {mark : String} {ts : List Token} {t? : Option Token}
    (h : Marked part mark ts t?) : ∀ t ∈ t?, t ∈ ts := by
  cases h with
  | absent => simp
  | present _ _ => simp

/-- The values of arguments are among the tokens. -/
theorem Runs.subset {ts values : List Token} (h : Runs ts values) : values ⊆ ts := by
  induction h with
  | nil => exact List.Subset.refl _
  | value _ _ ih => exact List.cons_subset_cons _ ih
  | name _ _ _ ih =>
      exact List.Subset.trans ih (List.subset_cons_of_subset _ (List.subset_cons_self _ _))

theorem BehindColon.subset {ts values : List Token} (h : BehindColon Runs ts values) :
    values ⊆ ts := by
  cases h with
  | absent => exact List.Subset.refl _
  | present _ hruns => exact List.subset_cons_of_subset _ hruns.subset

/-- A part that may be left out is a token, or what stands for its absence. -/
theorem getD_of_rel {slot : Slot} {t? : Option Token} {p? : Option Parameter}
    (h : Option.Rel (Parameter.ofToken slot · = .ok ·) t? p?) (absent : Parameter) :
    p?.getD absent = absent ∨ ∃ t ∈ t?, Parameter.ofToken slot t = .ok (p?.getD absent) := by
  cases h with
  | none => exact Or.inl rfl
  | some hp => exact Or.inr ⟨_, rfl, hp⟩

namespace ScriptCall

variable {c : ScriptCall} {ts : List Token}

/-- The parts of a call are tokens of its line. -/
theorem Writes.mem (h : c.Writes Runs ts) :
    (∀ t ∈ c.target, t ∈ ts) ∧ (∀ t ∈ c.object, t ∈ ts) ∧ c.values ⊆ ts := by
  obtain ⟨before, call, script, after, rfl, -, -, ⟨us, vs, rfl, hus, hvs⟩, ws, rfl, -, hbehind⟩ := h
  refine ⟨?_, ?_, ?_⟩
  · intro t ht
    simp [hus.mem t ht]
  · intro t ht
    simp [hvs.mem t ht]
  · intro t ht
    simp [hbehind.subset ht]

theorem Passes.of_mem {index : Nat} {values : List Token} {ps : List Parameter}
    (h : Passes index values ps) {p : Parameter} (hp : p ∈ ps) :
    ∃ t i, t ∈ values ∧ Parameter.ofToken (Slot.argument i) t = .ok p := by
  obtain ⟨j, hj⟩ := List.getElem?_of_mem hp
  have hlt := (List.getElem?_eq_some_iff.mp hj).1
  rw [← h.length_eq, List.length_zipIdx] at hlt
  have ht := List.getElem?_eq_getElem hlt
  obtain ⟨q, hq, hget⟩ := Language.getElem?_of_passes h ht
  rw [hj] at hget
  cases hget
  exact ⟨_, _, List.mem_of_getElem? ht, hq⟩

/-- The parameters of a call are tokens of its line, and none of them is the label of a jump. -/
theorem ReadAs.sourced {lang : Language} {condition : Conditional} {line : Nat} {text : String}
    {s : Statement} (h : c.ReadAs lang condition ts line text s) (hwrites : c.Writes Runs ts) :
    ∀ p ∈ s.parameters, p.Sourced ts ∧ p.slot.type ≠ .labelNumber := by
  obtain ⟨d, name, target, object, arguments, -, hname, htarget, hobject, hpasses, rfl⟩ := h
  obtain ⟨htargets, hobjects, hvalues⟩ := hwrites.mem
  -- what is not written is no variable, and what is written is a token
  have absent : ∀ {p : Parameter}, p.dataType ≠ .var → p.slot.type ≠ .labelNumber →
      p.Sourced ts ∧ p.slot.type ≠ .labelNumber :=
    fun hvar hlabel => ⟨Parameter.sourced_of_ne hvar, hlabel⟩
  have written : ∀ {slot : Slot} {t : Token} {p : Parameter}, t ∈ ts → slot.type ≠ .labelNumber →
      Parameter.ofToken slot t = .ok p → p.Sourced ts ∧ p.slot.type ≠ .labelNumber := by
    intro slot t p ht hlabel htoken
    exact ⟨Parameter.sourced_of_ofToken ht htoken, by rwa [(Parameter.of_ofToken htoken).1]⟩
  simp only [Statement.ofLine, List.forall_mem_cons]
  refine ⟨?_, ?_, ?_, ?_⟩
  · unfold Names at hname
    split at hname
    · next hstring =>
      obtain ⟨hslot, hread, -⟩ := Parameter.of_ofToken hname
      refine absent ?_ (by rw [hslot]; exact ParameterType.noConfusion)
      intro hvar
      rw [hvar] at hread
      rw [(Parameter.kind_of_read hread).1] at hstring
      cases hstring
    · rw [hname]
      exact absent DataType.noConfusion ParameterType.noConfusion
  · rcases getD_of_rel htarget _ with heq | ⟨t, ht, htoken⟩
    · rw [heq]
      split <;> exact absent DataType.noConfusion ParameterType.noConfusion
    · exact written (htargets t ht) ParameterType.noConfusion htoken
  · rcases getD_of_rel hobject _ with heq | ⟨t, ht, htoken⟩
    · rw [heq]
      exact absent DataType.noConfusion ParameterType.noConfusion
    · exact written (hobjects t ht) ParameterType.noConfusion htoken
  · intro p hp
    obtain ⟨t, i, ht, htoken⟩ := hpasses.of_mem hp
    exact written (hvalues ht) ParameterType.noConfusion htoken

end ScriptCall

/-! ### Commands

The slots of a command of the catalog are filled from the tokens that make its shape and from the
arguments behind its colon. Together with the two forms above these are all the ways to read a
command. -/

namespace Language

theorem sourced_bindParameters {found : Candidate} {condition : Conditional} {line : Nat}
    {shaped arguments : List Token} {ps : List Parameter}
    (h : bindParameters found condition line shaped arguments = .ok ps) :
    ∀ p ∈ ps, p.Sourced (shaped ++ arguments) := by
  obtain ⟨values, args, bound, hvalues, rfl, hargs, rfl⟩ := bindParameters_eq_ok_iff.mp h
  rw [List.forall_mem_append, List.forall_mem_append]
  refine ⟨⟨?_, ?_⟩, ?_⟩
  · intro p hp
    obtain ⟨physical, -, hfind⟩ := List.mem_filterMap.mp hp
    rcases List.mem_append.mp (List.mem_of_find?_eq_some hfind) with homitted | hvalue
    · unfold omittedReturn at homitted
      split at homitted
      · obtain ⟨slot, -, rfl⟩ := List.mem_map.mp homitted
        exact Parameter.sourced_of_ne DataType.noConfusion
      · cases homitted
    · obtain ⟨i, hi⟩ := List.getElem?_of_mem hvalue
      obtain ⟨-, t, ht, htoken⟩ := (of_bindValues hvalues).2 i p hi
      have hmem := (List.mem_filter.mp (List.mem_of_getElem? ht)).1
      exact Parameter.sourced_of_ofToken (List.mem_append_left _ hmem) htoken
  · intro p hp
    obtain ⟨t, i, ht, htoken⟩ := (bindArguments_eq_ok_iff.mp hargs).of_mem hp
    exact Parameter.sourced_of_ofToken (List.mem_append_right _ ht) htoken
  · intro p hp
    obtain ⟨index, -, rfl⟩ := List.mem_map.mp hp
    exact Parameter.sourced_of_ne DataType.noConfusion

variable {lang : Language} {condition : Conditional} {ts : List Token} {line : Nat} {text : String}
  {s : Statement}

/-- A line with `call script` in it is read as a call. -/
theorem readScriptCall_of_readCommand {before after : List Token} {word : Token}
    (hsplit : splitCall ts = some (before, word, after))
    (h : lang.readCommand condition ts line text = .ok s) :
    lang.readScriptCall condition ts before word after line text = .ok s := by
  unfold readCommand at h
  split at h
  · cases h
  · next first rest =>
    split at h
    · next harray => cases (splitCall_of_isArrayAccess harray).symm.trans hsplit
    · split at h
      · next hexpression => cases (of_isExpression hexpression).1.symm.trans hsplit
      · rw [hsplit] at h
        exact h

/-- The operands of an expression, and the variable that it is assigned to, are tokens of its line. -/
theorem ReadExpression.sourced {d : Definition} {target : Parameter}
    (h : lang.ReadExpression condition ts s d target) :
    ∀ p ∈ s.parameters.take 1 ++ s.evaluated, p.Sourced ts := by
  obtain ⟨found, hparse, hparameters, hevaluated⟩ := h.parsed
  rw [hparameters, hevaluated, List.take_succ_cons, List.take_zero, List.singleton_append,
    List.forall_mem_cons]
  constructor
  · rcases h.target_eq with ⟨-, rfl⟩ | ⟨-, t, rest, rfl, -, htoken⟩
    · exact Parameter.sourced_of_ne DataType.noConfusion
    · exact Parameter.sourced_of_ofToken List.mem_cons_self htoken
  · intro p hp hvar
    obtain ⟨t, ht, htoken⟩ := Expression.sourced_parse hparse p hp hvar
    refine ⟨t, ?_, htoken⟩
    unfold operandTokens at ht
    split at ht
    · exact ht
    · exact List.mem_of_mem_drop ht

end Language

end MissionScript
