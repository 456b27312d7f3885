import MissionScript.Proofs.Statement.AuxiliaryLines
import MissionScript.Proofs.Statement.Conditions
import MissionScript.Proofs.Statement.Variables
import Mathlib.Data.List.Forall2
import Mathlib.Data.List.Nodup

/-!
# MissionScript.Proofs.Statement.Occurrences

Every variable of a command is one of its parameters, once, with the characters that it covers.

A command is read in one of three ways, and each of them accounts for all its tokens. In a command of the
catalog the values leave in another order than they came in, but none is lost, because no slot is displayed
twice (`Language.Places.perm_arrangePlaced`). An expression is written down as it stands
(`Expression.filterMap_use?_parse`), and so are the parts of a script call, where the names of arguments are
no variables (`ScriptCall.ReadAs.filterMap_use?`). Hence the parameters and the tokens of a command are the
same variables (`Language.perm_use?_readCommand`), and so are those of a line and of the command that it
stands for, commented out or not (`Language.perm_use?_readLine`).

An occurrence is counted by name and extent (`use?`), which no two tokens of a line share. That
makes the statements of this module equalities or permutations of lists, and rules out a variable
that is recorded twice.
-/

namespace MissionScript

/-! ### Variables among tokens and parameters

The same notion is given for tokens and for parameters, so that the lists of both can be compared.
Tokens that are no variable may be left out of a list or put into it without changing what is
counted. -/

/-- The variable that a token is: its name and the characters that it covers. -/
def Token.use? (t : Token) : Option (String × Nat × Nat) :=
  if t.kind = .var then some (String.ofList t.text.toList.tail, t.start, t.stop) else none

/-- The variable in a slot: its name and the characters that it has been read from. -/
def Parameter.use? (p : Parameter) : Option (String × Nat × Nat) :=
  p.varName?.map (·, p.start, p.stop)

theorem Token.use?_eq_none {t : Token} (h : t.kind ≠ .var) : t.use? = none := if_neg h

theorem Token.use?_of_isOperatorKind {t : Token} (h : t.isOperatorKind = true) : t.use? = none := by
  refine use?_eq_none fun hkind => ?_
  simp [isOperatorKind, hkind] at h

theorem Token.use?_of_isOperator {t : Token} {text : String} (h : t.isOperator text = true) :
    t.use? = none :=
  use?_of_isOperatorKind (Expression.isOperatorKind_of_isOperator h).1

theorem Token.filterMap_use?_eq_nil {ts : List Token} (h : ∀ t ∈ ts, t.kind ≠ .var) :
    ts.filterMap use? = [] :=
  List.filterMap_eq_nil_iff.mpr fun t ht => use?_eq_none (h t ht)

/-- Leaving out what is no variable changes nothing. -/
theorem Token.filterMap_use?_filter {keep : Token → Bool} (h : ∀ t, t.kind = .var → keep t = true)
    (ts : List Token) : (ts.filter keep).filterMap use? = ts.filterMap use? := by
  rw [List.filterMap_filter]
  refine List.filterMap_congr fun t _ => ?_
  by_cases hkind : t.kind = .var
  · rw [if_pos (h t hkind)]
  · rw [use?_eq_none hkind, ite_self]

namespace Parameter

/-- What is no variable has no occurrence. -/
theorem use?_eq_none {p : Parameter} (h : p.dataType ≠ .var) : p.use? = none := by
  unfold use? varName?
  split
  · next hvar _ => exact absurd hvar h
  · rfl

/-- A parameter is the variable that its token is. -/
theorem use?_of_ofToken {slot : Slot} {t : Token} {p : Parameter} (h : ofToken slot t = .ok p) :
    p.use? = t.use? := by
  obtain ⟨-, hread, -, hstart, hstop⟩ := of_ofToken h
  by_cases hvar : p.dataType = .var
  · rw [hvar] at hread
    obtain ⟨hkind, hvalue⟩ := kind_of_read hread
    rw [use?, varName?, hvar, hvalue, Token.use?, if_pos hkind, hstart, hstop]
    rfl
  · rw [use?_eq_none hvar, Token.use?_eq_none]
    intro hkind
    rw [read, hkind] at hread
    exact hvar (Prod.mk.inj (Except.ok.inj hread)).1.symm

/-- Parameters that are the tokens one by one are the same variables, in order. -/
theorem filterMap_use?_of_forall₂ {ts : List Token} {ps : List Parameter}
    (h : List.Forall₂ (fun t p => ∃ slot, ofToken slot t = .ok p) ts ps) :
    ps.filterMap use? = ts.filterMap Token.use? := by
  induction h with
  | nil => rfl
  | cons htoken hrest ih =>
      obtain ⟨slot, htoken⟩ := htoken
      rw [List.filterMap_cons, List.filterMap_cons, use?_of_ofToken htoken, ih]

end Parameter

/-! ### Commands of the catalog

The parameters of a command are collected slot by slot, and every slot takes the value that belongs
to it. Nothing is lost because each display position belongs to exactly one slot. -/

/-- What is put in different places is all there when it is listed place by place. -/
theorem perm_filterMap_find? {α : Type} {place : α → Nat} {xs : List α} {n : Nat}
    (hnodup : (xs.map place).Nodup) (hlt : ∀ x ∈ xs, place x < n) :
    ((List.range n).filterMap fun i => xs.find? (place · == i)).Perm xs := by
  have hfound : ∀ i x, xs.find? (place · == i) = some x ↔ x ∈ xs ∧ place x = i := by
    intro i x
    constructor
    · intro h
      exact ⟨List.mem_of_find?_eq_some h, by simpa using List.find?_some h⟩
    · rintro ⟨hx, rfl⟩
      obtain ⟨y, hy⟩ : ∃ y, xs.find? (place · == place x) = some y :=
        Option.isSome_iff_exists.mp (List.find?_isSome.mpr ⟨x, hx, beq_self_eq_true _⟩)
      have hplace : place y = place x := by simpa using List.find?_some hy
      rw [hy, List.inj_on_of_nodup_map hnodup (List.mem_of_find?_eq_some hy) hx hplace]
  refine (List.perm_ext_iff_of_nodup ?_ hnodup.of_map).mpr fun x => ?_
  · refine List.nodup_range.filterMap fun i j x hi hj => ?_
    rw [← ((hfound i x).mp hi).2, ((hfound j x).mp hj).2]
  · rw [List.mem_filterMap]
    constructor
    · rintro ⟨i, -, hi⟩
      exact ((hfound i x).mp hi).1
    · intro hx
      exact ⟨place x, List.mem_range.mpr (hlt x hx), (hfound _ x).mpr ⟨hx, rfl⟩⟩

namespace Language

namespace Places

variable {found : Candidate} {line : Nat} {shaped : List Token} {values : List Parameter}

/-- Parameters leave in physical order, and none is lost. -/
theorem perm_arrangePlaced (h : Places found line shaped values) (condition : Conditional)
    (hd : found.definition.Arranged) :
    (arrangePlaced found.definition (placed found condition shaped values)).Perm
      (placed found condition shaped values) := by
  have hordered : (placed found condition shaped values).map (·.slot.physical)
      <+: found.definition.order := by
    refine List.prefix_iff_getElem?.mpr fun j hj => ?_
    rw [List.length_map] at hj
    have hp := List.getElem?_eq_getElem hj
    rw [(Definition.of_slotAtDisplay? (h.slot_of_placed hp)).1, List.getElem_map]
  refine perm_filterMap_find? (hd.nodup_order.sublist hordered.sublist) fun p hp => ?_
  exact hd.lt_of_mem _ (hordered.subset (List.mem_map_of_mem hp))

/-- The values of the shape are the variables of its tokens, still in display order. -/
theorem filterMap_use?_values (h : Places found line shaped values) :
    values.filterMap Parameter.use? = shaped.filterMap Token.use? := by
  obtain ⟨hlength, hvalues⟩ := of_bindValues h.values_eq
  have hvalue : ∀ t : Token, t.kind = .var → t.isValue = true := fun t ht => by
    simp [Token.isValue, ht]
  rw [← Token.filterMap_use?_filter hvalue, Parameter.filterMap_use?_of_forall₂]
  refine List.forall₂_iff_get.mpr ⟨hlength.symm, fun i ht hp => ?_⟩
  obtain ⟨-, t, htoken, hread⟩ := hvalues i _ (List.getElem?_eq_getElem hp)
  rw [List.getElem?_eq_getElem ht] at htoken
  cases htoken
  exact ⟨_, hread⟩

end Places

end Language

/-- Arguments are the variables of their tokens. -/
theorem ScriptCall.Passes.filterMap_use? {index : Nat} {values : List Token} {ps : List Parameter}
    (h : Passes index values ps) : ps.filterMap Parameter.use? = values.filterMap Token.use? := by
  refine Parameter.filterMap_use?_of_forall₂ ?_
  rw [← List.zipIdx_map_fst index values, List.forall₂_map_left_iff]
  exact h.imp fun v p hp => ⟨_, hp⟩

namespace Language

/-- Whatever is put into the slots of a command, the variables are those of its tokens. -/
theorem perm_use?_bindParameters {found : Candidate} {condition : Conditional} {line : Nat}
    {shaped arguments : List Token} {ps : List Parameter} (hd : found.definition.Arranged)
    (hfirst : found.omitsReturn = true → (found.definition.slotAtDisplay? 0).isSome = true)
    (h : bindParameters found condition line shaped arguments = .ok ps) :
    (ps.filterMap Parameter.use?).Perm ((shaped ++ arguments).filterMap Token.use?) := by
  obtain ⟨values, args, bound, hvalues, rfl, hargs, rfl⟩ := bindParameters_eq_ok_iff.mp h
  have hplaces : Places found line shaped values := ⟨hvalues, hfirst⟩
  -- neither a conditional nor a null is a variable
  have homitted : (omittedReturn found condition shaped).filterMap Parameter.use? = [] := by
    refine List.filterMap_eq_nil_iff.mpr fun p hp => Parameter.use?_eq_none ?_
    unfold omittedReturn at hp
    split at hp
    · obtain ⟨slot, -, rfl⟩ := List.mem_map.mp hp
      exact DataType.noConfusion
    · cases hp
  have hpadding : ∀ count,
      (padding found.definition count).filterMap Parameter.use? = [] := fun count => by
    refine List.filterMap_eq_nil_iff.mpr fun p hp => Parameter.use?_eq_none ?_
    obtain ⟨index, -, rfl⟩ := List.mem_map.mp hp
    exact DataType.noConfusion
  have hplaced := (hplaces.perm_arrangePlaced condition hd).filterMap Parameter.use?
  rw [placed, List.filterMap_append, homitted, List.nil_append, hplaces.filterMap_use?_values]
    at hplaced
  rw [List.filterMap_append, List.filterMap_append, hpadding, List.append_nil,
    (bindArguments_eq_ok_iff.mp hargs).filterMap_use?, List.filterMap_append]
  exact hplaced.append_right _

end Language

/-! ### Expressions

The written order of an expression has all of its tokens in it, also brackets, while the evaluated
order leaves some out. The occurrences are read off the written order, one token at a time. -/

namespace Expression

open Reading

variable {ts : List Token} {first : Nat} {r r' : Reading} {t : Token}

/-- An operand adds the variable that its token is. -/
theorem filterMap_use?_pushOperand (h : r.pushOperand first t = .ok r') :
    r'.written.filterMap Parameter.use? = r.written.filterMap Parameter.use? ++ t.use?.toList := by
  unfold Reading.pushOperand at h
  cases hp : Parameter.ofToken (Slot.operand (first + r.written.length)) t with
  | error e => simp [hp] at h
  | ok p =>
      simp only [hp] at h
      cases h
      rw [List.filterMap_append, ← Parameter.use?_of_ofToken hp, List.filterMap_eq_flatMap_toList _ [p],
        List.flatMap_singleton]

/-- An operator or a bracket is written down, and is no variable. -/
theorem filterMap_use?_write (operator : Operator) (t : Token) (r : Reading) :
    (r.write first operator t).written.filterMap Parameter.use?
      = r.written.filterMap Parameter.use? := by
  rw [Reading.write, List.filterMap_append]
  exact List.append_nil _

/-- A token adds the variable that it is. -/
theorem filterMap_use?_push (h : r.push first t = .ok r') :
    r'.written.filterMap Parameter.use? = r.written.filterMap Parameter.use? ++ t.use?.toList := by
  have sign : t.use? = none → ∀ operator u, (r.write first operator u).written.filterMap Parameter.use?
      = r.written.filterMap Parameter.use? ++ t.use?.toList := by
    intro hnone operator u
    rw [filterMap_use?_write, hnone, Option.toList_none, List.append_nil]
  by_cases hsplit : (!r.wantsOperand && isNegative t) = true
  · simp only [Bool.and_eq_true, Bool.not_eq_true'] at hsplit
    have hnumber : t.kind = .number := by
      simp only [isNegative, Bool.and_eq_true, beq_iff_eq] at hsplit
      exact hsplit.2.1
    rw [push_negative hsplit.1 hsplit.2] at h
    -- neither the number nor its two parts are variables
    rw [filterMap_use?_pushOperand h, Token.use?_eq_none (t := absOf t) TokenKind.noConfusion,
      Option.toList_none, List.append_nil]
    exact sign (Token.use?_eq_none (by simp [hnumber])) _ _
  · cases step_of_push h (by simpa using hsplit) with
    | operand _ _ hoperand => exact filterMap_use?_pushOperand hoperand
    | opening _ hopen => exact sign (Token.use?_of_isOperator hopen) _ _
    | closing _ hsign hclose =>
        unfold Reading.close at hclose
        split at hclose
        · cases hclose
        · cases hclose
          exact sign (Token.use?_of_isOperator hsign) _ _
    | unary _ hkind => exact sign (Token.use?_of_isOperatorKind hkind) _ _
    | binary _ hkind => exact sign (Token.use?_of_isOperatorKind hkind) _ _

/-- A run of tokens adds its variables. -/
theorem filterMap_use?_foldlM (h : ts.foldlM (push first) r = .ok r') :
    r'.written.filterMap Parameter.use?
      = r.written.filterMap Parameter.use? ++ ts.filterMap Token.use? := by
  induction ts generalizing r with
  | nil =>
      cases h
      exact (List.append_nil _).symm
  | cons t ts ih =>
      rw [List.foldlM_cons] at h
      obtain ⟨r₁, hpush, h⟩ := Language.bind_eq_ok.mp h
      rw [ih h, filterMap_use?_push hpush, List.append_assoc,
        List.filterMap_eq_flatMap_toList Token.use?, List.filterMap_eq_flatMap_toList Token.use?,
        List.flatMap_cons]

/-- An expression is written down as it stands. -/
theorem filterMap_use?_parse {found : Expression} (h : parse ts first = .ok found) :
    found.written.filterMap Parameter.use? = ts.filterMap Token.use? := by
  unfold parse at h
  split at h
  · cases h
  · obtain ⟨r, hrun, h⟩ := Language.bind_eq_ok.mp h
    have hwritten : found.written = r.written := by
      unfold finish at h
      split at h
      · cases h
      · split at h
        · cases h
        · cases h
          rfl
    rw [hwritten, filterMap_use?_foldlM hrun, Token.filterMap_use?_filter fun t ht => by
      simp [Token.isSignificant, ht]]
    rfl

end Expression

/-! ### Script calls

The tokens of a call are its parts and the words and marks between them. An argument may have a name
in front of its value, `name=value`; the name is no token of a variable, and so the marks and names
can be left out of the count. -/

/-- A mark is no variable. -/
theorem Marked.filterMap_use? {part : Token → Prop} {mark : String} {ts : List Token} {t? : Option Token}
    (h : Marked part mark ts t?) : ts.filterMap Token.use? = t?.toList.filterMap Token.use? := by
  cases h with
  | absent => rfl
  | @present t sign _ hsign =>
      change ([t] ++ [sign]).filterMap Token.use? = [t].filterMap Token.use?
      rw [List.filterMap_append, List.filterMap_cons_none (Token.use?_of_isOperator hsign),
        List.filterMap_nil, List.append_nil]

/-- The names of arguments are no variables. -/
theorem Runs.filterMap_use? {ts values : List Token} (h : Runs ts values) :
    ts.filterMap Token.use? = values.filterMap Token.use? := by
  induction h with
  | nil => rfl
  | value _ _ ih => rw [List.filterMap_cons, List.filterMap_cons, ih]
  | name hname hequals _ ih =>
      rw [List.filterMap_cons_none (Token.use?_eq_none (by simp [hname])),
        List.filterMap_cons_none (Token.use?_of_isOperator hequals), ih]

/-- Neither is the colon. -/
theorem BehindColon.filterMap_use? {ts values : List Token} (h : BehindColon Runs ts values) :
    ts.filterMap Token.use? = values.filterMap Token.use? := by
  cases h with
  | absent => rfl
  | present hcolon hruns =>
      rw [List.filterMap_cons_none (Token.use?_of_isOperator hcolon), hruns.filterMap_use?]

/-- What stands for the absence of a part is no variable. -/
theorem use?_getD_of_rel {slot : Slot} {t? : Option Token} {p? : Option Parameter}
    (h : Option.Rel (Parameter.ofToken slot · = .ok ·) t? p?) (absent : Parameter)
    (habsent : absent.dataType ≠ .var) : (p?.getD absent).use? = t?.bind Token.use? := by
  cases h with
  | none => exact Parameter.use?_eq_none habsent
  | some hp => exact Parameter.use?_of_ofToken hp

namespace ScriptCall

variable {c : ScriptCall} {ts : List Token}

/-- The tokens whose variables a call uses. -/
def operands (c : ScriptCall) : List Token := c.target.toList ++ c.object.toList ++ c.values

/-- The variables of a call are those of its parts. -/
theorem Writes.filterMap_use? (h : c.Writes Runs ts) :
    ts.filterMap Token.use? = c.operands.filterMap Token.use? := by
  obtain ⟨before, call, script, after, rfl, hcall, hscript, ⟨us, vs, rfl, hus, hvs⟩, ws, rfl, hname,
    hbehind⟩ := h
  simp only [Token.isWord, Bool.and_eq_true, beq_iff_eq] at hcall hscript
  have hname : c.name.kind ≠ .var := by
    rcases hname with hkind | hkind <;> simp [hkind]
  rw [List.filterMap_append, List.filterMap_append, hus.filterMap_use?, hvs.filterMap_use?,
    List.filterMap_cons_none (Token.use?_eq_none (by simp [hcall.1])),
    List.filterMap_cons_none (Token.use?_eq_none (by simp [hscript.1])),
    List.filterMap_cons_none (Token.use?_eq_none hname), hbehind.filterMap_use?, operands,
    List.filterMap_append, List.filterMap_append]

/-- The parameters of a call are the variables of its parts. -/
theorem ReadAs.filterMap_use? {lang : Language} {condition : Conditional} {line : Nat} {text : String}
    {s : Statement} (h : c.ReadAs lang condition ts line text s) :
    s.parameters.filterMap Parameter.use? = c.operands.filterMap Token.use? := by
  obtain ⟨d, name, target, object, arguments, -, hname, htarget, hobject, hpasses, rfl⟩ := h
  have hname : name.use? = none := by
    unfold Names at hname
    split at hname
    · next hstring =>
      rw [Parameter.use?_of_ofToken hname, Token.use?_eq_none (by simp [hstring])]
    · rw [hname]
      exact Parameter.use?_eq_none DataType.noConfusion
  have habsent : ∀ slot extent, (if condition = .unconditional then Parameter.null slot
      else Parameter.conditional slot condition extent).dataType ≠ .var := by
    intro slot extent
    split <;> exact DataType.noConfusion
  have hpart : ∀ t? : Option Token,
      t?.toList.filterMap Token.use? = (t?.bind Token.use?).toList := fun t? => by
    cases t? with
    | none => rfl
    | some t => rw [Option.toList_some, List.filterMap_eq_flatMap_toList, List.flatMap_singleton]; rfl
  rw [operands, List.filterMap_append, List.filterMap_append, hpart, hpart,
    ← use?_getD_of_rel htarget _ (habsent ⟨.returnValueIfStart, 1, 0⟩ (Token.extent ts)),
    ← use?_getD_of_rel hobject (.null ⟨.refObj, 2, 1⟩) DataType.noConfusion,
    ← hpasses.filterMap_use?]
  simp only [Statement.ofLine, List.filterMap_eq_flatMap_toList, List.flatMap_cons, hname,
    Option.toList_none, List.nil_append, List.append_assoc]

end ScriptCall

/-! ### Commands

The three forms together. The conditional in front of a command has been taken off before the rest
is read, and has no variables. -/

namespace Language

variable {lang : Language} {condition : Conditional} {ts : List Token} {line : Nat} {text : String}
  {s : Statement}

/-- The target of an expression comes first, as it does on the line. -/
theorem ReadExpression.filterMap_use? {d : Definition} {target : Parameter}
    (h : lang.ReadExpression condition ts s d target) :
    s.parameters.filterMap Parameter.use? = ts.filterMap Token.use? := by
  obtain ⟨found, hparse, hparameters, -⟩ := h.parsed
  have hoperands := Expression.filterMap_use?_parse hparse
  rcases h.target_eq with ⟨htest, htarget⟩ | ⟨hcondition, t, rest, rfl, hkind, htoken⟩
  · have hnone : target.use? = none := by
      rw [htarget]
      exact Parameter.use?_eq_none DataType.noConfusion
    rw [operandTokens, if_pos htest] at hoperands
    rw [hparameters, List.filterMap_cons_none hnone, hoperands]
  · have hassigned := h.isExpression_eq
    have htest : ¬ condition.isTest = true := by simp [hcondition, Conditional.isTest]
    rw [operandTokens, if_neg htest] at hoperands
    unfold isExpression at hassigned
    rw [if_neg htest, Bool.and_eq_true] at hassigned
    cases rest with
    | nil => cases hassigned.2
    | cons equals operands =>
        simp only [Bool.and_eq_true] at hassigned
        rw [hparameters, List.filterMap_cons, List.filterMap_cons, Parameter.use?_of_ofToken htoken,
          hoperands, List.filterMap_cons_none (Token.use?_of_isOperator hassigned.2.1.1.2)]
        rfl

/-- The parameters of a command and its tokens are the same variables. -/
theorem perm_use?_readCommand (hcat : lang.catalog.Reachable)
    (h : lang.readCommand condition ts line text = .ok s) :
    (s.parameters.filterMap Parameter.use?).Perm (ts.filterMap Token.use?) := by
  rcases (readCommand_cases h).2 with ⟨found, shaped, arguments, hread⟩ | ⟨d, target, hread⟩ |
    ⟨d, before, target, hread⟩
  · rw [hread.tokens_eq]
    exact perm_use?_bindParameters (hcat.arranged _ hread.of_candidate.1) (hread.isSome_first hcat)
      hread.parameters_eq
  · rw [hread.filterMap_use?]
  · obtain ⟨word, after, hsplit⟩ := hread.splitCall_eq
    obtain ⟨c, hwrites, hcall⟩ :=
      (readScriptCall_eq_ok_iff hcat hsplit).mp (readScriptCall_of_readCommand hsplit h)
    rw [hcall.filterMap_use?, hwrites.filterMap_use?]

/-- The words of a conditional are no variables. -/
theorem perm_use?_readConditional (hcat : lang.catalog.Reachable)
    (h : lang.readCommand (readConditional ts).1 (readConditional ts).2 line text = .ok s) :
    (s.parameters.filterMap Parameter.use?).Perm (ts.filterMap Token.use?) := by
  obtain ⟨front, hts, hfront⟩ := exists_keywords_readConditional ts
  have hcommand := perm_use?_readCommand hcat h
  conv_rhs => rw [hts, List.filterMap_append, Token.filterMap_use?_eq_nil fun t ht => by simp [hfront t ht]]
  exact hcommand

end Language

/-! ### Lines

The tokens that count are those of the line for a command, those of the body for a commented
command, and none for any other line, one with a problem included. -/

/-- The tokens of a comment. Its text is split for itself, and stands where it stands on the line. -/
def commentTokens (text : String) : List Token :=
  match tokens text with
  | _ :: body :: _ => (tokens body.text).map (Token.shift body.start)
  | _ => []

namespace Language

variable {lang : Language} {line : Nat} {text : String}

/-- The tokens of a line that is read as a command, or as a command that is commented out. -/
def sourceTokens (lang : Language) (line : Nat) (text : String) : List Token :=
  match lang.readLine line text with
  | (_, some _) => []
  | (s, none) =>
    if s.commented then commentTokens text else if isAuxiliaryLine text then [] else tokens text

/-- A commented command is the variables of its body. -/
theorem perm_use?_readCommented (hcat : lang.catalog.Reachable) {body : Token} {s : Statement}
    (h : lang.readCommented body line text = some s) :
    (s.parameters.filterMap Parameter.use?).Perm
      (((tokens body.text).map (Token.shift body.start)).filterMap Token.use?) := by
  unfold readCommented at h
  dsimp only at h
  split at h
  · cases h
  · next first rest hinner =>
    split at h
    · cases h
    · split at h
      · next s' hs' =>
        cases h
        exact perm_use?_readConditional (s := s') hcat hs'
      · cases h

/-- The parameters of a line are the variables of the command that it stands for, commented out or not. -/
theorem perm_use?_readLine (hcat : lang.catalog.Reachable) (line : Nat) (text : String) :
    ((lang.readLine line text).1.parameters.filterMap Parameter.use?).Perm
      ((lang.sourceTokens line text).filterMap Token.use?) := by
  rw [sourceTokens]
  cases hauxiliary : isAuxiliaryLine text with
  | false =>
      rw [readLine_of_not_isAuxiliaryLine hauxiliary]
      cases hread : lang.readCommand (readConditional (tokens text)).1 (readConditional (tokens text)).2
          line text with
      | error problem => exact .nil
      | ok s =>
          obtain ⟨⟨d, hd⟩, -⟩ := isCommand_of_readCommand hcat hread
          dsimp only
          rw [hd.commented_eq]
          exact perm_use?_readConditional hcat hread
  | true =>
      unfold readLine
      rcases tokens_of_isAuxiliaryLine hauxiliary with hnil | ⟨first, rest, hcons, hstar⟩
      · rw [hnil]
        cases lang.command CommandId.blankLine <;> exact .nil
      · rw [hcons]
        dsimp only
        rw [if_pos hstar, readComment]
        split
        · next s hs =>
          obtain ⟨body, hbody, hread⟩ := Option.bind_eq_some_iff.mp hs
          obtain ⟨hbody, -⟩ := Option.filter_eq_some_iff.mp hbody
          obtain ⟨rest', rfl⟩ := List.head?_eq_some_iff.mp hbody
          dsimp only
          rw [commented_of_readCommented hread, if_pos rfl, commentTokens, hcons]
          exact perm_use?_readCommented hcat hread
        · -- the text of a plain comment is a string
          cases lang.command CommandId.comment with
          | error problem => exact .nil
          | ok d => cases rest.head?.filter (·.kind == .comment) <;> exact .nil

end Language

end MissionScript
