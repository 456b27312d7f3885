import MissionScript.Proofs.Expression.Run

/-!
# MissionScript.Proofs.Expression.Source

What an expression keeps of its source.

* `source?` — the operands, operators and brackets of an expression in the order of the source, each
  with the type and value it stands for.
* `source_of_parse` — an expression that is read lists them all as written, and the operands stand in
  the same order as evaluated.

What stands for a token is given by the token itself and by whether an operand comes next. The
parser keeps the same bit, so a reading and the list of the source can be compared one token at a
time. The invariant (`Keeps`) has two parts, because the parameters leave in two orders: the written
one is the source itself, and the evaluated one has only its operands in the same order, as
operators are moved behind them and brackets are dropped.
-/

namespace MissionScript

/-- What a parameter stands for, wherever it stands. -/
def Parameter.content (p : Parameter) : DataType × Value := (p.dataType, p.value)

namespace Expression

open Reading

/-! ### The order of the source

Signs have been split off the numbers before (`splitSigns`), so a token is an operand, an operator
or a bracket. -/

/-- The operator or bracket that a token is, depending on whether an operand comes next. -/
def signOf? (wantsOperand : Bool) (t : Token) : Option Operator :=
  if !t.isOperatorKind then none
  else if t.text = "(" then some .openBracket
  else if t.text = ")" then some .closeBracket
  else if wantsOperand then Operator.unary? t.text
  else Operator.binary? t.text

/-- What a token of an expression stands for. -/
def content? (wantsOperand : Bool) (t : Token) : Option (DataType × Value) :=
  if t.isOperand then (Parameter.read t).toOption
  else (signOf? wantsOperand t).map fun operator => (.operator, .int operator.code)

/-- The operands, operators and brackets of an expression in the order of the source. -/
def source? : Bool → List Token → Option (List (DataType × Value))
  | _, [] => some []
  | wantsOperand, t :: ts => do
    return (← content? wantsOperand t) :: (← source? (!endsOperand t) ts)

/-- Is it an operand? -/
def isOperandContent (content : DataType × Value) : Bool := content.1 != .operator

/-- The first token, and the rest of the source. -/
theorem source?_cons_eq_some {wantsOperand : Bool} {t : Token} {ts : List Token}
    {source : List (DataType × Value)} :
    source? wantsOperand (t :: ts) = some source ↔
      ∃ c rest, content? wantsOperand t = some c ∧ source? (!endsOperand t) ts = some rest ∧
        source = c :: rest := by
  cases hc : content? wantsOperand t <;> cases hrest : source? (!endsOperand t) ts <;>
    simp [source?, hc, hrest, eq_comm]

/-- What is no operand is given by the number of an operator. -/
theorem exists_operator_of_content? {wantsOperand : Bool} {t : Token} {c : DataType × Value}
    (h : content? wantsOperand t = some c) (hc : isOperandContent c = false) :
    ∃ operator : Operator, c = (.operator, .int operator.code) := by
  unfold content? at h
  split at h
  · next ho =>
    cases hread : Parameter.read t with
    | error e =>
        rw [hread] at h
        cases h
    | ok found =>
        rw [hread] at h
        cases h
        have hne := (kind_eq_operandKind ho hread).2
        simp [isOperandContent, hne] at hc
  · obtain ⟨operator, -, rfl⟩ := Option.map_eq_some_iff.mp h
    exact ⟨operator, rfl⟩

/-- All that is no operand is the number of an operator. -/
theorem exists_operator_of_source? {wantsOperand : Bool} {ts : List Token}
    {source : List (DataType × Value)} (h : source? wantsOperand ts = some source) :
    ∀ c ∈ source, isOperandContent c = false →
      ∃ operator : Operator, c = (.operator, .int operator.code) := by
  induction ts generalizing wantsOperand source with
  | nil =>
      cases h
      simp
  | cons t ts ih =>
      obtain ⟨c, rest, hc, hrest, rfl⟩ := source?_cons_eq_some.mp h
      rw [List.forall_mem_cons]
      exact ⟨exists_operator_of_content? hc, ih hrest⟩

/-! ### Reading keeps the source

An operand is added to both lists, and anything else to the written one. Operators that are
completed get into the evaluated list, where they are no operands. -/

/-- The tokens that have been read stood for `source`. -/
structure Keeps (r : Reading) (source : List (DataType × Value)) : Prop where
  written_eq : r.written.map Parameter.content = source
  operands_eq : (r.evaluated.map Parameter.content).filter isOperandContent
    = source.filter isOperandContent

/-- Completing operators adds no operand. -/
theorem operands_evaluate (stack : List (Operator × Token)) (ps : List Parameter) :
    ((evaluate stack ps).map Parameter.content).filter isOperandContent
      = (ps.map Parameter.content).filter isOperandContent := by
  induction stack generalizing ps with
  | nil => rfl
  | cons top stack ih =>
      rw [evaluate, ih]
      simp [Parameter.ofOperator, Parameter.content, isOperandContent]

/-- An operator or bracket is written, and the operands stay as they are. -/
theorem Keeps.sign {r r' : Reading} {source : List (DataType × Value)} (h : Keeps r source)
    {first : Nat} {operator : Operator} {t : Token} (complete : List (Operator × Token))
    (hwritten : r'.written = (r.write first operator t).written)
    (hevaluated : r'.evaluated = evaluate complete r.evaluated) :
    Keeps r' (source ++ [(.operator, .int operator.code)]) := by
  constructor
  · rw [hwritten, ← h.written_eq]
    simp [Reading.write, Parameter.ofOperator, Parameter.content]
  · rw [hevaluated, operands_evaluate, h.operands_eq]
    simp [isOperandContent]

/-- An operand is added to both lists. -/
theorem Keeps.operand {first : Nat} {r r' : Reading} {source : List (DataType × Value)} {t : Token}
    (h : Keeps r source) (ho : t.isOperand = true) (hpush : r.pushOperand first t = .ok r') :
    ∃ c, content? r.wantsOperand t = some c ∧ Keeps r' (source ++ [c]) := by
  unfold Reading.pushOperand at hpush
  cases hp : Parameter.ofToken (Slot.operand (first + r.written.length)) t with
  | error e => simp [hp] at hpush
  | ok p =>
      simp only [hp] at hpush
      cases hpush
      have hread := (Parameter.of_ofToken hp).2.1
      refine ⟨p.content, ?_, ?_, ?_⟩
      · rw [content?, if_pos ho, hread]
        rfl
      · simp [h.written_eq]
      · rw [List.map_append, List.filter_append, List.filter_append, h.operands_eq]
        rfl

/-! ### One token

A token is read as the operator or bracket that it is in the source. -/

/-- An operator stands for its number. -/
theorem content?_of_signOf? {wantsOperand : Bool} {t : Token} {operator : Operator}
    (h : signOf? wantsOperand t = some operator) :
    content? wantsOperand t = some (.operator, .int operator.code) := by
  have hk : t.isOperatorKind = true := by
    cases hk : t.isOperatorKind with
    | false => simp [signOf?, hk] at h
    | true => rfl
  simp [content?, isOperand_eq_false_of_isOperatorKind hk, h]

/-- An opening bracket is one whatever comes next. -/
theorem signOf?_opening {wantsOperand : Bool} {t : Token} (h : t.isOperator "(" = true) :
    signOf? wantsOperand t = some .openBracket := by
  obtain ⟨hk, htext⟩ := isOperatorKind_of_isOperator h
  simp [signOf?, hk, htext]

/-- So can a closing one. -/
theorem signOf?_closing {wantsOperand : Bool} {t : Token} (h : t.isOperator ")" = true) :
    signOf? wantsOperand t = some .closeBracket := by
  obtain ⟨hk, htext⟩ := isOperatorKind_of_isOperator h
  simp [signOf?, hk, htext]

/-- Before an operand, a prefix operator is meant. -/
theorem signOf?_unary {t : Token} {operator : Operator} (hk : t.isOperatorKind = true)
    (h : Operator.unary? t.text = some operator) : signOf? true t = some operator := by
  have hopen : t.text ≠ "(" := by
    intro htext
    simp [htext, Operator.unary?] at h
  have hclose : t.text ≠ ")" := by
    intro htext
    simp [htext, Operator.unary?] at h
  simp [signOf?, hk, hopen, hclose, h]

/-- After an operand, it is one between operands. -/
theorem signOf?_binary {t : Token} {operator : Operator} (hk : t.isOperatorKind = true)
    (h : Operator.binary? t.text = some operator) : signOf? false t = some operator := by
  have hopen : t.text ≠ "(" := by
    intro htext
    simp [htext, Operator.binary?] at h
  have hclose : t.text ≠ ")" := by
    intro htext
    simp [htext, Operator.binary?] at h
  simp [signOf?, hk, hopen, hclose, h]

/-- Reading a token adds what it stands for. -/
theorem Keeps.step {first : Nat} {r r' : Reading} {source : List (DataType × Value)} {t : Token}
    (h : Keeps r source) (hstep : Step first r t r') :
    ∃ c, content? r.wantsOperand t = some c ∧ Keeps r' (source ++ [c]) := by
  cases hstep with
  | operand _ ho hpush => exact h.operand ho hpush
  | opening _ ht =>
      exact ⟨_, content?_of_signOf? (signOf?_opening ht), h.sign [] rfl rfl⟩
  | closing _ ht hclose =>
      refine ⟨_, content?_of_signOf? (signOf?_closing ht), ?_⟩
      unfold Reading.close at hclose
      cases hd : r.stack.dropWhile fun top => top.1 != .openBracket with
      | nil => simp [hd] at hclose
      | cons top outer =>
          simp only [hd] at hclose
          cases hclose
          exact h.sign _ rfl rfl
  | unary hw hk hop =>
      rw [hw]
      exact ⟨_, content?_of_signOf? (signOf?_unary hk hop), h.sign [] rfl rfl⟩
  | binary hw hk hop =>
      rw [hw]
      exact ⟨_, content?_of_signOf? (signOf?_binary hk hop), h.sign _ rfl rfl⟩

/-! ### All tokens -/

/-- Reading tokens adds what they stand for, with their signs split off. -/
theorem Keeps.run {first : Nat} {us : List Token} {r r' : Reading}
    {source : List (DataType × Value)} (h : Keeps r source)
    (hrun : us.foldlM (push first) r = .ok r') :
    ∃ added, source? r.wantsOperand (splitSigns r.wantsOperand us) = some added ∧
      Keeps r' (source ++ added) := by
  induction us generalizing source r with
  | nil =>
      cases hrun
      exact ⟨[], rfl, by simpa using h⟩
  | cons t us ih =>
      rw [List.foldlM_cons] at hrun
      cases hp : r.push first t with
      | error e => rw [hp] at hrun; cases hrun
      | ok r₁ =>
          rw [hp] at hrun
          have hrun : us.foldlM (push first) r₁ = .ok r' := hrun
          rw [splitSigns_cons]
          split
          · next hsplit =>
            -- the token is split, and its two parts are read one after the other
            simp only [Bool.and_eq_true, Bool.not_eq_true'] at hsplit
            obtain ⟨hw, hneg⟩ := hsplit
            rw [push_negative hw hneg] at hp
            have hminus : Keeps (r.pushBinary first .subtract (minusOf t)) _ := h.sign _ rfl rfl
            obtain ⟨c, hc, hkeeps⟩ := hminus.operand rfl hp
            obtain ⟨added, hadded, hkeeps'⟩ := ih hkeeps hrun
            rw [wantsOperand_of_pushOperand hp] at hadded
            refine ⟨(.operator, .int Operator.subtract.code) :: c :: added, ?_, by simpa using hkeeps'⟩
            have hsign : content? r.wantsOperand (minusOf t)
                = some (.operator, .int Operator.subtract.code) := by
              rw [hw]
              exact content?_of_signOf? (signOf?_binary rfl rfl)
            exact source?_cons_eq_some.mpr ⟨_, _, hsign,
              source?_cons_eq_some.mpr ⟨c, added, hc, hadded, rfl⟩, rfl⟩
          · next hsplit =>
            have hstep := step_of_push hp (by simpa using hsplit)
            obtain ⟨c, hc, hkeeps⟩ := h.step hstep
            obtain ⟨added, hadded, hkeeps'⟩ := ih hkeeps hrun
            rw [hstep.wantsOperand] at hadded
            exact ⟨c :: added, source?_cons_eq_some.mpr ⟨c, added, hc, hadded, rfl⟩,
              by simpa using hkeeps'⟩

/-- An expression that is read lists its source as written, and the operands stand in the same order
as evaluated. -/
theorem source_of_parse {ts : List Token} {first : Nat} {found : Expression}
    (h : parse ts first = .ok found) :
    ∃ source, source? true (grammarTokens ts) = some source ∧
      found.written.map Parameter.content = source ∧
      (found.evaluated.map Parameter.content).filter isOperandContent
        = source.filter isOperandContent := by
  unfold parse at h
  cases hlast : ts.getLast? with
  | none => simp [hlast] at h
  | some last =>
      simp only [hlast] at h
      cases hrun : (ts.filter Token.isSignificant).foldlM (push first) {} with
      | error e => rw [hrun] at h; cases h
      | ok r =>
          rw [hrun] at h
          have hfinish : r.finish last = .ok found := h
          have hstart : Keeps ({} : Reading) [] := ⟨rfl, rfl⟩
          obtain ⟨source, hsource, hkeeps⟩ := hstart.run hrun
          rw [List.nil_append] at hkeeps
          unfold finish at hfinish
          split at hfinish
          · cases hfinish
          · split at hfinish
            · cases hfinish
            · cases hfinish
              exact ⟨source, hsource, hkeeps.written_eq,
                (operands_evaluate _ _).trans hkeeps.operands_eq⟩

end Expression

end MissionScript
