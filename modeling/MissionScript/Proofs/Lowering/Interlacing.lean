import MissionScript.Proofs.Expression.Source
import MissionScript.Proofs.Lowering.Table

/-!
# MissionScript.Proofs.Lowering.Interlacing

How the written order of an expression refers to its parameters.

The written order takes the operands as they come: `interlace` pairs them with the positions of the
operands as evaluated, which are those of the same operands when these stand in the same order
(`interlace_spec`). So the written order gives the source of an expression back (`rebuilds_of_parse`).

A compiled expression is stored twice. Its parameters are in the order of evaluation, and the
written order refers to them: an operator is a number that is not negative, and an operand is a
negative one, which says where its parameter is. That operands come in the same order both times is
a property of the parser (`MissionScript.Proofs.Expression.Source`), and is a hypothesis here until
the last theorem.
-/

namespace MissionScript

namespace Tree

open Expression

/-! ### The written order

The positions of operands among the parameters are listed from left to right, and handed out to the
operands as they were written. -/

/-- The positions, by what stands at them. -/
theorem operandPositions_eq (ps : List Parameter) :
    operandPositions ps
      = (ps.zipIdx.filter fun x => isOperandContent x.1.content).map Prod.snd := by
  rw [operandPositions, ← List.filterMap_eq_map, List.filterMap_filter]
  refine List.filterMap_congr ?_
  rintro ⟨p, n⟩ -
  by_cases h : p.dataType = .operator <;> simp [h, isOperandContent, Parameter.content]

/-- The operands as evaluated stand at their positions. -/
theorem forall₂_operandPositions (ps : List Parameter) :
    List.Forall₂ (fun n c => ∃ p, ps[n]? = some p ∧ p.content = c) (operandPositions ps)
      ((ps.map Parameter.content).filter isOperandContent) := by
  have hmap : (ps.map Parameter.content).filter isOperandContent
      = (ps.zipIdx.filter fun x => isOperandContent x.1.content).map fun x => x.1.content := by
    have hfst : ps.map Parameter.content = ps.zipIdx.map fun x => x.1.content := by
      conv_lhs => rw [← List.zipIdx_map_fst 0 ps, List.map_map]
      rfl
    rw [hfst, List.filter_map]
    rfl
  rw [operandPositions_eq, hmap, List.forall₂_map_left_iff, List.forall₂_map_right_iff,
    List.forall₂_same]
  rintro ⟨p, n⟩ hx
  exact ⟨p, List.mk_mem_zipIdx_iff_getElem?.mp (List.mem_filter.mp hx).1, rfl⟩

/-- An operand stands at each position, and at no other place. -/
theorem mem_operandPositions_iff {ps : List Parameter} {n : Nat} :
    n ∈ operandPositions ps ↔ ∃ p, ps[n]? = some p ∧ p.dataType ≠ .operator := by
  simp [operandPositions_eq, List.mk_mem_zipIdx_iff_getElem?, isOperandContent, Parameter.content]

/-- No position is handed out twice. -/
theorem nodup_operandPositions (ps : List Parameter) : (operandPositions ps).Nodup := by
  rw [operandPositions_eq]
  have hall : (ps.zipIdx.map Prod.snd).Nodup := by
    rw [List.zipIdx_map_snd]
    exact List.nodup_range'
  exact (List.filter_sublist.map Prod.snd).nodup hall

/-- An operator is written as its number. -/
theorem interlace_operator {p : Parameter} {code : Int} (htype : p.dataType = .operator)
    (hvalue : p.value = .int code) (positions : List Nat) (ps : List Parameter) :
    interlace positions (p :: ps) = code :: interlace positions ps := by
  rw [interlace, htype, hvalue]

/-- An operand takes the next position. -/
theorem interlace_operand {p : Parameter} (htype : p.dataType ≠ .operator) (n : Nat)
    (positions : List Nat) (ps : List Parameter) :
    interlace (n :: positions) (p :: ps) = -(Number.ofCount n + 1) :: interlace positions ps := by
  rw [interlace]
  split
  · next h _ => exact absurd h htype
  · rfl

/-- The elements of the written order stand for what was written, when the numbers of operators do
and the positions are those of the operands; and the negative ones refer to the positions in turn. -/
theorem interlace_spec {R : Int → DataType × Value → Prop} {positions : List Nat}
    {written : List Parameter}
    (hoperators : ∀ p ∈ written, isOperandContent p.content = false →
      ∃ code, p.value = .int code ∧ 0 ≤ code ∧ R code p.content)
    (hoperands : List.Forall₂
      (fun n c => 0 ≤ Number.ofCount n ∧ R (-(Number.ofCount n + 1)) c) positions
      ((written.map Parameter.content).filter isOperandContent)) :
    List.Forall₂ R (interlace positions written) (written.map Parameter.content) ∧
      (interlace positions written).filter (· < 0)
        = positions.map fun n => -(Number.ofCount n + 1) := by
  induction written generalizing positions with
  | nil =>
      cases hoperands
      exact ⟨.nil, rfl⟩
  | cons p ps ih =>
      have hrest := fun q hq => hoperators q (List.mem_cons_of_mem _ hq)
      rw [List.map_cons] at hoperands ⊢
      cases hp : isOperandContent p.content with
      | false =>
          -- an operator takes no position
          have htype : p.dataType = .operator := by
            simpa [isOperandContent, Parameter.content] using hp
          obtain ⟨code, hvalue, hpos, hcode⟩ := hoperators p List.mem_cons_self hp
          rw [List.filter_cons_of_neg (by simp [hp])] at hoperands
          obtain ⟨hforall, hfilter⟩ := ih hrest hoperands
          rw [interlace_operator htype hvalue, List.filter_cons_of_neg (by simpa using hpos)]
          exact ⟨.cons hcode hforall, hfilter⟩
      | true =>
          -- an operand takes the next one
          have htype : p.dataType ≠ .operator := by
            simpa [isOperandContent, Parameter.content] using hp
          rw [List.filter_cons_of_pos hp] at hoperands
          obtain - | ⟨⟨hpos, hn⟩, hoperands⟩ := hoperands
          obtain ⟨hforall, hfilter⟩ := ih hrest hoperands
          rw [interlace_operand htype, List.filter_cons_of_pos (by simp; omega), List.map_cons, hfilter]
          exact ⟨.cons hn hforall, rfl⟩

end Tree

/-! ### Expressions

To read the written order, numbers are taken for what they stand for (`Command.Denotes`). It gives
the source back if this is what was written, in its order, and if no operand is lost or used twice.
-/

/-- What an element of the written order stands for: the operator of that number, or the parameter
that it refers to. -/
def Command.element? (c : Command) (n : Int) : Option CodeParameter :=
  if 0 ≤ n then some ⟨.operator, .int n⟩ else c.parameters[(-n).toNat]?

/-- An element of the written order stands for `content`, when `vars` are the variables. -/
def Command.Denotes (c : Command) (vars : List String) (n : Int) (content : DataType × Value) : Prop :=
  ∃ p, c.element? n = some p ∧ Tree.encode? vars content = some p

/-- The written order of a command gives `source` back, when `vars` are the variables. -/
structure Command.Rebuilds (c : Command) (vars : List String) (source : List (DataType × Value)) :
    Prop where
  /-- Each element stands for what was written in its place. -/
  elements : List.Forall₂ (c.Denotes vars) c.written source
  /-- An element refers to an operand only. -/
  operand : ∀ n : Nat, -((n : Int) + 1) ∈ c.written →
    ∃ p, c.parameters[n + 1]? = some p ∧ p.dataType ≠ .operator
  /-- Each operand after the return value is referred to once. -/
  once : ∀ (n : Nat) (p : CodeParameter), c.parameters[n + 1]? = some p → p.dataType ≠ .operator →
    c.written.count (-((n : Int) + 1)) = 1

/-- The numbers of operators are not negative, so that operands can be told from them. -/
theorem Operator.code_nonneg (operator : Operator) : 0 ≤ operator.code := by
  cases operator <;> decide

theorem Command.element?_of_nonneg (c : Command) {n : Int} (h : 0 ≤ n) :
    c.element? n = some ⟨.operator, .int n⟩ := if_pos h

/-- A negative number refers to a parameter behind the return value. -/
theorem Command.element?_of_position (c : Command) (n : Nat) :
    c.element? (-((n : Int) + 1)) = c.parameters[n + 1]? := by
  rw [element?, if_neg (by omega)]
  congr 1

/-- What corresponds one by one does so at each position. -/
theorem forall₂_getElem? {α β : Type} {R : α → β → Prop} {as : List α} {bs : List β}
    (h : List.Forall₂ R as bs) {n : Nat} {a : α} (ha : as[n]? = some a) :
    ∃ b, bs[n]? = some b ∧ R a b := by
  induction h generalizing n with
  | nil => simp at ha
  | cons hab _ ih =>
      cases n with
      | zero =>
          cases ha
          exact ⟨_, rfl, hab⟩
      | succ n => exact ih ha

namespace Tree

open Expression

section

variable {evaluated written : List Parameter} {c : Command} {vars : List String}

/-- A position of an operand can be stored. -/
theorem ofCount_of_encoded
    (hencoded : List.Forall₂ (fun p q => encode? vars p.content = some q) evaluated
      c.parameters.tail)
    (hlength : c.parameters.length < 0x80000000) {n : Nat} {p : Parameter}
    (hp : evaluated[n]? = some p) : Number.ofCount n = n := by
  have hlt := (List.getElem?_eq_some_iff.mp hp).1
  have hle := hencoded.length_eq
  rw [List.length_tail] at hle
  exact Number.ofCount_of_lt (by omega)

/-- What is evaluated comes behind the return value. -/
theorem exists_encoded
    (hencoded : List.Forall₂ (fun p q => encode? vars p.content = some q) evaluated
      c.parameters.tail) {n : Nat} {p : Parameter} (hp : evaluated[n]? = some p) :
    ∃ q, c.parameters[n + 1]? = some q ∧ encode? vars p.content = some q := by
  rw [← List.getElem?_tail]
  exact forall₂_getElem? hencoded hp

/-- The elements of the written order stand for what was written, and the negative ones refer to the
operands in turn. -/
theorem denotes_interlace
    (hencoded : List.Forall₂ (fun p q => encode? vars p.content = some q) evaluated
      c.parameters.tail)
    (hoperators : ∀ p ∈ written, isOperandContent p.content = false →
      ∃ operator : Operator, p.content = (.operator, .int operator.code))
    (hoperands : (evaluated.map Parameter.content).filter isOperandContent
      = (written.map Parameter.content).filter isOperandContent)
    (hlength : c.parameters.length < 0x80000000) :
    List.Forall₂ (c.Denotes vars) (interlace (operandPositions evaluated) written)
        (written.map Parameter.content) ∧
      (interlace (operandPositions evaluated) written).filter (· < 0)
        = (operandPositions evaluated).map fun n : Nat => -((n : Int) + 1) := by
  have hsigns : ∀ p ∈ written, isOperandContent p.content = false → ∃ code, p.value = .int code ∧
      0 ≤ code ∧ c.Denotes vars code p.content := by
    intro p hp hsign
    obtain ⟨operator, hcontent⟩ := hoperators p hp hsign
    have hcode := operator.code_nonneg
    rw [hcontent]
    exact ⟨operator.code, (Prod.mk.inj hcontent).2, hcode, _, c.element?_of_nonneg hcode, rfl⟩
  have hpositions : List.Forall₂
      (fun n content => 0 ≤ Number.ofCount n ∧ c.Denotes vars (-(Number.ofCount n + 1)) content)
      (operandPositions evaluated) ((written.map Parameter.content).filter isOperandContent) := by
    rw [← hoperands]
    refine (forall₂_operandPositions evaluated).imp ?_
    rintro n _ ⟨p, hp, rfl⟩
    obtain ⟨q, hq, hencode⟩ := exists_encoded hencoded hp
    rw [ofCount_of_encoded hencoded hlength hp]
    exact ⟨by omega, q, (c.element?_of_position n).trans hq, hencode⟩
  obtain ⟨helements, hfilter⟩ := interlace_spec hsigns hpositions
  refine ⟨helements, hfilter.trans (List.map_congr_left fun n hn => ?_)⟩
  obtain ⟨p, hp, -⟩ := mem_operandPositions_iff.mp hn
  rw [ofCount_of_encoded hencoded hlength hp]

/-- Where the negative elements refer to the operands in turn, each of them refers to an operand, -/
theorem operand_of_mem_written
    (hencoded : List.Forall₂ (fun p q => encode? vars p.content = some q) evaluated
      c.parameters.tail)
    (hreferred : c.written.filter (· < 0)
      = (operandPositions evaluated).map fun n : Nat => -((n : Int) + 1)) {n : Nat}
    (hn : -((n : Int) + 1) ∈ c.written) :
    ∃ p, c.parameters[n + 1]? = some p ∧ p.dataType ≠ .operator := by
  have hmem : -((n : Int) + 1) ∈ c.written.filter (· < 0) :=
    List.mem_filter.mpr ⟨hn, decide_eq_true (by omega)⟩
  rw [hreferred] at hmem
  obtain ⟨m, hm, hmn⟩ := List.mem_map.mp hmem
  obtain rfl : m = n := by omega
  obtain ⟨p, hp, htype⟩ := mem_operandPositions_iff.mp hm
  obtain ⟨q, hq, hencode⟩ := exists_encoded hencoded hp
  exact ⟨q, hq, by rw [dataType_of_encode? hencode]; exact htype⟩

/-- and every operand is referred to once. -/
theorem count_written_of_operand
    (hencoded : List.Forall₂ (fun p q => encode? vars p.content = some q) evaluated
      c.parameters.tail)
    (hreferred : c.written.filter (· < 0)
      = (operandPositions evaluated).map fun n : Nat => -((n : Int) + 1)) {n : Nat}
    {q : CodeParameter} (hq : c.parameters[n + 1]? = some q) (htype : q.dataType ≠ .operator) :
    c.written.count (-((n : Int) + 1)) = 1 := by
  rw [← List.getElem?_tail] at hq
  obtain ⟨p, hp, hencode⟩ := forall₂_getElem? hencoded.flip hq
  rw [dataType_of_encode? hencode] at htype
  have hmem : n ∈ operandPositions evaluated := mem_operandPositions_iff.mpr ⟨p, hp, htype⟩
  rw [← List.count_filter (p := (· < 0)) (decide_eq_true (by omega)), hreferred]
  refine List.count_eq_one_of_mem ?_ (List.mem_map_of_mem hmem)
  refine (nodup_operandPositions evaluated).map ?_
  intro a b hab
  simp only at hab
  omega

/-- Where the operands stand in the same order as written and as evaluated, the written order gives
the source back. -/
theorem rebuilds_of_interlace
    (hencoded : List.Forall₂ (fun p q => encode? vars p.content = some q) evaluated
      c.parameters.tail)
    (hwritten : c.written = interlace (operandPositions evaluated) written)
    (hoperators : ∀ p ∈ written, isOperandContent p.content = false →
      ∃ operator : Operator, p.content = (.operator, .int operator.code))
    (hoperands : (evaluated.map Parameter.content).filter isOperandContent
      = (written.map Parameter.content).filter isOperandContent)
    (hlength : c.parameters.length < 0x80000000) :
    c.Rebuilds vars (written.map Parameter.content) := by
  obtain ⟨helements, hreferred⟩ := denotes_interlace hencoded hoperators hoperands hlength
  rw [← hwritten] at helements hreferred
  exact {
    elements := helements
    operand := fun n hn => operand_of_mem_written hencoded hreferred hn
    once := fun n q hq htype => count_written_of_operand hencoded hreferred hq htype }

end

/-- The command of an expression gives its source back. -/
theorem rebuilds_of_parse {ts : List Token} {found : Expression} (hparse : parse ts 1 = .ok found)
    {s : Statement} {target : Parameter} (hparameters : s.parameters = target :: found.written)
    (hevaluated : s.evaluated = found.evaluated) {c : Command} {before vars : List String}
    (hc : (c.parameters, c.written) = (encodeStatement c.jump before s .expression).2)
    (hvars : (encodeStatement c.jump before s .expression).1 <+: vars)
    (hlength : c.parameters.length < 0x80000000) :
    ∃ source, source? true (grammarTokens ts) = some source ∧ c.Rebuilds vars source := by
  obtain ⟨source, hsource, rfl, hoperands⟩ := source_of_parse hparse
  simp only [encodeStatement, hparameters, hevaluated, Prod.mk.injEq, List.take_succ_cons,
    List.take_zero, List.singleton_append, List.tail_cons] at hc hvars
  obtain ⟨hps, hinterlaced⟩ := hc
  have hencoded := forall₂_encodeParameters before (target :: found.evaluated) hvars
  rw [← hps] at hencoded
  refine ⟨_, hsource, rebuilds_of_interlace ?_ hinterlaced ?_ hoperands hlength⟩
  · obtain ⟨first, rest, -, hrest, hcons⟩ := List.forall₂_cons_left_iff.mp hencoded
    rw [hcons]
    exact hrest
  · intro p hp
    exact exists_operator_of_source? hsource _ (List.mem_map_of_mem hp)

end Tree

end MissionScript
