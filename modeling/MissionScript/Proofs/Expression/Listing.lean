import MissionScript.Proofs.Expression.Grammar

/-!
# MissionScript.Proofs.Expression.Listing

The evaluation order of an expression as a list of parameters, and how reading builds it up.

An operator is listed when it is complete (`listing_evaluate`), and the parameters of a listing
determine its entries (`eq_of_listing`): labels apart, the type of a value tells the kind of its
token, and the number of an operator tells the operator.
-/

namespace MissionScript

namespace Expression

open Reading

/-! ### Listings

A listing numbers its entries from the position of its first one, so appending an entry needs the
length of what is there (`listing_append_singleton`). The reader appends in just this way, one
operator or operand after the other. -/

/-- An entry on the stack, as it is listed when it is complete. -/
def signItem (top : Operator × Token) : Item := .sign (.ofToken top.1.code top.2)

theorem listing_cons_eq_ok {position : Nat} {item : Item} {items : List Item}
    {ps : List Parameter} :
    listing position (item :: items) = .ok ps ↔
      ∃ p rest, item.parameter position = .ok p ∧ listing (position + 1) items = .ok rest ∧
        ps = p :: rest := by
  rw [listing]
  cases item.parameter position with
  | error e => simp [bind, Except.bind]
  | ok p =>
      cases listing (position + 1) items with
      | error e => simp [bind, Except.bind]
      | ok rest => simp [bind, Except.bind, pure, Except.pure, eq_comm]

theorem length_of_listing {position : Nat} {items : List Item} {ps : List Parameter}
    (h : listing position items = .ok ps) : ps.length = items.length := by
  induction items generalizing position ps with
  | nil =>
      cases h
      rfl
  | cons item items ih =>
      obtain ⟨p, rest, -, hrest, rfl⟩ := listing_cons_eq_ok.mp h
      rw [List.length_cons, ih hrest, List.length_cons]

theorem listing_append_singleton {position : Nat} {items : List Item} {ps : List Parameter}
    {item : Item} {p : Parameter} (h : listing position items = .ok ps)
    (hp : item.parameter (position + items.length) = .ok p) :
    listing position (items ++ [item]) = .ok (ps ++ [p]) := by
  induction items generalizing position ps with
  | nil =>
      cases h
      exact listing_cons_eq_ok.mpr ⟨p, [], hp, rfl, rfl⟩
  | cons head items ih =>
      obtain ⟨q, rest, hq, hrest, rfl⟩ := listing_cons_eq_ok.mp h
      have hlen : position + (head :: items).length = position + 1 + items.length := by
        rw [List.length_cons]; omega
      rw [hlen] at hp
      exact listing_cons_eq_ok.mpr ⟨q, rest ++ [p], hq, ih hrest hp, rfl⟩

/-- Completing operators lists them after what is there. -/
theorem listing_evaluate {items : List Item} {ps : List Parameter} (stack : List (Operator × Token))
    (h : listing 0 items = .ok ps) :
    listing 0 (items ++ stack.map signItem) = .ok (evaluate stack ps) := by
  induction stack generalizing items ps with
  | nil => simpa [evaluate] using h
  | cons top stack ih =>
      have hlen := length_of_listing h
      have hstep : listing 0 (items ++ [signItem top])
          = .ok (ps ++ [Parameter.ofOperator (Slot.operand ps.length) top.1 top.2]) := by
        refine listing_append_singleton h ?_
        rw [Nat.zero_add, ← hlen]
        rfl
      have := ih hstep
      rw [List.map_cons, evaluate]
      simpa using this

/-! ### Operands

That an operand can be read is the only condition on it in the grammar. What it is read as tells
what it was: its type determines the kind of the token, apart from labels, which are strings as well
and cannot stand in an expression. -/

/-- An operand can be read exactly when it is no number or a number that fits. -/
theorem read_of_isOperandToken {t : Token} (h : IsOperandToken t) :
    ∃ type value, Parameter.read t = .ok (type, value) := by
  obtain ⟨ho, hn⟩ := isOperandToken_iff.mp h
  unfold Parameter.read
  cases hk : t.kind with
  | number =>
      obtain ⟨n, hn⟩ := Option.isSome_iff_exists.mp (hn hk)
      exact ⟨.integer, .int n, by simp [hn]⟩
  | _ => simp_all [Token.isOperand, Token.isValue]

/-- Whatever is read as an operand may stand in the grammar. -/
theorem isOperandToken_of_read {t : Token} {type : DataType} {value : Value}
    (ho : t.isOperand = true) (h : Parameter.read t = .ok (type, value)) : IsOperandToken t := by
  refine isOperandToken_iff.mpr ⟨ho, fun hk => ?_⟩
  rw [Parameter.read, hk] at h
  cases hn : Number.ofText? t.text with
  | none => simp [hn] at h
  | some n => rfl

/-- The kind of the operands that are read as a type. -/
def operandKind : DataType → TokenKind
  | .null => .null
  | .var => .var
  | .constant => .constant
  | .integer => .number
  | .string => .string
  | .object => .object
  | .operator => .binaryOp

/-- The type that an operand is read as tells the kind of its token, and it is not that of an
operator. -/
theorem kind_eq_operandKind {t : Token} {type : DataType} {value : Value}
    (ho : t.isOperand = true) (h : Parameter.read t = .ok (type, value)) :
    t.kind = operandKind type ∧ type ≠ .operator := by
  unfold Parameter.read at h
  cases hk : t.kind with
  | number =>
      rw [hk] at h
      cases hn : Number.ofText? t.text with
      | none => simp [hn] at h
      | some n =>
          simp only [hn] at h
          cases h
          exact ⟨rfl, by decide⟩
  | var | string | object | constant | null =>
      rw [hk] at h
      cases h
      exact ⟨rfl, by decide⟩
  | _ => simp [Token.isOperand, Token.isValue, hk] at ho

/-- An entry is no operand, or one that may stand in an expression. -/
def Item.Valid : Item → Prop
  | .operand t => t.isOperand = true
  | .sign _ => True

/-- An entry can be told from its parameter: its place and its text are copied, and the rest follows
from the type and the value. -/
theorem eq_of_parameter {position : Nat} {a b : Item} {p : Parameter} (ha : a.Valid) (hb : b.Valid)
    (hpa : a.parameter position = .ok p) (hpb : b.parameter position = .ok p) : a = b := by
  cases a with
  | operand t =>
      obtain ⟨-, hrt, htext, hstart, hstop⟩ := Parameter.of_ofToken hpa
      obtain ⟨hkt, hnt⟩ := kind_eq_operandKind ha hrt
      cases b with
      | operand u =>
          obtain ⟨-, hru, hutext, hustart, hustop⟩ := Parameter.of_ofToken hpb
          obtain ⟨hku, -⟩ := kind_eq_operandKind hb hru
          rw [Item.operand.injEq]
          cases t
          cases u
          rw [Token.mk.injEq]
          exact ⟨hkt.trans hku.symm, hstart.symm.trans hustart, hstop.symm.trans hustop,
            htext.symm.trans hutext⟩
      | sign s =>
          cases hpb
          exact absurd rfl hnt
  | sign s =>
      cases hpa
      cases b with
      | operand u =>
          obtain ⟨-, hru, -⟩ := Parameter.of_ofToken hpb
          exact absurd rfl (kind_eq_operandKind hb hru).2
      | sign r =>
          cases s
          cases r
          simp only [Item.parameter, Except.ok.injEq, Parameter.mk.injEq, Value.int.injEq] at hpb
          obtain ⟨-, -, rfl, rfl, rfl, rfl⟩ := hpb
          rfl

/-- A listing determines its entries. -/
theorem eq_of_listing {position : Nat} {as bs : List Item} {ps : List Parameter}
    (ha : ∀ a ∈ as, a.Valid) (hb : ∀ b ∈ bs, b.Valid) (hla : listing position as = .ok ps)
    (hlb : listing position bs = .ok ps) : as = bs := by
  induction as generalizing position bs ps with
  | nil =>
      cases hla
      have hlen := length_of_listing hlb
      exact (List.eq_nil_of_length_eq_zero hlen.symm).symm
  | cons a as ih =>
      obtain ⟨p, rest, hp, hrest, rfl⟩ := listing_cons_eq_ok.mp hla
      cases bs with
      | nil => cases hlb
      | cons b bs =>
          obtain ⟨q, rest', hq, hrest', heq⟩ := listing_cons_eq_ok.mp hlb
          obtain ⟨rfl, rfl⟩ := List.cons.inj heq
          have hab : a = b := eq_of_parameter (ha a (by simp)) (hb b (by simp)) hp hq
          have htail : as = bs :=
            ih (fun x hx => ha x (by simp [hx])) (fun x hx => hb x (by simp [hx])) hrest hrest'
          rw [hab, htail]

/-- What a phrase lists can be told from its parameters. -/
theorem Phrase.valid_postorder {n : Nat} {ts : List Token} {e : Term} (h : Phrase n ts e) :
    ∀ item ∈ e.postorder, item.Valid := by
  induction h with
  | operand ht =>
      intro item hitem
      rw [List.mem_singleton.mp hitem]
      exact mem_operandKinds_iff.mp ht.1
  | bracket _ _ _ ih => exact ih
  | unary _ _ _ ih =>
      intro item hitem
      rcases List.mem_append.mp hitem with hitem | hitem
      · exact ih item hitem
      · rw [List.mem_singleton.mp hitem]
        trivial
  | binary _ _ _ _ _ ihl ihr =>
      intro item hitem
      rcases List.mem_append.mp hitem with hitem | hitem
      · rcases List.mem_append.mp hitem with hitem | hitem
        · exact ihl item hitem
        · exact ihr item hitem
      · rw [List.mem_singleton.mp hitem]
        trivial

end Expression

end MissionScript
