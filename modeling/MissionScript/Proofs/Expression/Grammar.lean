import MissionScript.Expression
import MissionScript.Proofs.Text.Decimals

/-!
# MissionScript.Proofs.Expression.Grammar

The grammar of expressions and the order in which an expression is evaluated.

* `PrefixOperator`, `BinaryOperator` — the operators as they are written, with the number that stands
  for each of them in a compiled script and the level on which it binds.
* `Phrase n ts e` — the tokens `ts` are an expression with the syntax tree `e` in which every binary
  operator outside of brackets binds at least as strongly as `n`. Levels 1 to 9 are those of the
  binary operators, which associate to the left; operators in front of an operand bind more strongly
  than all of them.
* `splitSigns` — the minus sign of a number that stands where an operator is expected is an operator
  of its own.
* `Term.postorder` — the operands and operators of a tree, each operator after its operands.
  A stack reads the tree back off this listing, so no two trees have the same (`Phrase.eq_of_postorder`).

Nothing here refers to how expressions are read: the words, levels and numbers of the operators and the
kinds of the operands are written out, and the reader's own tables are compared with them at the end
(`prefixOperator_of_unary?`, `binaryOperator_of_binary?` and their converses). A reader that forgets an
operator, or lets one bind on another level, does not accept this grammar.
-/

namespace MissionScript

namespace Expression

/-! ### Syntax trees -/

/-- An operator in the place where it is written, by its number in a compiled script. The sign `-` has two
numbers: it is one operator in front of an operand and another one between two operands. -/
structure Sign where
  code : Int
  text : String
  start : Nat
  stop : Nat
  deriving DecidableEq, Repr

/-- The token `t`, read as an operator. -/
def Sign.ofToken (code : Int) (t : Token) : Sign :=
  ⟨code, t.text, t.start, t.stop⟩

/-- The syntax tree of an expression. Brackets only shape it. -/
inductive Term
  | operand (t : Token)
  | unary (s : Sign) (e : Term)
  | binary (s : Sign) (l r : Term)
  deriving DecidableEq, Repr

/-- An entry of the evaluation order. -/
inductive Item
  | operand (t : Token)
  | sign (s : Sign)
  deriving DecidableEq, Repr

/-- The operands and operators of a tree, each operator after its operands. -/
def Term.postorder : Term → List Item
  | .operand t => [.operand t]
  | .unary s e => e.postorder ++ [.sign s]
  | .binary s l r => l.postorder ++ r.postorder ++ [.sign s]

/-- An entry of the evaluation order as a parameter: a value, or the number of an operator. -/
def Item.parameter (position : Nat) : Item → Except ParameterError Parameter
  | .operand t => Parameter.ofToken (Slot.operand position) t
  | .sign s =>
    .ok { slot := Slot.operand position, dataType := .operator, value := .int s.code,
          text := s.text, start := s.start, stop := s.stop }

/-- The entries of the evaluation order as parameters, numbered from `position` on. -/
def listing : Nat → List Item → Except ParameterError (List Parameter)
  | _, [] => .ok []
  | position, item :: items => do
    let p ← item.parameter position
    return p :: (← listing (position + 1) items)

/-! ### Operands and operators -/

/-- The kinds of token that are operands: values, but not labels. -/
def operandKinds : List TokenKind := [.var, .number, .string, .object, .constant, .null]

/-- Is the token an operand? A number has to fit into 32 bits. -/
def IsOperandToken (t : Token) : Prop :=
  t.kind ∈ operandKinds ∧
    (t.kind = .number → ∃ n, Numeral t.text.toList n ∧ -0x80000000 ≤ n ∧ n < 0x80000000)

/-- Is the token the bracket or operator that is written `text`? Which of the two kinds of operator the
lexer took it for does not matter: a minus sign is always of the second kind. -/
def IsSignToken (text : String) (t : Token) : Prop :=
  (t.kind = .unaryOp ∨ t.kind = .binaryOp) ∧ t.text = text

instance (text : String) (t : Token) : Decidable (IsSignToken text t) :=
  inferInstanceAs (Decidable (_ ∧ _))

/-- The operators in front of an operand: how each is written, and its number. -/
inductive PrefixOperator : String → Int → Prop
  | minus : PrefixOperator "-" 16
  | logicalNot : PrefixOperator "!" 17
  | bitwiseNot : PrefixOperator "~" 18

/-- The operators between two operands: how each is written, its number, and the level on which it binds.
Three of them can be written in two ways. -/
inductive BinaryOperator : String → Int → Nat → Prop
  | orWord : BinaryOperator "OR" 0 1
  | orSign : BinaryOperator "||" 0 1
  | andWord : BinaryOperator "AND" 1 2
  | andSign : BinaryOperator "&&" 1 2
  | bitwiseOr : BinaryOperator "|" 2 3
  | bitwiseXor : BinaryOperator "^" 3 4
  | bitwiseAnd : BinaryOperator "&" 4 5
  | equal : BinaryOperator "==" 5 6
  | notEqual : BinaryOperator "!=" 6 6
  | less : BinaryOperator "<" 7 7
  | greater : BinaryOperator ">" 8 7
  | lessEqual : BinaryOperator "<=" 9 7
  | greaterEqual : BinaryOperator ">=" 10 7
  | add : BinaryOperator "+" 11 8
  | subtract : BinaryOperator "-" 12 8
  | multiply : BinaryOperator "*" 13 9
  | divide : BinaryOperator "/" 14 9
  | modulusWord : BinaryOperator "MOD" 15 9
  | modulusSign : BinaryOperator "%" 15 9

/-! ### The grammar -/

/-- The tokens `ts` are an expression with the tree `e`, and its binary operators outside of
brackets bind at least as strongly as `n`. The right operand of a binary operator binds more strongly
than the operator, the left one at least as strongly, so operators of one level associate to the left.
The operand of an operator in front of it is a phrase of level 10 and so free of binary operators, whose
levels end at 9. -/
inductive Phrase : Nat → List Token → Term → Prop
  | operand {n : Nat} {t : Token} : IsOperandToken t → Phrase n [t] (.operand t)
  | bracket {n : Nat} {t u : Token} {ts : List Token} {e : Term} :
      IsSignToken "(" t → IsSignToken ")" u → Phrase 1 ts e →
      Phrase n (t :: (ts ++ [u])) e
  | unary {n : Nat} {text : String} {code : Int} {t : Token} {ts : List Token} {e : Term} :
      IsSignToken text t → PrefixOperator text code → Phrase 10 ts e →
      Phrase n (t :: ts) (.unary (.ofToken code t) e)
  | binary {n m : Nat} {text : String} {code : Int} {t : Token} {ls rs : List Token} {l r : Term} :
      IsSignToken text t → BinaryOperator text code m → n ≤ m →
      Phrase m ls l → Phrase (m + 1) rs r →
      Phrase n (ls ++ t :: rs) (.binary (.ofToken code t) l r)

/-- Does an operator, rather than an operand, come after the token? -/
def endsOperand (t : Token) : Bool := decide (t.kind ∈ operandKinds ∨ IsSignToken ")" t)

/-- Splits each negative number that stands where an operator is expected into a minus sign and the
number without it: where `5 -3` is read, the second token is a number to the lexer, but the sign can only
be a subtraction. -/
def splitSigns : Bool → List Token → List Token
  | _, [] => []
  | wantsOperand, t :: ts =>
    if wantsOperand = false ∧ t.kind = .number ∧ t.text.toList.head? = some '-' then
      ⟨.binaryOp, t.start, t.start + 1, "-"⟩ ::
        ⟨.number, t.start + 1, t.stop, String.ofList t.text.toList.tail⟩ :: splitSigns false ts
    else t :: splitSigns (!endsOperand t) ts

/-- The tokens that the grammar is about: blanks are left out, and signs are split off. -/
def grammarTokens (tokens : List Token) : List Token :=
  splitSigns true (tokens.filter fun t => t.kind != .blank)

/-- A phrase of a level is one of every lower level. -/
theorem Phrase.mono {m n : Nat} {ts : List Token} {e : Term} (h : Phrase n ts e) (hle : m ≤ n) :
    Phrase m ts e := by
  cases h with
  | operand ht => exact .operand ht
  | bracket ht hu hts => exact .bracket ht hu hts
  | unary ht hop he => exact .unary ht hop he
  | binary ht hop hn hl hr => exact .binary ht hop (Nat.le_trans hle hn) hl hr

/-! ### Reading a tree off its listing

The numbers of the operators tell how many operands to take from the stack: those in front of an operand
are the ones from 16 on. -/

theorem PrefixOperator.le_code {text : String} {code : Int} (h : PrefixOperator text code) :
    16 ≤ code := by
  cases h <;> decide

theorem BinaryOperator.code_lt {text : String} {code : Int} {m : Nat}
    (h : BinaryOperator text code m) : code < 16 := by
  cases h <;> decide

/-- Reads entries in evaluation order with a stack of complete trees. -/
def readBack : List Item → List Term → Option (List Term)
  | [], stack => some stack
  | .operand t :: items, stack => readBack items (.operand t :: stack)
  | .sign s :: items, stack =>
    if 16 ≤ s.code then
      match stack with
      | e :: stack => readBack items (.unary s e :: stack)
      | [] => none
    else
      match stack with
      | r :: l :: stack => readBack items (.binary s l r :: stack)
      | _ => none

/-- Reading the listing of a phrase pushes its tree, whatever follows and whatever is there. -/
theorem Phrase.readBack_postorder {n : Nat} {ts : List Token} {e : Term} (h : Phrase n ts e)
    (items : List Item) (stack : List Term) :
    readBack (e.postorder ++ items) stack = readBack items (e :: stack) := by
  induction h generalizing items stack with
  | operand _ => rfl
  | bracket _ _ _ ih => exact ih items stack
  | unary _ hop _ ih =>
      rw [Term.postorder, List.append_assoc, ih]
      simp [readBack, Sign.ofToken, hop.le_code]
  | binary _ hop _ _ _ ihl ihr =>
      rw [Term.postorder, List.append_assoc, List.append_assoc, ihl, ihr]
      simp [readBack, Sign.ofToken, Int.not_le.mpr hop.code_lt]

/-- Phrases with the same listing have the same tree. -/
theorem Phrase.eq_of_postorder {m n : Nat} {ts us : List Token} {e f : Term}
    (he : Phrase m ts e) (hf : Phrase n us f) (h : e.postorder = f.postorder) : e = f := by
  have hre := he.readBack_postorder [] []
  have hrf := hf.readBack_postorder [] []
  rw [h, hrf] at hre
  simpa [readBack] using hre.symm

/-! ### What the reader makes of the same tokens

Each notion of the grammar is compared with the function of the reader that answers the same question. -/

theorem isSignToken_iff {text : String} {t : Token} :
    IsSignToken text t ↔ t.isOperator text = true := by
  simp [IsSignToken, Token.isOperator, Token.isOperatorKind]

theorem isSignToken_text {t : Token} (h : t.isOperatorKind = true) : IsSignToken t.text t :=
  isSignToken_iff.mpr (by simp [Token.isOperator, h])

theorem mem_operandKinds_iff {t : Token} : t.kind ∈ operandKinds ↔ t.isOperand = true := by
  cases hk : t.kind <;> simp [operandKinds, Token.isOperand, Token.isValue, hk]

theorem isOperandToken_iff {t : Token} :
    IsOperandToken t ↔
      t.isOperand = true ∧ (t.kind = .number → (Number.ofText? t.text).isSome = true) := by
  rw [IsOperandToken, mem_operandKinds_iff, Number.isSome_ofText?_iff]

theorem endsOperand_eq (t : Token) : endsOperand t = (t.isOperand || t.isOperator ")") := by
  rw [Bool.eq_iff_iff, endsOperand, decide_eq_true_eq, Bool.or_eq_true, mem_operandKinds_iff,
    isSignToken_iff]

theorem splitSigns_cons (wantsOperand : Bool) (t : Token) (ts : List Token) :
    splitSigns wantsOperand (t :: ts) =
      if !wantsOperand && Reading.isNegative t then
        Reading.minusOf t :: Reading.absOf t :: splitSigns false ts
      else t :: splitSigns (!endsOperand t) ts := by
  rw [splitSigns]
  exact if_congr (by simp [Reading.isNegative]) rfl rfl

theorem grammarTokens_eq (tokens : List Token) :
    grammarTokens tokens = splitSigns true (tokens.filter Token.isSignificant) := rfl

/-- A choice that gives `b` gives it at once, where its condition holds, or later. -/
theorem eq_or_of_ite {α : Type} {c : Prop} [Decidable c] {a b : α} {x : Option α}
    (h : (if c then some a else x) = some b) : (c ∧ a = b) ∨ x = some b := by
  by_cases hc : c
  · rw [if_pos hc] at h
    exact Or.inl ⟨hc, Option.some.inj h⟩
  · rw [if_neg hc] at h
    exact Or.inr h

theorem prefixOperator_of_unary? {text : String} {op : Operator}
    (h : Operator.unary? text = some op) :
    PrefixOperator text op.code ∧ op ≠ .openBracket ∧ op.precedence = 10 := by
  unfold Operator.unary? at h
  repeat' rcases eq_or_of_ite h with ⟨htext, rfl⟩ | h
  all_goals first
    | cases h
    | obtain rfl := beq_iff_eq.mp htext
      exact ⟨by constructor, by decide, rfl⟩

theorem PrefixOperator.exists_unary? {text : String} {code : Int} (h : PrefixOperator text code) :
    ∃ op, Operator.unary? text = some op ∧ op.code = code := by
  cases h <;> exact ⟨_, rfl, rfl⟩

theorem binaryOperator_of_binary? {text : String} {op : Operator}
    (h : Operator.binary? text = some op) :
    BinaryOperator text op.code op.precedence ∧ op ≠ .openBracket := by
  unfold Operator.binary? at h
  simp only [Bool.or_eq_true, beq_iff_eq] at h
  repeat' rcases eq_or_of_ite h with ⟨htext, rfl⟩ | h
  all_goals first
    | cases h
    | subst htext
      exact ⟨by constructor, by decide⟩
    | rcases htext with rfl | rfl
      all_goals exact ⟨by constructor, by decide⟩

theorem BinaryOperator.exists_binary? {text : String} {code : Int} {m : Nat}
    (h : BinaryOperator text code m) :
    ∃ op, Operator.binary? text = some op ∧ op.code = code ∧ op.precedence = m := by
  cases h <;> exact ⟨_, rfl, rfl, rfl⟩

theorem BinaryOperator.level_bounds {text : String} {code : Int} {m : Nat}
    (h : BinaryOperator text code m) : 1 ≤ m ∧ m ≤ 9 := by
  cases h <;> decide

end Expression

end MissionScript
