import MissionScript.Expression
import MissionScript.Proofs.Token.Indentation

/-!
# MissionScript.Proofs.Expression.Indentation

Expressions further to the right.

`Agree E R x y` says that two computations fail with errors that `E` relates, or succeed with results that
`R` relates. When all tokens of an expression are moved, its reading moves along: it has the same fault,
or its operands and operators are moved alike (`agree_parse`).

The two readings go on side by side: `Reading.shift` moves all that a reading has found so far, and
each step of the second reading gives what the step of the first one gives, moved. Faults are
compared by what went wrong and not by where.
-/

namespace MissionScript

/-! ### Computations that agree

Two computations that agree may be continued by functions that agree. These are the rules for that,
one for each way in which the readers put computations together. They are used for all other readers
as well (`MissionScript.Proofs.Statement.Indentation`). -/

/-- The computations fail with errors that `E` relates, or succeed with results that `R` relates. -/
inductive Agree {ε ε' α β : Type} (E : ε → ε' → Prop) (R : α → β → Prop) :
    Except ε α → Except ε' β → Prop
  | error {e : ε} {e' : ε'} (h : E e e') : Agree E R (.error e) (.error e')
  | ok {a : α} {b : β} (h : R a b) : Agree E R (.ok a) (.ok b)

namespace Agree

variable {ε ε' η η' α β γ δ : Type} {E : ε → ε' → Prop} {F : η → η' → Prop} {R : α → β → Prop}
  {S : γ → δ → Prop}

/-- Continuations that agree on related results. -/
theorem bind {x : Except ε α} {y : Except ε' β} {f : α → Except ε γ} {g : β → Except ε' δ}
    (h : Agree E R x y) (hf : ∀ a b, R a b → Agree E S (f a) (g b)) :
    Agree E S (x >>= f) (y >>= g) := by
  cases h with
  | error h => exact .error h
  | ok h => exact hf _ _ h

/-- Errors that are mapped to related errors. -/
theorem mapError {x : Except ε α} {y : Except ε' β} {f : ε → η} {g : ε' → η'} (h : Agree E R x y)
    (hf : ∀ e e', E e e' → F (f e) (g e')) : Agree F R (x.mapError f) (y.mapError g) := by
  cases h with
  | error h => exact .error (hf _ _ h)
  | ok h => exact .ok h

/-- Choices that are made alike. -/
theorem ite {c d : Prop} [Decidable c] [Decidable d] (hcd : c ↔ d) {x x' : Except ε α}
    {y y' : Except ε' β} (h : c → Agree E R x y) (h' : ¬ c → Agree E R x' y') :
    Agree E R (if c then x else x') (if d then y else y') := by
  by_cases hc : c
  · rw [if_pos hc, if_pos (hcd.mp hc)]
    exact h hc
  · rw [if_neg hc, if_neg fun hd => hc (hcd.mpr hd)]
    exact h' hc

/-- Computations that begin alike. -/
theorem bind_self {E : ε → ε → Prop} (hE : ∀ e, E e e) (x : Except ε α) {f : α → Except ε γ}
    {g : α → Except ε δ} (hf : ∀ a, Agree E S (f a) (g a)) : Agree E S (x >>= f) (x >>= g) := by
  cases x with
  | error e => exact .error (hE e)
  | ok a => exact hf a

/-- Steps that keep a relation keep it over a list. -/
theorem foldlM {ι κ : Type} {step : α → ι → Except ε α} {step' : β → κ → Except ε' β} {f : ι → κ}
    (hstep : ∀ a b i, R a b → Agree E R (step a i) (step' b (f i))) (l : List ι) {a : α} {b : β}
    (h : R a b) : Agree E R (l.foldlM step a) ((l.map f).foldlM step' b) := by
  induction l generalizing a b with
  | nil => exact .ok h
  | cons i l ih =>
      rw [List.map_cons, List.foldlM_cons, List.foldlM_cons]
      exact (hstep a b i h).bind fun _ _ h => ih h

end Agree

/-! ### Parameters

The value of a parameter is taken from the text of its token, and only its extent from where the
token stands. -/

namespace Parameter

/-- The parameter moved `offset` characters to the right. -/
def shift (offset : Nat) (p : Parameter) : Parameter :=
  { p with start := p.start + offset, stop := p.stop + offset }

/-- A token that is moved gives the parameter moved, or the same fault. -/
theorem agree_ofToken (slot : Slot) (offset : Nat) (t : Token) :
    Agree Eq (fun p q => q = p.shift offset) (ofToken slot t) (ofToken slot (t.shift offset)) := by
  have hread : read (t.shift offset) = read t := rfl
  unfold ofToken
  rw [hread]
  cases read t with
  | error e => exact .error rfl
  | ok value => exact .ok rfl

end Parameter

/-! ### Expressions

An operator or bracket is written down where its token stands, and operators wait on the stack with
their tokens. Neither the choice of what to do with a token nor the order in which operators are
completed depends on where anything stands. -/

namespace Expression

namespace Reading

variable (offset : Nat)

/-- The reading moved `offset` characters to the right. -/
def shift (r : Reading) : Reading :=
  { r with
    written := r.written.map (Parameter.shift offset)
    evaluated := r.evaluated.map (Parameter.shift offset)
    stack := r.stack.map (Prod.map id (Token.shift offset)) }

/-- The errors have the same fault. -/
def SameFault (e e' : ExpressionError) : Prop := e'.fault = e.fault

/-- The second reading is the first one moved. -/
def Shifted (r r' : Reading) : Prop := r' = r.shift offset

/-- What is written down is moved. -/
theorem write_shift (first : Nat) (operator : Operator) (t : Token) (r : Reading) :
    (r.shift offset).write first operator (t.shift offset)
      = (r.write first operator t).shift offset := by
  simp [write, shift, Parameter.ofOperator, Parameter.shift, Token.shift]

/-- Operators are completed in the same order. -/
theorem evaluate_shift (stack : List (Operator × Token)) (evaluated : List Parameter) :
    evaluate (stack.map (Prod.map id (Token.shift offset))) (evaluated.map (Parameter.shift offset))
      = (evaluate stack evaluated).map (Parameter.shift offset) := by
  induction stack generalizing evaluated with
  | nil => rfl
  | cons top rest ih =>
      rw [List.map_cons, evaluate.eq_def]
      simp only [Prod.map_fst, Prod.map_snd, id_eq]
      rw [evaluate, ← ih, List.map_append, List.length_map]
      rfl

/-- An operator that waits for its operand is moved. -/
theorem pushWaiting_shift (first : Nat) (operator : Operator) (t : Token) (r : Reading) :
    (r.shift offset).pushWaiting first operator (t.shift offset)
      = (r.pushWaiting first operator t).shift offset := by
  rw [pushWaiting, write_shift]
  rfl

/-- An operator between operands completes the same ones before it. -/
theorem pushBinary_shift (first : Nat) (operator : Operator) (t : Token) (r : Reading) :
    (r.shift offset).pushBinary first operator (t.shift offset)
      = (r.pushBinary first operator t).shift offset := by
  have hstack : (r.shift offset).stack = r.stack.map (Prod.map id (Token.shift offset)) := rfl
  rw [pushBinary, write_shift, hstack, List.takeWhile_map, List.dropWhile_map,
    show (r.shift offset).evaluated = r.evaluated.map (Parameter.shift offset) from rfl,
    evaluate_shift]
  rfl

/-- An operand is moved, or is a fault in both. -/
theorem agree_pushOperand (first : Nat) (t : Token) (r : Reading) :
    Agree SameFault (Shifted offset) (r.pushOperand first t)
      ((r.shift offset).pushOperand first (t.shift offset)) := by
  have hlength : (r.shift offset).written.length = r.written.length := List.length_map _
  have hread := Parameter.agree_ofToken (Slot.operand (first + r.written.length)) offset t
  unfold pushOperand
  rw [hlength]
  generalize Parameter.ofToken (Slot.operand (first + r.written.length)) t = x at hread ⊢
  generalize Parameter.ofToken (Slot.operand (first + r.written.length)) (t.shift offset) = y
    at hread ⊢
  cases hread with
  | @error e e' h => exact .error (by rw [SameFault, h]; rfl)
  | @ok p q h =>
      subst h
      refine .ok ?_
      simp [Shifted, shift, Parameter.shift]

/-- A closing bracket closes the same group, or none. -/
theorem agree_close (first : Nat) (t : Token) (r : Reading) :
    Agree SameFault (Shifted offset) (r.close first t)
      ((r.shift offset).close first (t.shift offset)) := by
  have hstack : (r.shift offset).stack = r.stack.map (Prod.map id (Token.shift offset)) := rfl
  unfold close
  rw [write_shift, hstack, List.takeWhile_map, List.dropWhile_map]
  dsimp only [Function.comp_def, Prod.map_fst, id_eq]
  cases r.stack.dropWhile fun top => top.1 != .openBracket with
  | nil => exact .error rfl
  | cons _ outer =>
      refine .ok ?_
      rw [Shifted, show (r.shift offset).evaluated = r.evaluated.map (Parameter.shift offset) from rfl,
        evaluate_shift]
      rfl

/-- A token that is moved is read alike. -/
theorem agree_push (first : Nat) (t : Token) (r : Reading) :
    Agree SameFault (Shifted offset) (r.push first t)
      ((r.shift offset).push first (t.shift offset)) := by
  -- the two parts of a number with a sign are moved along
  have hminus : minusOf (t.shift offset) = (minusOf t).shift offset := by
    simp [minusOf, Token.shift, Nat.add_right_comm]
  have habs : absOf (t.shift offset) = (absOf t).shift offset := by
    simp [absOf, Token.shift, Nat.add_right_comm]
  have hnegative : isNegative (t.shift offset) = isNegative t := rfl
  have hwants : (r.shift offset).wantsOperand = r.wantsOperand := rfl
  unfold push
  simp only [Token.isOperand_shift, Token.isOperator_shift, Token.isOperatorKind_shift,
    Token.shift_text, hminus, habs, hnegative, hwants, pushBinary_shift, pushWaiting_shift]
  split
  · split
    · exact agree_pushOperand offset first t r
    · split
      · exact agree_pushOperand offset first _ _
      · exact .error rfl
  · split
    · split
      · exact .ok rfl
      · exact .error rfl
    · split
      · split
        · exact .error rfl
        · exact agree_close offset first t r
      · split
        · exact .error rfl
        · split
          · split
            · exact .ok rfl
            · exact .error rfl
          · split
            · exact .ok rfl
            · exact .error rfl

/-- Two expressions end alike. -/
theorem agree_finish (last : Token) (r : Reading) :
    Agree SameFault
      (fun found found' => found'.written = found.written.map (Parameter.shift offset) ∧
        found'.evaluated = found.evaluated.map (Parameter.shift offset))
      (r.finish last) ((r.shift offset).finish (last.shift offset)) := by
  have hwants : (r.shift offset).wantsOperand = r.wantsOperand := rfl
  have hstack : (r.shift offset).stack = r.stack.map (Prod.map id (Token.shift offset)) := rfl
  unfold finish
  rw [hwants, hstack, List.find?_map]
  split
  · exact .error rfl
  · dsimp only [Function.comp_def, Prod.map_fst, id_eq]
    cases r.stack.find? fun top => top.1 == .openBracket with
    | some top => exact .error rfl
    | none => exact .ok ⟨rfl, evaluate_shift offset r.stack r.evaluated⟩

end Reading

/-- An expression that is moved is read alike. -/
theorem agree_parse (offset first : Nat) (ts : List Token) :
    Agree Reading.SameFault
      (fun found found' => found'.written = found.written.map (Parameter.shift offset) ∧
        found'.evaluated = found.evaluated.map (Parameter.shift offset))
      (parse ts first) (parse (ts.map (Token.shift offset)) first) := by
  unfold parse
  rw [List.getLast?_map, List.filter_map]
  cases ts.getLast? with
  | none => exact .error rfl
  | some last =>
      refine Agree.bind (Agree.foldlM (R := Reading.Shifted offset) (fun r r' t h => ?_) _ rfl) ?_
      · subst h
        exact Reading.agree_push offset first t r
      · rintro r _ rfl
        exact Reading.agree_finish offset last r

end Expression

end MissionScript
