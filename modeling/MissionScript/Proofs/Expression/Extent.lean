import MissionScript.Expression
import MissionScript.Proofs.Token.Extent

/-!
# MissionScript.Proofs.Expression.Extent

Where the faults and the parts of an expression stand.

`Ensures E R x` says that `x` fails with an error of which `E` holds, or succeeds with a result of which
`R` holds. Each step of reading an expression shows a fault where a token of the line stands, and adds
parts that stand there (`ensures_push`). The sign that is split off a negative number and the number
without it cover parts of its characters, which is why it matters that no token is empty.
-/

namespace MissionScript

/-! ### What a computation ensures -/

/-- The computation fails with an error of which `E` holds, or succeeds with a result of which `R`
holds. -/
inductive Ensures {ε α : Type} (E : ε → Prop) (R : α → Prop) : Except ε α → Prop
  | error {e : ε} (h : E e) : Ensures E R (.error e)
  | ok {a : α} (h : R a) : Ensures E R (.ok a)

namespace Ensures

variable {ε η α β : Type} {E : ε → Prop} {F : η → Prop} {R : α → Prop} {S : β → Prop}

theorem bind {x : Except ε α} {f : α → Except ε β} (h : Ensures E R x)
    (hf : ∀ a, R a → Ensures E S (f a)) : Ensures E S (x >>= f) := by
  cases h with
  | error h => exact .error h
  | ok h => exact hf _ h

theorem mapError {x : Except ε α} {f : ε → η} (h : Ensures E R x) (hf : ∀ e, E e → F (f e)) :
    Ensures F R (x.mapError f) := by
  cases h with
  | error h => exact .error (hf _ h)
  | ok h => exact .ok h

theorem ite {c : Prop} [Decidable c] {x y : Except ε α} (hx : c → Ensures E R x)
    (hy : ¬ c → Ensures E R y) : Ensures E R (if c then x else y) := by
  by_cases hc : c
  · rw [if_pos hc]
    exact hx hc
  · rw [if_neg hc]
    exact hy hc

/-- What every step keeps is kept over a list. -/
theorem foldlM {ι : Type} {step : α → ι → Except ε α} {l : List ι}
    (hstep : ∀ a, R a → ∀ i ∈ l, Ensures E R (step a i)) {a : α} (h : R a) :
    Ensures E R (l.foldlM step a) := by
  induction l generalizing a with
  | nil => exact .ok h
  | cons i l ih =>
      rw [List.foldlM_cons]
      refine (hstep a h i List.mem_cons_self).bind fun b hb => ?_
      exact ih (fun a ha j hj => hstep a ha j (List.mem_cons_of_mem i hj)) hb

end Ensures

/-! ### Parameters -/

namespace Parameter

/-- The parameter covers characters of a line of the given length. -/
def OnLine (length : Nat) (p : Parameter) : Prop := Within length p.start p.stop

/-- A parameter covers the characters of the token it was read from. -/
theorem ensures_ofToken {length : Nat} {t : Token} (h : Within length t.start t.stop) (slot : Slot) :
    Ensures (fun _ => True) (OnLine length) (ofToken slot t) := by
  unfold ofToken
  cases read t with
  | error e => exact .error trivial
  | ok found => exact .ok h

end Parameter

/-! ### Expressions -/

namespace Expression

/-- The fault shows on a line of the given length. -/
def FaultOnLine (length : Nat) (e : ExpressionError) : Prop := Within length e.start e.stop

/-- The parts of the expression cover characters of a line of the given length. -/
structure OnLine (length : Nat) (x : Expression) : Prop where
  written : ∀ p ∈ x.written, p.OnLine length
  evaluated : ∀ p ∈ x.evaluated, p.OnLine length

namespace Reading

/-- What has been read and what waits covers characters of a line of the given length. -/
structure OnLine (length : Nat) (r : Reading) : Prop where
  written : ∀ p ∈ r.written, p.OnLine length
  evaluated : ∀ p ∈ r.evaluated, p.OnLine length
  stack : ∀ top ∈ r.stack, Within length top.2.start top.2.stop

variable {length first : Nat} {r : Reading} {t : Token}

theorem onLine_evaluate {stack : List (Operator × Token)} {evaluated : List Parameter}
    (hstack : ∀ top ∈ stack, Within length top.2.start top.2.stop)
    (h : ∀ p ∈ evaluated, p.OnLine length) : ∀ p ∈ evaluate stack evaluated, p.OnLine length := by
  induction stack generalizing evaluated with
  | nil => exact h
  | cons top stack ih =>
      obtain ⟨htop, hstack⟩ := List.forall_mem_cons.mp hstack
      exact ih hstack (List.forall_mem_append.mpr ⟨h, List.forall_mem_singleton.mpr htop⟩)

theorem OnLine.write (h : r.OnLine length) (ht : Within length t.start t.stop) (operator : Operator) :
    (r.write first operator t).OnLine length where
  written := List.forall_mem_append.mpr ⟨h.written, List.forall_mem_singleton.mpr ht⟩
  evaluated := h.evaluated
  stack := h.stack

theorem OnLine.pushWaiting (h : r.OnLine length) (ht : Within length t.start t.stop)
    (operator : Operator) : (r.pushWaiting first operator t).OnLine length :=
  { h.write ht operator with stack := List.forall_mem_cons.mpr ⟨ht, h.stack⟩ }

theorem OnLine.pushBinary (h : r.OnLine length) (ht : Within length t.start t.stop)
    (operator : Operator) : (r.pushBinary first operator t).OnLine length :=
  { h.write ht operator with
    evaluated := onLine_evaluate
      (fun top htop => h.stack top ((List.takeWhile_prefix _).subset htop)) h.evaluated
    stack := List.forall_mem_cons.mpr
      ⟨ht, fun top htop => h.stack top ((List.dropWhile_suffix _).subset htop)⟩ }

theorem OnLine.ensures_pushOperand (h : r.OnLine length) (ht : Within length t.start t.stop) :
    Ensures (FaultOnLine length) (OnLine length) (r.pushOperand first t) := by
  unfold pushOperand
  have hread := Parameter.ensures_ofToken ht (Slot.operand (first + r.written.length))
  generalize Parameter.ofToken (Slot.operand (first + r.written.length)) t = x at hread ⊢
  cases hread with
  | error _ => exact .error ht
  | @ok p hp =>
      refine .ok ⟨?_, ?_, h.stack⟩
      · exact List.forall_mem_append.mpr ⟨h.written, List.forall_mem_singleton.mpr hp⟩
      · exact List.forall_mem_append.mpr ⟨h.evaluated, List.forall_mem_singleton.mpr hp⟩

theorem OnLine.ensures_close (h : r.OnLine length) (ht : Within length t.start t.stop) :
    Ensures (FaultOnLine length) (OnLine length) (r.close first t) := by
  have hinner : ∀ top ∈ r.stack.takeWhile fun top => top.1 != .openBracket,
      Within length top.2.start top.2.stop :=
    fun top htop => h.stack top ((List.takeWhile_prefix _).subset htop)
  have houter : ∀ top ∈ r.stack.dropWhile fun top => top.1 != .openBracket,
      Within length top.2.start top.2.stop :=
    fun top htop => h.stack top ((List.dropWhile_suffix _).subset htop)
  unfold close
  dsimp only
  cases hstack : r.stack.dropWhile fun top => top.1 != .openBracket with
  | nil => exact .error ht
  | cons opening outer =>
      rw [hstack] at houter
      refine .ok { h.write ht .closeBracket with
        evaluated := onLine_evaluate hinner h.evaluated
        stack := (List.forall_mem_cons.mp houter).2 }

/-- A token shows its fault where it stands, or adds parts that stand there. -/
theorem OnLine.ensures_push (h : r.OnLine length) (ht : t.OnLine length) :
    Ensures (FaultOnLine length) (OnLine length) (r.push first t) := by
  have hwithin := ht.within
  have hminus : Within length (minusOf t).start (minusOf t).stop :=
    ⟨Nat.le_succ _, Nat.le_trans ht.1 ht.2⟩
  have habs : Within length (absOf t).start (absOf t).stop := ⟨ht.1, ht.2⟩
  unfold push
  refine .ite (fun _ => ?_) fun _ => ?_
  · refine .ite (fun _ => h.ensures_pushOperand hwithin) fun _ => ?_
    refine .ite (fun _ => ?_) fun _ => .error hwithin
    exact (h.pushBinary hminus .subtract).ensures_pushOperand habs
  · refine .ite (fun _ => ?_) fun _ => ?_
    · exact .ite (fun _ => .ok (h.pushWaiting hwithin _)) fun _ => .error hwithin
    · refine .ite (fun _ => ?_) fun _ => ?_
      · exact .ite (fun _ => .error hwithin) fun _ => h.ensures_close hwithin
      · refine .ite (fun _ => .error hwithin) fun _ => .ite (fun _ => ?_) fun _ => ?_
        · cases Operator.unary? t.text with
          | some operator => exact .ok (h.pushWaiting hwithin operator)
          | none => exact .error hwithin
        · cases Operator.binary? t.text with
          | some operator => exact .ok (h.pushBinary hwithin operator)
          | none => exact .error hwithin

theorem OnLine.ensures_finish (h : r.OnLine length) {last : Token} (hlast : last.OnLine length) :
    Ensures (FaultOnLine length) (Expression.OnLine length) (r.finish last) := by
  unfold finish
  refine .ite (fun _ => .error hlast.within) fun _ => ?_
  cases hopen : r.stack.find? fun top => top.1 == .openBracket with
  | some top => exact .error (h.stack top (List.mem_of_find?_eq_some hopen))
  | none => exact .ok ⟨h.written, onLine_evaluate h.stack h.evaluated⟩

end Reading

/-- The faults and the parts of an expression stand on the line of its tokens. -/
theorem ensures_parse {length : Nat} {ts : List Token} (h : ∀ t ∈ ts, t.OnLine length)
    (first : Nat) : Ensures (FaultOnLine length) (OnLine length) (parse ts first) := by
  unfold parse
  cases hlast : ts.getLast? with
  | none => exact .error (Within.zero length)
  | some last =>
      have hempty : Reading.OnLine length {} := by constructor <;> simp
      refine Ensures.bind (R := Reading.OnLine length) ?_ fun r hr => ?_
      · refine Ensures.foldlM (fun r hr t ht => ?_) hempty
        exact hr.ensures_push (h t (List.mem_filter.mp ht).1)
      · exact hr.ensures_finish (h last (List.mem_of_getLast? hlast))

end Expression

end MissionScript
