import MissionScript.Proofs.Expression.Listing

/-!
# MissionScript.Proofs.Expression.Run

What reading tokens does, one token at a time and over a whole phrase.

One token: `Step` lists the ways in which a token is read, so that no later proof has to follow the
branches of `Reading.push`. What comes next, an operand or an operator, depends on the token alone
(`Step.wantsOperand`), and the split of signs can be done beforehand (`foldlM_splitSigns`).

A phrase: reading its tokens leaves only operators of that phrase on top of the stack that was there
before, and completing these gives the listing of its tree (`ReadsPhrase`). That this holds for every
phrase is shown along the grammar, with one lemma for each of its rules (`run_of_phrase`). The stack may
not be disturbed from above, so a phrase of level `n` is only read on a stack on which it `Fits`: what is
on top is a bracket, or an operator that binds less strongly.
-/

namespace MissionScript

namespace Expression

open Reading

/-! ### One token

`Reading.push` decides by what the token is and by whether an operand is wanted. Each of its
branches is found again as a rule of `Step`, and the equations in front of it say which branch a
token takes. -/

theorem isOperand_eq_false_of_isOperatorKind {t : Token} (h : t.isOperatorKind = true) :
    t.isOperand = false := by
  unfold Token.isOperatorKind at h
  cases hk : t.kind <;> simp_all [Token.isOperand, Token.isValue]

/-- A token with another text is not this operator. -/
theorem isOperator_eq_false {t : Token} {text : String} (h : t.text ≠ text) :
    t.isOperator text = false := by
  simp [Token.isOperator, h]

theorem isOperatorKind_of_isOperator {t : Token} {text : String} (h : t.isOperator text = true) :
    t.isOperatorKind = true ∧ t.text = text := by
  simpa [Token.isOperator] using h

/-- An operand is pushed where one is wanted. -/
theorem push_operand {first : Nat} {r : Reading} {t : Token} (ht : t.isOperand = true)
    (hw : r.wantsOperand = true) : r.push first t = r.pushOperand first t := by
  rw [push, if_pos ht, if_pos hw]

/-- So is an opening bracket. -/
theorem push_opening {first : Nat} {r : Reading} {t : Token} (ht : t.isOperator "(" = true)
    (hw : r.wantsOperand = true) : r.push first t = .ok (r.pushWaiting first .openBracket t) := by
  have hk := isOperand_eq_false_of_isOperatorKind (isOperatorKind_of_isOperator ht).1
  rw [push, if_neg (by simp [hk]), if_pos ht, if_pos hw]

/-- A closing bracket closes a group behind an operand. -/
theorem push_closing {first : Nat} {r : Reading} {t : Token} (ht : t.isOperator ")" = true)
    (hw : r.wantsOperand = false) : r.push first t = r.close first t := by
  obtain ⟨hk, htext⟩ := isOperatorKind_of_isOperator ht
  have hno := isOperand_eq_false_of_isOperatorKind hk
  have hopen : t.isOperator "(" = false := isOperator_eq_false (by rw [htext]; decide)
  rw [push, if_neg (by simp [hno]), if_neg (by simp [hopen]), if_pos ht, if_neg (by simp [hw])]

/-- An operator that is no bracket falls through to the tables of operators. -/
theorem push_operator {first : Nat} {r : Reading} {t : Token} (hk : t.isOperatorKind = true)
    (hopen : t.text ≠ "(") (hclose : t.text ≠ ")") :
    r.push first t =
      if r.wantsOperand then
        match Operator.unary? t.text with
        | some operator => .ok (r.pushWaiting first operator t)
        | none => .error ((ExpressionFault.unexpected t.text).at t)
      else
        match Operator.binary? t.text with
        | some operator => .ok (r.pushBinary first operator t)
        | none => .error ((ExpressionFault.unexpected t.text).at t) := by
  have hno := isOperand_eq_false_of_isOperatorKind hk
  rw [push, if_neg (by simp [hno]), if_neg (by simp [isOperator_eq_false hopen]),
    if_neg (by simp [isOperator_eq_false hclose])]
  exact if_neg (by simp [hk])

theorem push_unary {first : Nat} {r : Reading} {t : Token} {op : Operator}
    (hk : t.isOperatorKind = true) (hop : Operator.unary? t.text = some op)
    (hw : r.wantsOperand = true) : r.push first t = .ok (r.pushWaiting first op t) := by
  rw [push_operator hk (by rintro h; simp [h, Operator.unary?] at hop)
    (by rintro h; simp [h, Operator.unary?] at hop), if_pos hw, hop]

theorem push_binary {first : Nat} {r : Reading} {t : Token} {op : Operator}
    (hk : t.isOperatorKind = true) (hop : Operator.binary? t.text = some op)
    (hw : r.wantsOperand = false) : r.push first t = .ok (r.pushBinary first op t) := by
  rw [push_operator hk (by rintro h; simp [h, Operator.binary?] at hop)
    (by rintro h; simp [h, Operator.binary?] at hop), if_neg (by simp [hw]), hop]

/-- The ways in which a token is read, apart from the negative number that is a subtraction. -/
inductive Step (first : Nat) (r : Reading) (t : Token) : Reading → Prop
  | operand {r' : Reading} : r.wantsOperand = true → t.isOperand = true →
      r.pushOperand first t = .ok r' → Step first r t r'
  | opening : r.wantsOperand = true → t.isOperator "(" = true →
      Step first r t (r.pushWaiting first .openBracket t)
  | closing {r' : Reading} : r.wantsOperand = false → t.isOperator ")" = true →
      r.close first t = .ok r' → Step first r t r'
  | unary {op : Operator} : r.wantsOperand = true → t.isOperatorKind = true →
      Operator.unary? t.text = some op → Step first r t (r.pushWaiting first op t)
  | binary {op : Operator} : r.wantsOperand = false → t.isOperatorKind = true →
      Operator.binary? t.text = some op → Step first r t (r.pushBinary first op t)

/-- A token that is read, and is not split, is read in one of these ways. -/
theorem step_of_push {first : Nat} {r r' : Reading} {t : Token} (h : r.push first t = .ok r')
    (hsplit : (!r.wantsOperand && isNegative t) = false) : Step first r t r' := by
  by_cases ho : t.isOperand = true
  · cases hw : r.wantsOperand with
    | true => exact .operand hw ho (by rw [← push_operand ho hw]; exact h)
    | false =>
        -- an operand after another one can only be a number with a sign
        have hneg : isNegative t = false := by simpa [hw] using hsplit
        simp [push, ho, hw, hneg] at h
  · by_cases hopen : t.isOperator "(" = true
    · cases hw : r.wantsOperand with
      | true =>
          rw [push_opening hopen hw] at h
          cases h
          exact .opening hw hopen
      | false => simp [push, ho, hopen, hw] at h
    · by_cases hclose : t.isOperator ")" = true
      · cases hw : r.wantsOperand with
        | true => simp [push, ho, hopen, hclose, hw] at h
        | false => exact .closing hw hclose (by rw [← push_closing hclose hw]; exact h)
      · by_cases hk : t.isOperatorKind = true
        · have hne : t.text ≠ "(" ∧ t.text ≠ ")" := by
            simpa [Token.isOperator, hk] using And.intro hopen hclose
          rw [push_operator hk hne.1 hne.2] at h
          cases hw : r.wantsOperand with
          | true =>
              rw [if_pos hw] at h
              cases hop : Operator.unary? t.text with
              | none => simp [hop] at h
              | some op =>
                  simp only [hop] at h
                  cases h
                  exact .unary hw hk hop
          | false =>
              rw [if_neg (by simp [hw])] at h
              cases hop : Operator.binary? t.text with
              | none => simp [hop] at h
              | some op =>
                  simp only [hop] at h
                  cases h
                  exact .binary hw hk hop
        · simp [push, ho, hopen, hclose, hk] at h

/-- After an operand there is no other. -/
theorem wantsOperand_of_pushOperand {first : Nat} {r r' : Reading} {t : Token}
    (h : r.pushOperand first t = .ok r') : r'.wantsOperand = false := by
  unfold pushOperand at h
  cases hp : Parameter.ofToken (Slot.operand (first + r.written.length)) t with
  | error e => simp [hp] at h
  | ok p =>
      simp only [hp] at h
      cases h
      rfl

theorem wantsOperand_of_close {first : Nat} {r r' : Reading} {t : Token}
    (h : r.close first t = .ok r') : r'.wantsOperand = r.wantsOperand := by
  unfold close at h
  cases hd : r.stack.dropWhile fun top => top.1 != .openBracket with
  | nil => simp [hd] at h
  | cons top outer =>
      simp only [hd] at h
      cases h
      rfl

/-- What comes next after a token follows from the token alone. -/
theorem Step.wantsOperand {first : Nat} {r r' : Reading} {t : Token} (h : Step first r t r') :
    r'.wantsOperand = !endsOperand t := by
  rw [endsOperand_eq]
  cases h with
  | operand _ ho hpush => simp [ho, wantsOperand_of_pushOperand hpush]
  | opening hw hopen =>
      obtain ⟨hk, htext⟩ := isOperatorKind_of_isOperator hopen
      have hclose : t.isOperator ")" = false := isOperator_eq_false (by rw [htext]; decide)
      simp [isOperand_eq_false_of_isOperatorKind hk, hclose, pushWaiting, write, hw]
  | closing hw hclose hpush => simp [hclose, wantsOperand_of_close hpush, hw]
  | unary hw hk hop =>
      have hclose : t.isOperator ")" = false :=
        isOperator_eq_false (by rintro h; simp [h, Operator.unary?] at hop)
      simp [isOperand_eq_false_of_isOperatorKind hk, hclose, pushWaiting, write, hw]
  | binary hw hk hop =>
      have hclose : t.isOperator ")" = false :=
        isOperator_eq_false (by rintro h; simp [h, Operator.binary?] at hop)
      simp [isOperand_eq_false_of_isOperatorKind hk, hclose, pushBinary]

/-- Where an operator is expected, a negative number is a minus sign and a number. -/
theorem push_negative {first : Nat} {r : Reading} {t : Token} (hw : r.wantsOperand = false)
    (hneg : isNegative t = true) :
    r.push first t = (r.pushBinary first .subtract (minusOf t)).pushOperand first (absOf t) := by
  have hnumber : t.kind = .number := by
    simp only [isNegative, Bool.and_eq_true, beq_iff_eq] at hneg
    exact hneg.1
  have ho : t.isOperand = true := by simp [Token.isOperand, Token.isValue, hnumber]
  simp [push, ho, hw, hneg]

/-- Splitting signs off before reading changes nothing. -/
theorem foldlM_splitSigns (first : Nat) (ts : List Token) (r : Reading) :
    (splitSigns r.wantsOperand ts).foldlM (push first) r = ts.foldlM (push first) r := by
  induction ts generalizing r with
  | nil => rfl
  | cons t ts ih =>
      rw [splitSigns_cons]
      split
      · next hsplit =>
        simp only [Bool.and_eq_true, Bool.not_eq_true'] at hsplit
        obtain ⟨hw, hneg⟩ := hsplit
        rw [List.foldlM_cons, List.foldlM_cons, push_negative hw hneg,
          @push_binary first r (minusOf t) .subtract rfl rfl hw]
        change ((r.pushBinary first .subtract (minusOf t)).push first (absOf t) >>= _) = _
        rw [push_operand (t := absOf t) rfl rfl]
        cases hp : (r.pushBinary first .subtract (minusOf t)).pushOperand first (absOf t) with
        | error e => rfl
        | ok r' =>
            have := ih r'
            rw [wantsOperand_of_pushOperand hp] at this
            exact this
      · next hsplit =>
        rw [List.foldlM_cons, List.foldlM_cons]
        cases hp : r.push first t with
        | error e => rfl
        | ok r' =>
            have := ih r'
            rw [(step_of_push hp (by simpa using hsplit)).wantsOperand] at this
            exact this

/-! ### A phrase is read

What has been listed and what is pending on the stack are given together: completing the pending
operators in their order would list the whole phrase. Nothing of the stack below is touched, which
is what makes the statement fit for an induction on the grammar. -/

/-- The entries that have been listed so far. -/
def Shows (r : Reading) (items : List Item) : Prop := listing 0 items = .ok r.evaluated

/-- May an expression of level `n` stand above the stack? The operator on top waits for it. -/
def Fits (n : Nat) (stack : List (Operator × Token)) : Prop :=
  ∀ top ∈ stack.head?, top.1 = .openBracket ∨ top.1.precedence < n

/-- What fits at a level fits at a higher one. -/
theorem Fits.mono {m n : Nat} {stack : List (Operator × Token)} (h : Fits m stack) (hle : m ≤ n) :
    Fits n stack :=
  fun top htop => (h top htop).imp_right fun hlt => Nat.lt_of_lt_of_le hlt hle

theorem fits_cons {n : Nat} {top : Operator × Token} {stack : List (Operator × Token)}
    (h : top.1 = .openBracket ∨ top.1.precedence < n) : Fits n (top :: stack) := by
  intro other hother
  cases hother
  exact h

/-- A list is cut where a property ends. -/
theorem takeWhile_dropWhile_append {α : Type} (p : α → Bool) (as bs : List α)
    (ha : ∀ a ∈ as, p a = true) (hb : ∀ b ∈ bs.head?, p b = false) :
    (as ++ bs).takeWhile p = as ∧ (as ++ bs).dropWhile p = bs := by
  rw [List.takeWhile_append_of_pos ha, List.dropWhile_append_of_pos ha]
  cases bs with
  | nil => simp
  | cons b bs => simp [hb b rfl]

theorem pushOperand_of_isOperandToken (first : Nat) {r : Reading} {t : Token} {items : List Item}
    (ht : IsOperandToken t) (hs : Shows r items) :
    ∃ r', r.pushOperand first t = .ok r' ∧ r'.wantsOperand = false ∧ r'.stack = r.stack ∧
      Shows r' (items ++ [.operand t]) := by
  obtain ⟨type, value, hread⟩ := read_of_isOperandToken ht
  have hlist : listing 0 (items ++ [.operand t])
      = .ok (r.evaluated ++ [⟨Slot.operand r.evaluated.length, type, value, t.text, t.start,
          t.stop⟩]) := by
    refine listing_append_singleton hs ?_
    rw [Nat.zero_add, ← length_of_listing hs, Item.parameter, Parameter.ofToken, hread]
    rfl
  rw [pushOperand, Parameter.ofToken, hread]
  exact ⟨_, rfl, rfl, rfl, hlist⟩

/-- An operator between operands completes the part of the stack that does not wait with it. -/
theorem pushBinary_of_stack (first : Nat) {r : Reading} (op : Operator) (t : Token)
    {complete waiting : List (Operator × Token)} (hstack : r.stack = complete ++ waiting)
    (hcomplete : ∀ top ∈ complete, waits op top.1 = false)
    (hwaiting : ∀ top ∈ waiting.head?, waits op top.1 = true) :
    (r.pushBinary first op t).stack = (op, t) :: waiting ∧
      (r.pushBinary first op t).evaluated = evaluate complete r.evaluated := by
  obtain ⟨htake, hdrop⟩ := takeWhile_dropWhile_append
    (fun top : Operator × Token => !waits op top.1) complete waiting
    (fun top htop => by simp [hcomplete top htop]) (fun top htop => by simp [hwaiting top htop])
  rw [pushBinary, hstack, htake, hdrop]
  exact ⟨rfl, rfl⟩

/-- A closing bracket completes the part of the stack above its opening bracket. -/
theorem close_of_stack (first : Nat) {r : Reading} (t : Token) {u : Token}
    {inner outer : List (Operator × Token)}
    (hstack : r.stack = inner ++ (.openBracket, u) :: outer)
    (hinner : ∀ top ∈ inner, top.1 ≠ .openBracket) :
    ∃ r', r.close first t = .ok r' ∧ r'.wantsOperand = r.wantsOperand ∧ r'.stack = outer ∧
      r'.evaluated = evaluate inner r.evaluated := by
  obtain ⟨htake, hdrop⟩ := takeWhile_dropWhile_append
    (fun top : Operator × Token => top.1 != .openBracket) inner
    ((.openBracket, u) :: outer) (fun top htop => by simpa using hinner top htop)
    (by rintro top ⟨⟩; rfl)
  rw [close, hstack, htake, hdrop]
  exact ⟨_, rfl, rfl, rfl, rfl⟩

/-- Reading `ts` in the state `r`, in which `items` have been listed, leads to `r'`. Above the stack there
are only operators of `ts` now, which bind at least as strongly as `n`, and completing them would list the
tree `e` after `items`. -/
structure ReadsPhrase (first n : Nat) (ts : List Token) (e : Term) (r : Reading) (items : List Item)
    (r' : Reading) : Prop where
  run : ts.foldlM (push first) r = .ok r'
  wantsOperand : r'.wantsOperand = false
  exists_pending : ∃ pending shown, r'.stack = pending ++ r.stack ∧
    (∀ top ∈ pending, top.1 ≠ .openBracket ∧ n ≤ top.1.precedence) ∧
    Shows r' shown ∧ shown ++ pending.map signItem = items ++ e.postorder

namespace ReadsPhrase

variable {first n : Nat} {r r₁ r' : Reading} {items : List Item} {t u : Token} {op : Operator}
  {ts ls rs : List Token} {e l : Term}

theorem operand (ht : IsOperandToken t) (hw : r.wantsOperand = true) (hs : Shows r items) :
    ∃ r', ReadsPhrase first n [t] (.operand t) r items r' := by
  obtain ⟨r', hr', hw', hstack, hs'⟩ := pushOperand_of_isOperandToken first ht hs
  refine ⟨r', ?_, hw', [], _, hstack, by simp, hs', by simp [Term.postorder]⟩
  rw [List.foldlM_cons, push_operand (mem_operandKinds_iff.mp ht.1) hw, hr']
  rfl

/-- A closing bracket completes everything down to its opening bracket, so nothing is pending after it. -/
theorem bracket (ht : t.isOperator "(" = true) (hu : u.isOperator ")" = true)
    (hw : r.wantsOperand = true)
    (h : ReadsPhrase first 1 ts e (r.pushWaiting first .openBracket t) items r₁) :
    ∃ r', ReadsPhrase first n (t :: (ts ++ [u])) e r items r' := by
  obtain ⟨hrun, hw₁, pending, shown, hstack, hpending, hs, heq⟩ := h
  obtain ⟨r', hclose, hw', hstack', heval⟩ :=
    close_of_stack first u hstack fun top htop => (hpending top htop).1
  refine ⟨r', ?_, hw'.trans hw₁, [], shown ++ pending.map signItem, hstack', by simp, ?_,
    by simp [heq]⟩
  · rw [List.foldlM_cons, push_opening ht hw]
    change (ts ++ [u]).foldlM (push first) (r.pushWaiting first .openBracket t) = _
    rw [List.foldlM_append, hrun]
    change [u].foldlM (push first) r₁ = _
    rw [List.foldlM_cons, push_closing hu hw₁, hclose]
    rfl
  · rw [Shows, heval]
    exact listing_evaluate pending hs

/-- An operator in front of its operand is pending below the operators of the operand. -/
theorem unary (hk : t.isOperatorKind = true) (hop : Operator.unary? t.text = some op) (hn : n ≤ 10)
    (hw : r.wantsOperand = true)
    (h : ReadsPhrase first 10 ts e (r.pushWaiting first op t) items r') :
    ReadsPhrase first n (t :: ts) (.unary (.ofToken op.code t) e) r items r' := by
  obtain ⟨-, hbracket, hprec⟩ := prefixOperator_of_unary? hop
  obtain ⟨hrun, hw', pending, shown, hstack, hpending, hs, heq⟩ := h
  refine ⟨?_, hw', pending ++ [(op, t)], shown, by rw [hstack]; simp [pushWaiting], ?_, hs, ?_⟩
  · rw [List.foldlM_cons, push_unary hk hop hw]
    exact hrun
  · intro top htop
    rcases List.mem_append.mp htop with htop | htop
    · obtain ⟨hne, hle⟩ := hpending top htop
      exact ⟨hne, Nat.le_trans hn hle⟩
    · rw [List.mem_singleton.mp htop]
      exact ⟨hbracket, by rw [hprec]; exact hn⟩
  · rw [List.map_append, ← List.append_assoc, heq, List.append_assoc]
    rfl

/-- An operator between two operands completes the operators of its left operand, and the one below the
phrase waits with it. -/
theorem pushBinary (first : Nat) (t : Token) (hfits : Fits op.precedence r.stack)
    (h : ReadsPhrase first op.precedence ls l r items r₁) :
    (r₁.pushBinary first op t).stack = (op, t) :: r.stack ∧
      Shows (r₁.pushBinary first op t) (items ++ l.postorder) := by
  obtain ⟨-, -, pending, shown, hstack, hpending, hs, heq⟩ := h
  obtain ⟨hstack', heval⟩ := pushBinary_of_stack first op t hstack
    (fun top htop => by
      obtain ⟨hne, hge⟩ := hpending top htop
      simp [waits, hne, hge])
    (fun top htop => by rcases hfits top htop with h | h <;> simp [waits, h])
  refine ⟨hstack', ?_⟩
  rw [← heq, Shows, heval]
  exact listing_evaluate pending hs

/-- An operator between two operands is pending below the operators of its right operand. -/
theorem binary (hk : t.isOperatorKind = true) (hop : Operator.binary? t.text = some op)
    (hle : n ≤ op.precedence) (hl : ReadsPhrase first op.precedence ls l r items r₁)
    (hstack : (r₁.pushBinary first op t).stack = (op, t) :: r.stack)
    (hr : ReadsPhrase first (op.precedence + 1) rs e (r₁.pushBinary first op t)
      (items ++ l.postorder) r') :
    ReadsPhrase first n (ls ++ t :: rs) (.binary (.ofToken op.code t) l e) r items r' := by
  obtain ⟨hrun, hw', pending, shown, hstack', hpending, hs, heq⟩ := hr
  refine ⟨?_, hw', pending ++ [(op, t)], shown, by rw [hstack', hstack]; simp, ?_, hs, ?_⟩
  · rw [List.foldlM_append, hl.run]
    change (t :: rs).foldlM (push first) r₁ = _
    rw [List.foldlM_cons, push_binary hk hop hl.wantsOperand]
    exact hrun
  · intro top htop
    rcases List.mem_append.mp htop with htop | htop
    · obtain ⟨hne, hge⟩ := hpending top htop
      exact ⟨hne, by omega⟩
    · rw [List.mem_singleton.mp htop]
      exact ⟨(binaryOperator_of_binary? hop).2, hle⟩
  · rw [List.map_append, ← List.append_assoc, heq, Term.postorder]
    simp only [List.append_assoc]
    rfl

end ReadsPhrase

/-- Reading the tokens of a phrase where an operand is wanted succeeds. It leaves only operators of
the phrase above the stack, and completing them gives the listing of its tree. -/
theorem run_of_phrase (first : Nat) {n : Nat} {ts : List Token} {e : Term} (h : Phrase n ts e)
    (hn : n ≤ 10) {r : Reading} (items : List Item) (hw : r.wantsOperand = true)
    (hf : n ≤ 9 → Fits n r.stack) (hs : Shows r items) :
    ∃ r', ReadsPhrase first n ts e r items r' := by
  induction h generalizing r items with
  | operand ht => exact ReadsPhrase.operand ht hw hs
  | @bracket _ t _ _ _ ht hu _ ih =>
      obtain ⟨r₁, hreads⟩ := ih (by omega) (r := r.pushWaiting first .openBracket t) items hw
        (fun _ => fits_cons (Or.inl rfl)) hs
      exact ReadsPhrase.bracket (isSignToken_iff.mp ht) (isSignToken_iff.mp hu) hw hreads
  | @unary _ _ _ t _ _ ht hprefix _ ih =>
      obtain ⟨hk, rfl⟩ := isOperatorKind_of_isOperator (isSignToken_iff.mp ht)
      obtain ⟨op, hop, rfl⟩ := hprefix.exists_unary?
      obtain ⟨r', hreads⟩ := ih (Nat.le_refl _) (r := r.pushWaiting first op t) items hw (by omega) hs
      exact ⟨r', .unary hk hop hn hw hreads⟩
  | @binary _ _ _ _ t _ _ _ _ ht hbinary hle _ _ ihl ihr =>
      obtain ⟨hk, rfl⟩ := isOperatorKind_of_isOperator (isSignToken_iff.mp ht)
      obtain ⟨-, hlevel⟩ := hbinary.level_bounds
      obtain ⟨op, hop, rfl, rfl⟩ := hbinary.exists_binary?
      have hfits : Fits op.precedence r.stack := (hf (by omega)).mono hle
      obtain ⟨r₁, hl⟩ := ihl (by omega) items hw (fun _ => hfits) hs
      obtain ⟨hstack, hs₁⟩ := hl.pushBinary first t hfits
      obtain ⟨r', hr⟩ := ihr (by omega) (r := r₁.pushBinary first op t) _ rfl
        (fun _ => by rw [hstack]; exact fits_cons (Or.inr (Nat.lt_succ_self _))) hs₁
      exact ⟨r', .binary hk hop hle hl hstack hr⟩

end Expression

end MissionScript
