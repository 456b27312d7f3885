import MissionScript.Proofs.Expression.Run

/-!
# MissionScript.Proofs.Expression.Parsing

Reading an expression accepts exactly the phrases of the grammar, and lists the syntax tree in
postorder (`parse_iff_phrase`).

That phrases are accepted is `run_of_phrase`. Conversely, a stack that has been reached is a
`Context`: an expression with a hole at its right end, in which each waiting binary operator has its
left operand and binds more strongly than the operator below it. Completing the top of the stack
makes the expression in the hole larger and the context smaller (`Context.complete`).

The two directions meet in `Phrase.unique`. A phrase is read as the listing of its tree, whichever
derivation it has; reading gives one result, and a listing determines its tree. So the grammar is
unambiguous because the reader is a function.
-/

namespace MissionScript

namespace Expression

open Reading

/-! ### What has been read is part of a phrase

While an expression is read, its tokens are not a phrase yet: brackets are open and operators wait
for their right operand. `Reached` says of which form the tokens read so far are. There is one lemma
for each way in which a token is read (`Reached.pushOperand`, `Reached.pushBinary`,
`Reached.close`), and `Reached.run` puts them together along the tokens.

Level 11 stands above all operators: a phrase of this level is an operand, brackets or operators in
front of these, and so it fits behind any operator at all. -/

/-- The stack `stack` has been reached by reading `ts`, an operand is wanted, and `items` have been
listed: an expression with a hole at its right end. -/
inductive Context : List (Operator × Token) → List Token → List Item → Prop
  | nil : Context [] [] []
  | opening {stack : List (Operator × Token)} {ts : List Token} {items : List Item} {t : Token} :
      Context stack ts items → t.isOperator "(" = true →
      Context ((.openBracket, t) :: stack) (ts ++ [t]) items
  | unary {stack : List (Operator × Token)} {ts : List Token} {items : List Item} {t : Token}
      {op : Operator} :
      Context stack ts items → t.isOperatorKind = true → Operator.unary? t.text = some op →
      Context ((op, t) :: stack) (ts ++ [t]) items
  | binary {stack : List (Operator × Token)} {ts ls : List Token} {items : List Item} {t : Token}
      {op : Operator} {l : Term} :
      Context stack ts items → t.isOperatorKind = true → Operator.binary? t.text = some op →
      Fits op.precedence stack → Phrase op.precedence ls l →
      Context ((op, t) :: stack) (ts ++ ls ++ [t]) (items ++ l.postorder)

/-- No operator binds more strongly than those in front of an operand. -/
theorem precedence_le_ten (op : Operator) : op.precedence ≤ 10 := by
  cases op <;> decide

/-- An expression without binary operators outside of brackets may stand above any stack. -/
theorem fits_eleven (stack : List (Operator × Token)) : Fits 11 stack :=
  fun top _ => Or.inr (Nat.lt_succ_of_le (precedence_le_ten top.1))

/-- Completing the top of the stack, down to the first entry that is kept, puts a larger expression
into the hole of a smaller context. -/
theorem Context.complete {stack : List (Operator × Token)} {before : List Token} {items : List Item}
    (hc : Context stack before items) {n : Nat} {ls : List Token} {e : Term} (hp : Phrase n ls e)
    (hf : Fits n stack) (keep : Operator → Bool) (hkeep : keep .openBracket = true) :
    ∃ before' items' ls' e' m,
      Context (stack.dropWhile fun top => !keep top.1) before' items' ∧ Phrase m ls' e' ∧
      before ++ ls = before' ++ ls' ∧
      items ++ e.postorder ++ (stack.takeWhile fun top => !keep top.1).map signItem
        = items' ++ e'.postorder ∧
      (m = n ∨ ∃ op, keep op = false ∧ 1 ≤ op.precedence ∧ op.precedence ≤ m) := by
  induction hc generalizing n ls e with
  -- nothing waits, so the phrase is complete
  | nil => exact ⟨[], [], ls, e, n, .nil, hp, rfl, by simp, Or.inl rfl⟩
  | opening hc ht =>
      rw [List.dropWhile_cons_of_neg (by simp [hkeep]), List.takeWhile_cons_of_neg (by simp [hkeep])]
      exact ⟨_, _, ls, e, n, .opening hc ht, hp, rfl, by simp, Or.inl rfl⟩
  | @unary stack ts items t op hc ht hop ih =>
      obtain ⟨hoperator, hbracket, hprec⟩ := prefixOperator_of_unary? hop
      cases hk : keep op with
      | true =>
          rw [List.dropWhile_cons_of_neg (by simp [hk]), List.takeWhile_cons_of_neg (by simp [hk])]
          exact ⟨_, _, ls, e, n, .unary hc ht hop, hp, rfl, by simp, Or.inl rfl⟩
      | false =>
          -- the operator takes the phrase as its operand, and the two go on to what is below
          have hlt : op.precedence < n := (hf (op, t) rfl).resolve_left hbracket
          have hphrase : Phrase 11 (t :: ls) (.unary (.ofToken op.code t) e) :=
            .unary (isSignToken_text ht) hoperator (hp.mono (hprec ▸ Nat.le_of_lt hlt))
          obtain ⟨before', items', ls', e', m, hc', hp', htokens, hitems, hm⟩ :=
            ih hphrase (fits_eleven stack)
          rw [List.dropWhile_cons_of_pos (by simp [hk]), List.takeWhile_cons_of_pos (by simp [hk])]
          refine ⟨before', items', ls', e', m, hc', hp', by simpa using htokens, ?_, Or.inr ?_⟩
          · rw [← hitems]
            simp [Term.postorder, signItem]
          · rcases hm with rfl | hm
            · exact ⟨op, hk, by omega, by omega⟩
            · exact hm
  | @binary stack ts ls₀ items t op l hc ht hop hfits hl ih =>
      obtain ⟨hbinary, hbracket⟩ := binaryOperator_of_binary? hop
      cases hk : keep op with
      | true =>
          rw [List.dropWhile_cons_of_neg (by simp [hk]), List.takeWhile_cons_of_neg (by simp [hk])]
          exact ⟨_, _, ls, e, n, .binary hc ht hop hfits hl, hp, rfl, by simp, Or.inl rfl⟩
      | false =>
          -- the phrase binds tighter than the operator, so it is its right operand
          have hlt : op.precedence < n := (hf (op, t) rfl).resolve_left hbracket
          have hphrase : Phrase op.precedence (ls₀ ++ t :: ls) (.binary (.ofToken op.code t) l e) :=
            .binary (isSignToken_text ht) hbinary (Nat.le_refl _) hl (hp.mono hlt)
          obtain ⟨before', items', ls', e', m, hc', hp', htokens, hitems, hm⟩ := ih hphrase hfits
          rw [List.dropWhile_cons_of_pos (by simp [hk]), List.takeWhile_cons_of_pos (by simp [hk])]
          refine ⟨before', items', ls', e', m, hc', hp', by simpa using htokens, ?_, Or.inr ?_⟩
          · rw [← hitems]
            simp [Term.postorder, signItem]
          · rcases hm with rfl | hm
            · exact ⟨op, hk, hbinary.level_bounds.1, Nat.le_refl _⟩
            · exact hm

/-- The tokens `ts` have been read and led to `r`. After an operand, the context is followed by an
expression without binary operators outside of brackets. -/
inductive Reached (ts : List Token) (r : Reading) : Prop
  | wanting {items : List Item} : r.wantsOperand = true → Context r.stack ts items →
      Shows r items → Reached ts r
  | holding {before ls : List Token} {items : List Item} {e : Term} : r.wantsOperand = false →
      Context r.stack before items → Phrase 11 ls e → ts = before ++ ls →
      Shows r (items ++ e.postorder) → Reached ts r

/-- An operand is a phrase of its own, in the hole of what has been read. -/
theorem Reached.pushOperand {first : Nat} {ts : List Token} {r r' : Reading} {t : Token}
    (h : Reached ts r) (hw : r.wantsOperand = true) (ht : t.isOperand = true)
    (hpush : r.pushOperand first t = .ok r') : Reached (ts ++ [t]) r' := by
  cases h with
  | holding hw' => simp [hw] at hw'
  | wanting _ hc hs =>
      have htoken : IsOperandToken t := by
        unfold Reading.pushOperand at hpush
        cases hp : Parameter.ofToken (Slot.operand (first + r.written.length)) t with
        | error e => simp [hp] at hpush
        | ok p => exact isOperandToken_of_read ht (Parameter.of_ofToken hp).2.1
      obtain ⟨r₁, hpush₁, hw₁, hstack₁, hs₁⟩ :=
        pushOperand_of_isOperandToken first htoken hs
      obtain rfl : r₁ = r' := by
        rw [hpush₁] at hpush
        exact Except.ok.inj hpush
      exact .holding hw₁ (by rw [hstack₁]; exact hc) (.operand htoken) rfl hs₁

/-- An operator completes what binds at least as strongly as it does. That becomes its left operand,
and it waits for its right one. -/
theorem Reached.pushBinary {first : Nat} {ts : List Token} {r : Reading} {t : Token}
    {op : Operator} (h : Reached ts r) (hw : r.wantsOperand = false) (ht : t.isOperatorKind = true)
    (hop : Operator.binary? t.text = some op) : Reached (ts ++ [t]) (r.pushBinary first op t) := by
  cases h with
  | wanting hw' => simp [hw] at hw'
  | @holding before ls items e _ hc hp hts hs =>
      obtain ⟨before', items', ls', e', m, hc', hp', htokens, hitems, hm⟩ :=
        hc.complete hp (fits_eleven _) (waits op) rfl
      have hle : op.precedence ≤ m := by
        rcases hm with rfl | ⟨top, hkeep, -, htop⟩
        · exact Nat.le_succ_of_le (precedence_le_ten op)
        · have : op.precedence ≤ top.precedence := by
            simp only [waits, Bool.or_eq_false_iff, decide_eq_false_iff_not, Nat.not_lt] at hkeep
            exact hkeep.2
          omega
      have hfits : Fits op.precedence (r.stack.dropWhile fun top => !waits op top.1) := by
        intro top htop
        have hhead := List.head?_dropWhile_not (fun top => !waits op top.1) r.stack
        rw [Option.mem_def.mp htop] at hhead
        simpa [waits, Decidable.or_iff_not_imp_left] using hhead
      have hc'' := Context.binary hc' ht hop hfits (hp'.mono hle)
      rw [← htokens, ← hts] at hc''
      refine .wanting rfl hc'' ?_
      rw [← hitems]
      exact listing_evaluate _ hs

/-- A context whose stack starts with a bracket ends with the token of the bracket. -/
theorem Context.of_opening {t : Token} {stack : List (Operator × Token)} {ts : List Token}
    {items : List Item} (hc : Context ((.openBracket, t) :: stack) ts items) :
    ∃ before, ts = before ++ [t] ∧ t.isOperator "(" = true ∧ Context stack before items := by
  cases hc with
  | opening hc ht => exact ⟨_, rfl, ht, hc⟩
  | unary _ _ hop => exact absurd rfl (prefixOperator_of_unary? hop).2.1
  | binary _ _ hop => exact absurd rfl (binaryOperator_of_binary? hop).2

/-- Whatever was completed is a phrase of level 1 at least, as an expression in brackets has to be.
-/
theorem one_le_of_complete {keep : Operator → Bool} {m : Nat}
    (h : m = 11 ∨ ∃ op, keep op = false ∧ 1 ≤ op.precedence ∧ op.precedence ≤ m) : 1 ≤ m := by
  rcases h with rfl | ⟨op, -, hone, hle⟩ <;> omega

/-- A closing bracket completes everything down to the opening one, and what is between them is a
phrase. -/
theorem Reached.close {first : Nat} {ts : List Token} {r r' : Reading} {t : Token}
    (h : Reached ts r) (hw : r.wantsOperand = false) (ht : t.isOperator ")" = true)
    (hclose : r.close first t = .ok r') : Reached (ts ++ [t]) r' := by
  cases h with
  | wanting hw' => simp [hw] at hw'
  | @holding before ls items e _ hc hp hts hs =>
      obtain ⟨before', items', ls', e', m, hc', hp', htokens, hitems, hm⟩ :=
        hc.complete hp (fits_eleven _) (· == .openBracket) rfl
      rw [Reading.close] at hclose
      cases hd : r.stack.dropWhile fun top => top.1 != .openBracket with
      | nil => simp [hd] at hclose
      | cons top outer =>
          have htop : top.1 = .openBracket := by
            have hhead := List.head?_dropWhile_not (fun top => top.1 != .openBracket) r.stack
            rw [hd] at hhead
            simpa using hhead
          obtain ⟨op, u⟩ := top
          obtain rfl : op = .openBracket := htop
          simp only [hd] at hclose
          cases hclose
          have hc'' : Context ((.openBracket, u) :: outer) before' items' := by rw [← hd]; exact hc'
          obtain ⟨before'', rfl, hu, houter⟩ := hc''.of_opening
          refine .holding hw houter
            (.bracket (isSignToken_iff.mpr hu) (isSignToken_iff.mpr ht)
              (hp'.mono (one_le_of_complete hm))) ?_ (e := e') ?_
          · rw [hts, htokens]
            simp
          · rw [Shows, ← hitems]
            exact listing_evaluate _ hs

/-- Reading a token extends what has been read by it. -/
theorem Reached.step {first : Nat} {ts : List Token} {r r' : Reading} {t : Token}
    (h : Reached ts r) (hstep : Step first r t r') : Reached (ts ++ [t]) r' := by
  cases hstep with
  | operand hw ht hpush => exact h.pushOperand hw ht hpush
  | closing hw ht hpush => exact h.close hw ht hpush
  | binary hw ht hop => exact h.pushBinary hw ht hop
  | opening hw ht =>
      cases h with
      | holding hw' => simp [hw] at hw'
      | wanting _ hc hs => exact .wanting hw (.opening hc ht) hs
  | unary hw ht hop =>
      cases h with
      | holding hw' => simp [hw] at hw'
      | wanting _ hc hs => exact .wanting hw (.unary hc ht hop) hs

/-- Reading tokens extends what has been read by them, with their signs split off. -/
theorem Reached.run {first : Nat} {us : List Token} {ts : List Token} {r r' : Reading}
    (h : Reached ts r) (hrun : us.foldlM (push first) r = .ok r') :
    Reached (ts ++ splitSigns r.wantsOperand us) r' := by
  induction us generalizing ts r with
  | nil =>
      cases hrun
      simpa [splitSigns] using h
  | cons t us ih =>
      rw [List.foldlM_cons] at hrun
      cases hp : r.push first t with
      | error e => rw [hp] at hrun; cases hrun
      | ok r₁ =>
          rw [hp] at hrun
          have hrun : us.foldlM (push first) r₁ = .ok r' := hrun
          rw [splitSigns_cons]
          split
          · next hsplit =>
            simp only [Bool.and_eq_true, Bool.not_eq_true'] at hsplit
            obtain ⟨hw, hneg⟩ := hsplit
            rw [push_negative hw hneg] at hp
            have hminus := @Reached.pushBinary first _ _ (minusOf t) .subtract h hw rfl rfl
            have := ih (hminus.pushOperand rfl rfl hp) hrun
            rw [wantsOperand_of_pushOperand hp] at this
            simpa using this
          · next hsplit =>
            have hstep := step_of_push hp (by simpa using hsplit)
            have := ih (h.step hstep) hrun
            rw [hstep.wantsOperand] at this
            simpa using this

/-! ### The whole expression

At the end nothing may be open any more. Then the context is empty, and what was in its hole is the
expression. -/

/-- Ending an expression completes the whole stack, so what has been read is a phrase. -/
theorem Reached.finish {ts : List Token} {r : Reading} {last : Token} {found : Expression}
    (h : Reached ts r) (hfinish : r.finish last = .ok found) :
    ∃ e, Phrase 1 ts e ∧ listing 0 e.postorder = .ok found.evaluated := by
  cases h with
  | wanting hw => simp [Reading.finish, hw] at hfinish
  | @holding before ls items e hw hc hp hts hs =>
      cases hfind : r.stack.find? fun top => top.1 == .openBracket with
      | some top => simp [Reading.finish, hw, hfind] at hfinish
      | none =>
          have hfound : found = ⟨r.written, evaluate r.stack r.evaluated⟩ := by
            simpa [Reading.finish, hw, hfind, eq_comm] using hfinish
          have hnone : ∀ top ∈ r.stack, (!(top.1 == .openBracket)) = true := by
            simpa using hfind
          obtain ⟨htake, hdrop⟩ := takeWhile_dropWhile_append _ _ [] hnone (by simp)
          rw [List.append_nil] at htake hdrop
          obtain ⟨before', items', ls', e', m, hc', hp', htokens, hitems, hm⟩ :=
            hc.complete hp (fits_eleven _) (· == .openBracket) rfl
          rw [hdrop] at hc'
          rw [htake] at hitems
          cases hc'
          refine ⟨e', ?_, ?_⟩
          · rw [hts, htokens]
            exact hp'.mono (one_le_of_complete hm)
          · have hlist := listing_evaluate r.stack hs
            rw [hitems] at hlist
            rw [hfound]
            exact hlist

/-- An expression that is read is a phrase, listed in postorder. -/
theorem phrase_of_parse {tokens : List Token} {first : Nat} {found : Expression}
    (h : parse tokens first = .ok found) :
    ∃ e, Phrase 1 (grammarTokens tokens) e ∧ listing 0 e.postorder = .ok found.evaluated := by
  unfold parse at h
  cases hlast : tokens.getLast? with
  | none => simp [hlast] at h
  | some last =>
      simp only [hlast] at h
      cases hrun : (tokens.filter Token.isSignificant).foldlM (push first) {} with
      | error e => rw [hrun] at h; cases h
      | ok r =>
          rw [hrun] at h
          have hstart : Reached [] ({} : Reading) := .wanting rfl .nil (show Shows {} [] from rfl)
          exact (hstart.run hrun).finish h

/-- A phrase is read, and its tree is listed in postorder. -/
theorem parse_of_phrase {tokens : List Token} {e : Term} (first : Nat)
    (h : Phrase 1 (grammarTokens tokens) e) :
    ∃ found, parse tokens first = .ok found ∧ listing 0 e.postorder = .ok found.evaluated := by
  obtain ⟨r, hrun, hw, pending, items, hstack, hpending, hs, heq⟩ :=
    run_of_phrase first h (by omega) (r := {}) [] rfl
      (fun _ top htop => by cases htop) rfl
  rw [grammarTokens_eq, foldlM_splitSigns first _ ({} : Reading)] at hrun
  have hfind : r.stack.find? (fun top => top.1 == .openBracket) = none := by
    rw [hstack, List.append_nil]
    simpa using fun top htop => (hpending top htop).1
  cases hlast : tokens.getLast? with
  | none =>
      rw [List.getLast?_eq_none_iff.mp hlast] at hrun
      cases hrun
      cases hw
  | some last =>
      refine ⟨⟨r.written, evaluate r.stack r.evaluated⟩, ?_, ?_⟩
      · rw [parse, hlast]
        simp only [hrun]
        change r.finish last = _
        simp [finish, hw, hfind]
      · have := listing_evaluate pending hs
        rw [heq] at this
        rw [hstack, List.append_nil]
        exact this

/-- A run of tokens has at most one syntax tree. -/
theorem Phrase.unique {tokens : List Token} {e f : Term} (he : Phrase 1 (grammarTokens tokens) e)
    (hf : Phrase 1 (grammarTokens tokens) f) : e = f := by
  obtain ⟨found, hfound, hle⟩ := parse_of_phrase 0 he
  obtain ⟨found', hfound', hlf⟩ := parse_of_phrase 0 hf
  obtain rfl : found = found' := by
    rw [hfound] at hfound'
    exact Except.ok.inj hfound'
  exact he.eq_of_postorder hf (eq_of_listing he.valid_postorder hf.valid_postorder hle hlf)

/-- Reading an expression succeeds exactly on the phrases of the grammar. The tree of a phrase is
unique, and its postorder is the evaluation order that is read. As the grammar has tables of its own, this
also says that the reader knows just these operators, on these levels and with these numbers. -/
theorem parse_iff_phrase (tokens : List Token) (first : Nat) :
    ((∃ found, parse tokens first = .ok found) ↔ ∃ e, Phrase 1 (grammarTokens tokens) e) ∧
      ∀ found, parse tokens first = .ok found →
        ∃ e, Phrase 1 (grammarTokens tokens) e ∧
          (∀ f, Phrase 1 (grammarTokens tokens) f → f = e) ∧
          listing 0 e.postorder = .ok found.evaluated := by
  refine ⟨⟨?_, ?_⟩, ?_⟩
  · rintro ⟨found, hfound⟩
    obtain ⟨e, he, -⟩ := phrase_of_parse hfound
    exact ⟨e, he⟩
  · rintro ⟨e, he⟩
    obtain ⟨found, hfound, -⟩ := parse_of_phrase first he
    exact ⟨found, hfound⟩
  · intro found hfound
    obtain ⟨e, he, hlist⟩ := phrase_of_parse hfound
    exact ⟨e, he, fun f hf => hf.unique he, hlist⟩

end Expression

end MissionScript
