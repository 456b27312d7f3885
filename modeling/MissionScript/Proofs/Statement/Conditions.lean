import MissionScript.Proofs.Statement.Proper

/-!
# MissionScript.Proofs.Statement.Conditions

The conditional in front of a line. A line that is read without a problem is auxiliary, or it is a
command after its conditional (`Language.readLine_cases`).

Many statements about compiled scripts are about the command on a line and its conditional
separately, so both have a name here. The conditional is taken off the front of the tokens, and
whatever it leaves is the command.
-/

namespace MissionScript

/-- The conditional in front of a line. -/
def conditionOf (text : String) : Conditional := (Language.readConditional (tokens text)).1

/-- The tokens of a line after its conditional. -/
def commandTokens (text : String) : List Token := (Language.readConditional (tokens text)).2

namespace Language

/-- The words that are taken off are control words. -/
theorem exists_keywords_of_stripKeywords {words : List String} {ts rest : List Token}
    (h : stripKeywords words ts = some rest) :
    ∃ front, ts = front ++ rest ∧ ∀ t ∈ front, t.kind = .keyword := by
  induction words generalizing ts with
  | nil =>
      cases h
      exact ⟨[], rfl, List.forall_mem_nil _⟩
  | cons word words ih =>
      cases ts with
      | nil => cases h
      | cons t ts =>
          rw [stripKeywords] at h
          split at h
          · next hword =>
            rw [Token.isKeyword, Bool.and_eq_true, beq_iff_eq] at hword
            obtain ⟨front, rfl, hfront⟩ := ih h
            exact ⟨t :: front, rfl, List.forall_mem_cons.mpr ⟨hword.1, hfront⟩⟩
          · cases h

/-- A conditional stands at the front of a line, and is made of control words. -/
theorem exists_keywords_readConditional (ts : List Token) :
    ∃ front, ts = front ++ (readConditional ts).2 ∧ ∀ t ∈ front, t.kind = .keyword := by
  unfold readConditional
  split
  · next found hfound =>
    obtain ⟨⟨words, condition⟩, -, hstrip⟩ := List.exists_of_findSome?_eq_some hfound
    obtain ⟨rest, hrest, rfl⟩ := Option.map_eq_some_iff.mp hstrip
    exact exists_keywords_of_stripKeywords hrest
  · split
    · next _ t rest _ =>
      split
      · next hstart =>
        simp only [Token.isKeyword, Bool.and_eq_true, beq_iff_eq] at hstart
        exact ⟨[t], rfl, List.forall_mem_singleton.mpr hstart.1.1⟩
      · exact ⟨[], rfl, List.forall_mem_nil _⟩
    · exact ⟨[], rfl, List.forall_mem_nil _⟩

/-- The command is the rest of the line. -/
theorem readConditional_isSuffix (ts : List Token) : (readConditional ts).2 <:+ ts := by
  obtain ⟨front, hts, -⟩ := exists_keywords_readConditional ts
  exact ⟨front, hts.symm⟩

/-- The tokens of a command are tokens of the line. -/
theorem mem_tokens_of_mem_commandTokens {text : String} {t : Token} (h : t ∈ commandTokens text) :
    t ∈ tokens text :=
  (readConditional_isSuffix (tokens text)).subset h

/-- A line that is read without a problem is auxiliary, or a command after its conditional. -/
theorem readLine_cases {lang : Language} (hcat : lang.catalog.Reachable) {line : Nat}
    {text : String} (h : (lang.readLine line text).2 = none) :
    (lang.readLine line text).1.isAuxiliary = true ∨
      lang.readCommand (conditionOf text) (commandTokens text) line text
        = .ok (lang.readLine line text).1 := by
  unfold conditionOf commandTokens
  unfold readLine at h ⊢
  split
  · -- a blank line is auxiliary
    next htokens =>
    rw [htokens] at h
    dsimp only at h
    cases hd : lang.command CommandId.blankLine with
    | error problem => rw [hd] at h; cases h
    | ok d => exact Or.inl (isAuxiliary_of_command hcat hd (Or.inl rfl) _ _ _)
  · next first rest htokens =>
    rw [htokens] at h ⊢
    dsimp only at h
    split
    · next hstar =>
      left
      rw [if_pos hstar] at h
      unfold readComment at h ⊢
      split
      · next s hs =>
        -- a commented command is marked as such, and so it is not executed
        obtain ⟨body, -, hbody⟩ := Option.bind_eq_some_iff.mp hs
        unfold readCommented at hbody
        dsimp only at hbody
        repeat' split at hbody
        all_goals cases hbody
        rfl
      · next hs =>
        rw [hs] at h
        dsimp only at h
        cases hd : lang.command CommandId.comment with
        | error problem => rw [hd] at h; cases h
        | ok d => exact isAuxiliary_of_command hcat hd (Or.inr rfl) _ _ _
    · next hstar =>
      right
      rw [if_neg hstar] at h
      dsimp only at h ⊢
      cases hs : lang.readCommand (readConditional (first :: rest)).1
          (readConditional (first :: rest)).2 line text with
      | error problem => rw [hs] at h; cases h
      | ok s => rfl

end Language

end MissionScript
