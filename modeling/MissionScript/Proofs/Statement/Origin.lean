import MissionScript.Proofs.Statement.Proper
import MissionScript.Proofs.Token.Indentation

/-!
# MissionScript.Proofs.Statement.Origin

What a statement keeps of the line that it was read from: the number of the line, its text, and the
characters between the blanks around it (`readFrom_readLine`). Whether the line could be read does not
matter. A line on which something else than blanks stands begins before it ends
(`leadingBlanks_lt_trimmedLength`), and only such a line takes part in the flow of control
(`trimStart_of_flow`).

All readers make their statement with `Statement.ofLine`, from the number and the text of the whole
line, so there is one lemma for each reader that ends in `readFrom_ofLine`. That includes the reader
of commented commands: it lexes the body of the comment anew, but it hands on the line.
-/

namespace MissionScript

open Text

namespace Statement

/-- The statement keeps the number and the text of its line, and the characters between the blanks
around it. -/
structure ReadFrom (s : Statement) (line : Nat) (text : String) : Prop where
  line_eq : s.line = line
  text_eq : s.text = text
  start_eq : s.start = leadingBlanks text
  stop_eq : s.stop = max (trimmedLength text) (leadingBlanks text)

/-- A statement that is made of a line keeps it. -/
theorem readFrom_ofLine (command : Option Definition) (condition : Conditional)
    (parameters : List Parameter) (line : Nat) (text : String) :
    (ofLine command condition parameters line text).ReadFrom line text :=
  ⟨rfl, rfl, rfl, rfl⟩

/-- The blanks at the front of a line end before those at its back begin. -/
theorem leadingBlanks_lt_trimmedLength {text : String} (h : trimStart text.toList ≠ []) :
    leadingBlanks text < trimmedLength text := by
  obtain ⟨c, rest, hrest⟩ := List.exists_cons_of_ne_nil h
  have hc : isBlank c = false := by
    have hhead := List.head?_dropWhile_not isBlank text.toList
    rw [show text.toList.dropWhile isBlank = c :: rest from hrest] at hhead
    simpa using hhead
  have hline : text.toList = text.toList.takeWhile isBlank ++ c :: rest := by
    rw [← hrest]
    exact List.takeWhile_append_dropWhile.symm
  have hreverse : text.toList.reverse
      = rest.reverse ++ c :: (text.toList.takeWhile isBlank).reverse := by
    simpa using congrArg List.reverse hline
  rw [leadingBlanks, trimmedLength, trimEnd, List.length_reverse, hreverse, List.dropWhile_append]
  split
  · rw [List.dropWhile_cons_of_neg (by simp [hc]), List.length_cons, List.length_reverse]
    omega
  · rw [List.length_append, List.length_cons, List.length_reverse]
    omega

end Statement

namespace Language

open Statement (ReadFrom readFrom_ofLine)

variable {lang : Language} {line : Nat} {text : String} {s : Statement}

/-- An expression keeps its line. -/
theorem readFrom_readExpression {condition : Conditional} {ts : List Token}
    (h : lang.readExpression condition ts line text = .ok s) : s.ReadFrom line text := by
  unfold readExpression at h
  obtain ⟨d, -, h⟩ := bind_eq_ok.mp h
  have read : ∀ {ps evaluated : List Parameter},
      { Statement.ofLine (some d) condition ps line text with evaluated } = s →
        s.ReadFrom line text := by
    intro ps evaluated heq
    subst heq
    exact ⟨rfl, rfl, rfl, rfl⟩
  dsimp only at h
  split at h
  · obtain ⟨⟨target, operands⟩, -, h⟩ := bind_eq_ok.mp h
    obtain ⟨expression, -, h⟩ := bind_eq_ok.mp h
    exact read (pure_eq_ok.mp h)
  · split at h
    · split at h
      · obtain ⟨⟨target, operands⟩, -, h⟩ := bind_eq_ok.mp h
        obtain ⟨expression, -, h⟩ := bind_eq_ok.mp h
        exact read (pure_eq_ok.mp h)
      · obtain ⟨_, herror, -⟩ := bind_eq_ok.mp h
        cases herror
    · obtain ⟨_, herror, -⟩ := bind_eq_ok.mp h
      cases herror

/-- A script call keeps its line. -/
theorem readFrom_readScriptCall {condition : Conditional} {ts before after : List Token}
    {word : Token} (h : lang.readScriptCall condition ts before word after line text = .ok s) :
    s.ReadFrom line text := by
  unfold readScriptCall at h
  obtain ⟨d, -, h⟩ := bind_eq_ok.mp h
  obtain ⟨⟨target, object⟩, -, h⟩ := bind_eq_ok.mp h
  obtain ⟨⟨name, rest⟩, -, h⟩ := bind_eq_ok.mp h
  obtain ⟨after, -, h⟩ := bind_eq_ok.mp h
  obtain ⟨arguments, -, h⟩ := bind_eq_ok.mp h
  rw [pure_eq_ok] at h
  subst h
  exact readFrom_ofLine _ _ _ _ _

/-- So does any command, however it has been read. -/
theorem readFrom_readCommand {condition : Conditional} {ts : List Token}
    (h : lang.readCommand condition ts line text = .ok s) : s.ReadFrom line text := by
  unfold readCommand at h
  split at h
  · cases h
  · split at h
    · unfold readArrayAccess at h
      split at h
      · cases h
      · obtain ⟨ps, -, h⟩ := bind_eq_ok.mp h
        rw [pure_eq_ok] at h
        subst h
        exact readFrom_ofLine _ _ _ _ _
    · split at h
      · exact readFrom_readExpression h
      · split at h
        · exact readFrom_readScriptCall h
        · split at h
          · obtain ⟨ps, -, h⟩ := bind_eq_ok.mp h
            rw [pure_eq_ok] at h
            subst h
            exact readFrom_ofLine _ _ _ _ _
          · cases h

/-- A commented command keeps the line of the comment. -/
theorem readFrom_readCommented {body : Token}
    (h : lang.readCommented body line text = some s) : s.ReadFrom line text := by
  unfold readCommented at h
  dsimp only at h
  split at h
  · cases h
  · split at h
    · cases h
    · split at h
      · next hread =>
        cases h
        exact { readFrom_readCommand hread with }
      · cases h

/-- A statement keeps the number, the text and the extent of its line, whether the line could be read or
not. -/
theorem readFrom_readLine (lang : Language) (line : Nat) (text : String) :
    (lang.readLine line text).1.ReadFrom line text := by
  unfold readLine
  split
  · split
    · exact readFrom_ofLine _ _ _ _ _
    · exact readFrom_ofLine _ _ _ _ _
  · split
    · unfold readComment
      split
      · next hcommented =>
        obtain ⟨body, -, hread⟩ := Option.bind_eq_some_iff.mp hcommented
        exact readFrom_readCommented hread
      · split
        · exact readFrom_ofLine _ _ _ _ _
        · exact readFrom_ofLine _ _ _ _ _
    · dsimp only
      split
      · next hread => exact readFrom_readCommand hread
      · exact readFrom_ofLine _ _ _ _ _

/-- A blank line takes no part in the flow of control. -/
theorem trimStart_of_flow (h : (lang.readLine line text).1.flow ≠ .plain) :
    trimStart text.toList ≠ [] := by
  intro hnil
  refine h ?_
  unfold readLine
  rw [tokens_of_trimStart_nil hnil]
  dsimp only
  cases hd : lang.command CommandId.blankLine with
  | error problem => rfl
  | ok d =>
      have hid : d.id = CommandId.blankLine := by
        unfold command at hd
        split at hd
        · next hfind =>
          cases hd
          exact (Catalog.of_find? hfind).2.1
        · cases hd
      simp only [Statement.ofLine, Option.map_some, hid]
      decide

end Language

end MissionScript
