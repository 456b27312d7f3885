import MissionScript.Proofs.Script.Nesting
import MissionScript.Proofs.Statement.AuxiliaryLines
import MissionScript.Proofs.Statement.Indentation
import Mathlib.Data.List.Forall2

/-!
# MissionScript.Proofs.Script.Commented

Commands that are commented out.

The text behind an asterisk is split into tokens for itself, and these are moved to where they stand on the
line. So it is read like the text on a line of its own behind as many blanks (`agree_readCommand`), but for the
text of the line, which only says where the statement begins and ends (`alike_readCommand_text`). What can be
read is commented out with everything in its place, and all else is a comment (`readCommented_cases`).

The proof goes through a line that does not occur: the same text, moved to the right by blanks
instead of by an asterisk. Moving a line to the right is understood
(`MissionScript.Proofs.Statement.Indentation`), and from there to the commented line only the text
is another one. A label in the text is not entered into the table of symbols, because it is a
commented command that declares it.
-/

namespace MissionScript

open Text

/-! ### The text of the line

Readers are handed the text of the line along with its tokens. They look at the tokens only, and put
the text into the statement at the end. -/

/-- The statement on a line with another text. -/
def Statement.withText (s : Statement) (text : String) : Statement :=
  { s with start := leadingBlanks text, stop := max (trimmedLength text) (leadingBlanks text), text }

/-- The parameter further to the right. What the line does not say has no text, and may stay where it is. -/
def Parameter.Follows (offset : Nat) (p q : Parameter) : Prop :=
  q = p.shift offset ∨ p.text = "" ∧ q = p

/-- The second statement comments the first one out, as many characters further to the right. -/
structure Statement.CommentsOut (offset : Nat) (s s' : Statement) : Prop where
  commented_eq : s'.commented = true
  flow_eq : s'.flow = .plain
  command_eq : s'.command = s.command
  condition_eq : s'.condition = s.condition
  line_eq : s'.line = s.line
  parameters : List.Forall₂ (Parameter.Follows offset) s.parameters s'.parameters
  evaluated_eq : s'.evaluated = s.evaluated.map (Parameter.shift offset)

/-- A statement that has moved comments the first one out when it is marked so, whatever text it is
given. -/
theorem Statement.Moved.commentsOut {offset : Nat} {s s' : Statement} (h : s.Moved offset s') (text : String) :
    s.CommentsOut offset { s'.withText text with commented := true, flow := .plain } where
  commented_eq := rfl
  flow_eq := rfl
  command_eq := h.command_eq
  condition_eq := h.condition_eq
  line_eq := h.line_eq
  parameters := h.parameters.imp fun p q hpq => by
    cases hpq with
    | shifted => exact .inl rfl
    | unplaced htext => exact .inr ⟨htext, rfl⟩
  evaluated_eq := h.evaluated_eq

namespace Language

/-- What is read for itself is read alike. -/
theorem Alike.refl {α : Type} (x : Except Diagnostic α) : Alike Eq x x := by
  cases x with
  | error d => exact .error
  | ok a => exact .ok rfl

section

variable (lang : Language) (condition : Conditional) (ts : List Token) (line : Nat)
  (text text' : String)

/-- An expression does not depend on the text, -/
theorem alike_readExpression_text :
    Alike (fun s s' => s' = s.withText text') (lang.readExpression condition ts line text)
      (lang.readExpression condition ts line text') := by
  refine .bind (.refl _) fun d => ?_
  dsimp only
  split
  · exact .bind (.refl _) fun _ => .bind (.refl _) fun _ => .ok rfl
  · split
    · split
      · exact .bind (.refl _) fun _ => .bind (.refl _) fun _ => .ok rfl
      · exact .error
    · exact .error

/-- nor does a script call. -/
theorem alike_readScriptCall_text (before after : List Token) (word : Token) :
    Alike (fun s s' => s' = s.withText text')
      (lang.readScriptCall condition ts before word after line text)
      (lang.readScriptCall condition ts before word after line text') :=
  .bind (.refl _) fun _ => .bind (.refl _) fun _ => .bind (.refl _) fun _ =>
    .bind (.refl _) fun _ => .bind (.refl _) fun _ => .ok rfl

/-- The text of the line only says where the statement begins and ends. -/
theorem alike_readCommand_text :
    Alike (fun s s' => s' = s.withText text') (lang.readCommand condition ts line text)
      (lang.readCommand condition ts line text') := by
  unfold readCommand
  split
  · exact .error
  · split
    · unfold readArrayAccess
      split
      · exact .error
      · exact .bind (.refl _) fun _ => .ok rfl
    · split
      · exact alike_readExpression_text ..
      · split
        · exact alike_readScriptCall_text ..
        · split
          · exact .bind (.refl _) fun _ => .ok rfl
          · exact .error

end

/-! ### Behind an asterisk

A line that begins with an asterisk and one blank has two tokens, and the second one is the text. It
is lexed again as a line of its own, and so there is no difference to that line but where the tokens
stand. -/

/-- The tokens of a line that comments a text out. -/
theorem tokens_star {text : String} {c : Char} {cs : List Char} (htext : text.toList = c :: cs)
    (hblank : isBlank c = false) :
    tokens ("* " ++ text) = [⟨.binaryOp, 0, 1, "*"⟩, ⟨.comment, 2, 2 + text.length, text⟩] := by
  have hline : ("* " ++ text).toList = '*' :: ' ' :: c :: cs := by
    rw [String.toList_append, htext]
    rfl
  have hcomment : lexFrom false .afterStar 2 (c :: cs) = [⟨.comment, 2, 2 + text.length, text⟩] := by
    have hscan : scan .afterStar c cs = (.comment, cs) := scan_eq_iff.mpr (.comment hblank rfl)
    have hlength : text.length = cs.length + 1 := by
      rw [← String.length_toList, htext, List.length_cons]
    rw [lexFrom, hscan]
    dsimp only
    rw [if_neg (by simp), List.drop_length, lexFrom_nil, ← htext, String.ofList_toList, hlength]
    rfl
  have hbehind : lexFrom false .afterStar 1 (' ' :: c :: cs) = lexFrom false .afterStar 2 (c :: cs) := by
    have htrim : (' ' :: c :: cs).takeWhile isBlank = [' '] ∧ trimStart (' ' :: c :: cs) = c :: cs := by
      have hspace : isBlank ' ' = true := by decide
      simp [trimStart, hspace, hblank]
    rw [lexFrom_trimStart, htrim.1, htrim.2]
    rfl
  rw [tokens, hline, lexFrom, scan_star]
  dsimp only
  rw [if_neg (by simp), List.length_nil, List.drop_zero]
  exact congrArg _ (hbehind.trans hcomment)

/-- A command that stands further to the right is read alike, whatever the text of its line is. -/
theorem readCommand_cases_shift {lang : Language} (hcat : lang.catalog.Reachable)
    (condition : Conditional) (ts : List Token) (offset line : Nat) (text text' : String) :
    (∃ d e, lang.readCommand condition ts line text = .error d ∧
        lang.readCommand condition (ts.map (Token.shift offset)) line text' = .error e) ∨
      ∃ s s', lang.readCommand condition ts line text = .ok s ∧
        lang.readCommand condition (ts.map (Token.shift offset)) line text' = .ok (s'.withText text') ∧
        s.Moved offset s' := by
  -- the same command behind blanks
  obtain ⟨blanks, hlength, hblanks⟩ : ∃ blanks : String, blanks.length = offset ∧
      ∀ c ∈ blanks.toList, isBlank c = true := by
    refine ⟨String.ofList (List.replicate offset ' '), by simp, fun c hc => ?_⟩
    rw [String.toList_ofList] at hc
    rw [List.eq_of_mem_replicate hc]
    decide
  subst hlength
  have hmoved := agree_readCommand line (.append hblanks text) hcat condition ts
  have halike := alike_readCommand_text lang condition (ts.map (Token.shift blanks.length)) line
    (blanks ++ text) text'
  generalize lang.readCommand condition ts line text = x at hmoved ⊢
  generalize lang.readCommand condition (ts.map (Token.shift blanks.length)) line (blanks ++ text) = y
    at hmoved halike
  generalize lang.readCommand condition (ts.map (Token.shift blanks.length)) line text' = z at halike ⊢
  cases hmoved with
  | error =>
      cases halike
      exact .inl ⟨_, _, rfl, rfl⟩
  | ok hs =>
      cases halike with
      | ok hs' => exact .inr ⟨_, _, rfl, by rw [hs'], hs⟩

section

variable {lang : Language} {line : Nat} {text : String} (hplain : isAuxiliaryLine text = false)

include hplain

/-- The text of a comment is read as a command that stands where the comment does. -/
theorem readCommented_of_plain {body : Token} (hbody : body.text = text) (text' : String) :
    lang.readCommented body line text' =
      match lang.readCommand (readConditional (tokens text)).1
        ((readConditional (tokens text)).2.map (Token.shift body.start)) line text' with
      | .ok s => some { s with commented := true, flow := .plain }
      | .error _ => none := by
  obtain ⟨first, rest, htokens, hstar⟩ := tokens_of_not_isAuxiliaryLine hplain
  rw [readCommented, hbody, readConditional_map_shift, htokens, List.map_cons]
  dsimp only
  rw [Token.isOperator_shift, hstar]
  rfl

/-- What stands behind an asterisk is read as a command exactly when it is one on a line of its own. -/
theorem readCommented_cases (hcat : lang.catalog.Reachable) {body : Token} (hbody : body.text = text)
    (text' : String) :
    (∃ problem, (lang.readLine line text).2 = some problem ∧
        lang.readCommented body line text' = none) ∨
      ∃ s, (lang.readLine line text).2 = none ∧ lang.readCommented body line text' = some s ∧
        (lang.readLine line text).1.CommentsOut body.start s := by
  rw [readLine_of_not_isAuxiliaryLine hplain, readCommented_of_plain hplain hbody]
  obtain ⟨d, e, hx, hy⟩ | ⟨s, s', hx, hy, hmoved⟩ := readCommand_cases_shift hcat
    (readConditional (tokens text)).1 (readConditional (tokens text)).2 body.start line text text'
  · rw [hx, hy]
    exact .inl ⟨d, rfl, rfl⟩
  · rw [hx, hy]
    exact .inr ⟨_, rfl, rfl, hmoved.commentsOut text'⟩

end

end Language

/-- A commented command declares no label and jumps to none. -/
theorem Script.symbols_insert_of_commented {st : Statement} (h : st.commented = true) (s : Script) :
    (s.insert st).tree.symbols = s.tree.symbols := by
  obtain ⟨p, htree, -⟩ := insert_spec s st
  have hlabel : st.isLabel = false := by simp [Statement.isLabel, h]
  have hjump : st.isLabelJump = false := by simp [Statement.isLabelJump, h]
  rw [htree, Tree.place_eq_add hlabel hjump]
  rfl

namespace Language

/-- Behind an asterisk, a text that can be read as a command on a line of its own is read as the same command,
commented out, and leaves no label behind. Any other text is a plain comment. Nothing is reported either
way. -/
theorem readLine_star {lang : Language} (hcat : lang.catalog.Reachable) (line : Nat) {text : String}
    {c : Char} {cs : List Char} (htext : text.toList = c :: cs) (hblank : isBlank c = false)
    (hstar : c ≠ '*') :
    (lang.readLine line ("* " ++ text)).2 = none ∧
    ((lang.readLine line ("* " ++ text)).1.commented = true ↔ (lang.readLine line text).2 = none) ∧
    ((lang.readLine line text).2 = none →
      (lang.readLine line text).1.CommentsOut 2 (lang.readLine line ("* " ++ text)).1 ∧
      ∀ s : Script, (s.insert (lang.readLine line ("* " ++ text)).1).tree.symbols = s.tree.symbols) ∧
    ((lang.readLine line text).2 ≠ none → ∃ d slot, lang.command CommandId.comment = .ok d ∧
      (lang.readLine line ("* " ++ text)).1 =
        Statement.ofLine (some d) .unconditional [Parameter.ofText slot text 2 (2 + text.length)] line
          ("* " ++ text)) := by
  have hplain : isAuxiliaryLine text = false := by
    have htrim : trimStart text.toList = c :: cs := by simp [trimStart, htext, hblank]
    simp [isAuxiliaryLine, htrim, hstar]
  have hread : lang.readLine line ("* " ++ text) =
      lang.readComment ⟨.binaryOp, 0, 1, "*"⟩ (some ⟨.comment, 2, 2 + text.length, text⟩) line
        ("* " ++ text) := by
    rw [readLine, tokens_star htext hblank]
    rfl
  rw [hread, readComment, Option.bind_some]
  obtain ⟨problem, hline, hcommented⟩ | ⟨s, hline, hcommented, hsame⟩ :=
    @readCommented_cases lang line text hplain hcat ⟨.comment, 2, 2 + text.length, text⟩ rfl
      ("* " ++ text)
  · obtain ⟨d, -, -, hcommand⟩ := exists_auxiliary_command hcat (.inr rfl)
    rw [hline, hcommented, hcommand]
    refine ⟨rfl, ⟨fun h => ?_, fun h => ?_⟩, fun h => ?_, fun _ => ⟨d, _, rfl, rfl⟩⟩
    · cases h
    · cases h
    · cases h
  · rw [hline, hcommented]
    refine ⟨rfl, ⟨fun _ => rfl, fun _ => hsame.commented_eq⟩,
      fun _ => ⟨hsame, Script.symbols_insert_of_commented hsame.commented_eq⟩, fun h => absurd rfl h⟩

/-- A jump that is commented out, and a comment that is no command. -/
theorem readLine_star_goto :
    let lang : Language := ⟨.builtin, .threat⟩
    (lang.readLine 3 "goto Home").1.CommentsOut 2 (lang.readLine 3 "* goto Home").1 ∧
      (∀ s : Script, (s.insert (lang.readLine 3 "* goto Home").1).tree.symbols = s.tree.symbols) ∧
      (lang.readLine 3 "* so it goes").1.commented = false := by
  intro lang
  obtain ⟨-, -, hcommand, -⟩ := @readLine_star lang .builtin 3 "goto Home" _ _ rfl (by decide)
    (by decide)
  obtain ⟨-, hiff, -, -⟩ := @readLine_star lang .builtin 3 "so it goes" _ _ rfl (by decide)
    (by decide)
  have hread : (lang.readLine 3 "goto Home").2 = none := by decide +kernel
  have hunread : (lang.readLine 3 "so it goes").2 ≠ none := by decide +kernel
  obtain ⟨hsame, hsymbols⟩ := hcommand hread
  exact ⟨hsame, hsymbols, Bool.eq_false_iff.mpr fun h => hunread (hiff.mp h)⟩

end Language

end MissionScript
