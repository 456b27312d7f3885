import MissionScript.Token.Lexer

/-!
# MissionScript.Proofs.Token.Tiling

Lexing loses nothing. The tokens of a line, blanks included, stand side by side from its first character
to its last, each of them covers at least one character, and its text is what it covers (`tiles_lex`).

Every scanner takes a prefix of the characters that are left (`scan_isPrefix`), which is all that the loop
needs. What starts an operator is read as one (`isSome_operatorTail?`), so there is always something to
read, and an operator that is a word ends with the line at the latest.
-/

namespace MissionScript

/-! ### Operators -/

/-- The characters that start an operator, a bracket or a separator. -/
def operatorSigns : List Char :=
  ['=', '<', '>', '!', '~', '-', '+', '*', '/', '&', '^', '|', '(', ')', ',', ':', '[', ']', '%', '}']

/-- The operators that are words. -/
def wordOperators : List (List Char) := [['A', 'N', 'D'], ['O', 'R'], ['M', 'O', 'D']]

/-- Does an operator start with `c`, when the characters `cs` come next? -/
def startsOperator (c : Char) (cs : List Char) : Bool :=
  operatorSigns.contains c || wordOperators.any fun word => word.isPrefixOf (c :: cs)

/-- What starts an operator is read as one, and nothing else is. -/
theorem isSome_operatorTail? (c : Char) (cs : List Char) :
    (operatorTail? c cs).isSome = startsOperator c cs := by
  unfold operatorTail?
  split
  case h_21 | h_22 | h_23 =>
    -- a word operator is there when its other letters are
    split
    · next hword => simp [startsOperator, wordOperators, List.isPrefixOf, hword]
    · next hword => simp [startsOperator, operatorSigns, wordOperators, List.isPrefixOf, hword]
  case h_24 =>
    simp_all [startsOperator, operatorSigns, wordOperators, List.isPrefixOf, @eq_comm _ _ c]
  all_goals rfl

/-! ### Tilings -/

/-- The tokens stand side by side from position `start` of the line to its end, none of them is empty, and
the text of each is what it covers. -/
def Tiles (line : List Char) : Nat → List Token → Prop
  | start, [] => start = line.length
  | start, t :: ts =>
    t.start = start ∧ t.start < t.stop ∧ t.text.toList = line.extract t.start t.stop ∧
      Tiles line t.stop ts

/-- What is scanned and what is left make up the line. -/
theorem append_scan (place : Place) (front : List Char) (c : Char) (cs : List Char) :
    (front ++ c :: (scan place c cs).2) ++ cs.drop (scan place c cs).2.length = front ++ c :: cs := by
  rw [List.append_assoc, List.cons_append, List.prefix_iff_eq_append.mp (scan_isPrefix place c cs)]

/-- A token that starts behind the characters `front` and takes a prefix of the others covers it. -/
theorem extract_front {front cs tail : List Char} (h : tail <+: cs) (c : Char) :
    (front ++ c :: cs).extract front.length (front.length + tail.length + 1) = c :: tail := by
  obtain ⟨rest, rfl⟩ := h
  rw [List.extract_eq_take_drop, List.drop_left, Nat.add_assoc, Nat.add_sub_cancel_left,
    List.take_succ_cons, List.take_left]

/-- What is lexed tiles the line from there on, whatever stands in front. -/
theorem tiles_lexFrom (place : Place) (start : Nat) (cs front : List Char)
    (hfront : front.length = start) :
    Tiles (front ++ cs) start (lexFrom true place start cs) := by
  revert front
  fun_induction lexFrom true place start cs with
  | case1 place start =>
    intro front hfront
    simp [Tiles, hfront]
  | case2 place start c cs found token rest hskip ih => exact Bool.noConfusion hskip.2
  | case3 place start c cs found token rest hskip ih =>
    intro front hfront
    refine ⟨rfl, Nat.lt_succ_of_le (Nat.le_add_right _ _), ?_, ?_⟩
    · rw [String.toList_ofList]
      subst hfront
      exact (extract_front (scan_isPrefix place c cs) c).symm
    · have hrest := ih (front ++ c :: found.2) (by simp [token, hfront, Nat.add_assoc])
      rwa [append_scan] at hrest

namespace Tiles

variable {line : List Char} {start : Nat} {ts : List Token}

theorem le_length (h : Tiles line start ts) : start ≤ line.length := by
  induction ts generalizing start with
  | nil => exact Nat.le_of_eq h
  | cons t ts ih =>
      obtain ⟨rfl, hlt, -, hrest⟩ := h
      exact Nat.le_trans (Nat.le_of_lt hlt) (ih hrest)

/-- The texts of the tokens make up what they tile. -/
theorem flatMap_text (h : Tiles line start ts) :
    ts.flatMap (·.text.toList) = line.drop start := by
  induction ts generalizing start with
  | nil =>
      rw [show start = line.length from h, List.drop_length]
      rfl
  | cons t ts ih =>
      obtain ⟨rfl, hlt, htext, hrest⟩ := h
      have hdrop : line.drop t.stop = (line.drop t.start).drop (t.stop - t.start) := by
        rw [List.drop_drop, Nat.add_sub_cancel' (Nat.le_of_lt hlt)]
      rw [List.flatMap_cons, ih hrest, htext, List.extract_eq_take_drop, hdrop, List.take_append_drop]

end Tiles

/-- The tokens of a line tile it. -/
theorem tiles_lex (line : String) : Tiles line.toList 0 (lex line) :=
  tiles_lexFrom .lineStart 0 line.toList [] rfl

/-- The tokens of a line tile it, so their texts make it up. Whatever starts an operator can be read as
one, and the line does not end before the operator does. -/
theorem lex_lossless (line : String) :
    Tiles line.toList 0 (lex line) ∧ String.join ((lex line).map (·.text)) = line ∧
      ∀ c cs, startsOperator c cs = true →
        ∃ kind tail, operatorTail? c cs = some (kind, tail) ∧ tail <+: cs := by
  refine ⟨tiles_lex line, ?_, ?_⟩
  · rw [← String.toList_inj, String.toList_join, List.flatMap_map, (tiles_lex line).flatMap_text,
      List.drop_zero]
  · intro c cs hstarts
    rw [← isSome_operatorTail?] at hstarts
    obtain ⟨⟨kind, tail⟩, hfound⟩ := Option.isSome_iff_exists.mp hstarts
    exact ⟨kind, tail, hfound, operatorTail?_isPrefix hfound⟩

/-- An operator that is a word and a string without its last apostrophe, at the end of the line. -/
theorem lex_lossless_word :
    Tiles "$ä OR 'b MOD".toList 0 (lex "$ä OR 'b MOD") ∧
      String.join ((lex "$ä OR 'b MOD").map (·.text)) = "$ä OR 'b MOD" ∧
      startsOperator 'O' ['R'] = true ∧
      ∃ kind tail, operatorTail? 'O' ['R'] = some (kind, tail) ∧ tail <+: ['R'] := by
  obtain ⟨htiles, hjoin, hoperators⟩ := lex_lossless "$ä OR 'b MOD"
  have hstarts : startsOperator 'O' ['R'] = true := by decide
  exact ⟨htiles, hjoin, hstarts, hoperators 'O' ['R'] hstarts⟩

-- a word operator needs no blank around it, and a string without its apostrophe runs to the end
example : (lex "$a ORx 'b c").map (·.text) = ["$a", " ", "OR", "x", " ", "'b c"] := by
  decide +kernel

end MissionScript
