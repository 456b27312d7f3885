import MissionScript.Proofs.Token.Indentation
import MissionScript.Proofs.Token.Tiling

/-!
# MissionScript.Proofs.Token.LookBack

What a token is depends on the tokens in front of it, and blanks are not among those that count.

`Place.after` tells where a token stands by looking back at the tokens that have been given out. The loop
never looks back, but it reads every token as if it did (`readsBack_lexFrom`): looking back tells the same
whether or not blanks have been given out. So leaving blanks out takes the blanks away and nothing else
(`lexFrom_eq_filter`).
-/

namespace MissionScript

/-! ### Looking back -/

/-- The place after the tokens `before`, told by looking back at them. -/
def Place.after (before : List Token) : Place :=
  match before.filter Token.isSignificant with
  | [] => .lineStart
  | [t] =>
    if t.isOperator "*" then .afterStar
    else if t.text == "goto" || t.text == "gosub" then .afterJump
    else .second
  | [_, _] => .third
  | _ => .later

/-- The loop keeps track of what looking back would tell. -/
theorem Place.after_append (before : List Token) (t : Token) :
    Place.after (before ++ [t]) = (Place.after before).next t := by
  by_cases hblank : t.kind = .blank
  · have hseen : (before ++ [t]).filter Token.isSignificant = before.filter Token.isSignificant := by
      simp [Token.isSignificant, hblank]
    rw [Place.next_of_blank hblank, Place.after, hseen, Place.after]
  · have hseen : (before ++ [t]).filter Token.isSignificant
        = before.filter Token.isSignificant ++ [t] := by
      simp [Token.isSignificant, hblank]
    rw [Place.after, hseen, Place.after]
    unfold Place.next
    rw [if_neg (by simpa using hblank)]
    match before.filter Token.isSignificant with
    | [] => rfl
    | [u] =>
      by_cases hstar : u.isOperator "*" = true
      · simp [hstar]
      · by_cases hjump : (u.text == "goto" || u.text == "gosub") = true
        · simp [hstar, hjump]
        · simp [hstar, hjump]
    | [_, _] => rfl
    | _ :: _ :: _ :: _ => rfl

/-- Each token is what the characters from its start on give, when the tokens in front of it are looked
back at. The tokens `before` have been given out already. -/
def ReadsBack (line : List Char) : List Token → List Token → Prop
  | _, [] => True
  | before, t :: ts =>
    (∃ c cs, line.drop t.start = c :: cs ∧
      (t.kind, t.text.toList) =
        ((scan (.after before) c cs).1, c :: (scan (.after before) c cs).2)) ∧
      ReadsBack line (before ++ [t]) ts

/-- The loop reads every token as looking back would. -/
theorem readsBack_lexFrom (keepBlanks : Bool) (place : Place) (start : Nat) (cs front : List Char)
    (before : List Token) (hfront : front.length = start) (hplace : place = .after before) :
    ReadsBack (front ++ cs) before (lexFrom keepBlanks place start cs) := by
  revert front before
  fun_induction lexFrom keepBlanks place start cs with
  | case1 place start => exact fun _ _ _ _ => trivial
  | case2 place start c cs found token rest hskip ih =>
    intro front before hfront hplace
    -- looking back past a blank tells the same
    have hnext : place.next token = .after before := by
      rw [Place.next_of_blank hskip.1, hplace]
    have hrest := ih (front ++ c :: found.2) before (by simp [token, hfront, Nat.add_assoc]) hnext
    rwa [append_scan] at hrest
  | case3 place start c cs found token rest hskip ih =>
    intro front before hfront hplace
    refine ⟨⟨c, cs, ?_, ?_⟩, ?_⟩
    · show (front ++ c :: cs).drop start = c :: cs
      rw [← hfront, List.drop_left]
    · rw [← hplace, String.toList_ofList]
    · have hnext : place.next token = .after (before ++ [token]) := by
        rw [Place.after_append, hplace]
      have hrest := ih (front ++ c :: found.2) (before ++ [token])
        (by simp [token, hfront, Nat.add_assoc]) hnext
      rwa [append_scan] at hrest

/-! ### Leaving blanks out -/

/-- Leaving blanks out takes away the blanks and nothing else. -/
theorem lexFrom_eq_filter (place : Place) (start : Nat) (cs : List Char) :
    lexFrom false place start cs = (lexFrom true place start cs).filter Token.isSignificant := by
  fun_induction lexFrom true place start cs with
  | case1 place start => rw [lexFrom_nil, List.filter_nil]
  | case2 place start c cs found token rest hskip ih => exact Bool.noConfusion hskip.2
  | case3 place start c cs found token rest hskip ih =>
    rw [lexFrom]
    dsimp only
    by_cases hblank : found.1 = .blank
    · rw [if_pos ⟨hblank, rfl⟩, List.filter_cons_of_neg (by simp [Token.isSignificant, token, hblank])]
      exact ih
    · rw [if_neg fun h => hblank h.1,
        List.filter_cons_of_pos (by simp [Token.isSignificant, token, hblank])]
      exact congrArg (token :: ·) ih

/-- With and without blanks, the tokens of a line are read by looking back at those given out before, and
the same tokens are read. -/
theorem tokens_eq_filter_lex (line : String) :
    tokens line = (lex line).filter Token.isSignificant ∧
      ReadsBack line.toList [] (lex line) ∧ ReadsBack line.toList [] (tokens line) :=
  ⟨lexFrom_eq_filter .lineStart 0 line.toList,
    readsBack_lexFrom true .lineStart 0 line.toList [] [] rfl rfl,
    readsBack_lexFrom false .lineStart 0 line.toList [] [] rfl rfl⟩

-- the blank after `goto` does not keep the next word from being a label
example : (tokens " goto x").map (·.kind) = [.keyword, .label] ∧
    (lex " goto x").map (·.kind) = [.blank, .keyword, .blank, .label] := by
  decide +kernel

end MissionScript
