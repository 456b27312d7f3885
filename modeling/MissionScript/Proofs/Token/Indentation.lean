import MissionScript.Proofs.Token.Scanning

/-!
# MissionScript.Proofs.Token.Indentation

Blanks in front of a line move its tokens and do nothing else.

* `kind_scan_eq_blank_iff` — a token is blank exactly when its first character is.
* `lexFrom_shift` — lexing further to the right gives the same tokens further to the right.
* `Indented.tokens_eq` — the tokens of a line with blanks in front of it are those of the line, moved by
  the number of the blanks.
-/

namespace MissionScript

open Text

/-! ### Blank tokens -/

theorem scan_blank {place : Place} {c : Char} {cs : List Char} (h : isBlank c = true) :
    scan place c cs = (.blank, cs.takeWhile isBlank) := by
  rw [scan, if_pos h]

/-- A token is blank exactly when its first character is. -/
theorem kind_scan_eq_blank_iff {place : Place} {c : Char} {cs : List Char} :
    (scan place c cs).1 = .blank ↔ isBlank c = true :=
  ⟨fun h => (scanned_of_kind h).1, fun h => by rw [scan_blank h]⟩

/-! ### Moving to the right -/

namespace Token

variable (offset : Nat) (t : Token)

@[simp] theorem isKeyword_shift (text : String) :
    (t.shift offset).isKeyword text = t.isKeyword text := rfl

@[simp] theorem isOperatorKind_shift : (t.shift offset).isOperatorKind = t.isOperatorKind := rfl

@[simp] theorem isOperator_shift (text : String) :
    (t.shift offset).isOperator text = t.isOperator text := rfl

@[simp] theorem isWord_shift (text : String) : (t.shift offset).isWord text = t.isWord text := rfl

@[simp] theorem isOperand_shift : (t.shift offset).isOperand = t.isOperand := rfl

theorem shift_shift (offset' : Nat) :
    (t.shift offset).shift offset' = t.shift (offset + offset') := by
  simp [shift, Nat.add_assoc]

/-- Where tokens stand does not show in their shape. -/
theorem shape_map_shift (ts : List Token) : shape (ts.map (shift offset)) = shape ts := by
  rw [shape, shape, List.filter_map, List.map_map]
  rfl

theorem extent_map_shift {ts : List Token} (h : ts ≠ []) :
    extent (ts.map (shift offset)) = ((extent ts).1 + offset, (extent ts).2 + offset) := by
  obtain ⟨first, rest, rfl⟩ := List.exists_cons_of_ne_nil h
  rw [extent, extent, List.head?_map, List.getLast?_map, List.getLast?_eq_some_getLast h]
  rfl

end Token

theorem Place.next_of_blank {t : Token} (h : t.kind = .blank) (place : Place) :
    place.next t = place := by
  unfold Place.next
  rw [h]
  rfl

/-- What stands on the line matters, not where. -/
theorem lexFrom_shift (keepBlanks : Bool) (place : Place) (start offset : Nat) (cs : List Char) :
    lexFrom keepBlanks place (start + offset) cs
      = (lexFrom keepBlanks place start cs).map (Token.shift offset) := by
  have hstop : ∀ start length : Nat, start + offset + length + 1 = start + length + 1 + offset := by
    omega
  fun_induction lexFrom keepBlanks place start cs with
  | case1 => rw [lexFrom_nil, List.map_nil]
  | case2 place start c cs found token rest hskip ih =>
      rw [lexFrom]
      dsimp only
      rw [if_pos hskip, ← ih, hstop]
      rfl
  | case3 place start c cs found token rest hskip ih =>
      rw [lexFrom]
      dsimp only
      rw [if_neg hskip, List.map_cons, ← ih, hstop]
      rfl

/-! ### Blanks in front -/

/-- The blanks at the front of what is lexed are left out. -/
theorem lexFrom_trimStart (place : Place) (start : Nat) (cs : List Char) :
    lexFrom false place start cs
      = lexFrom false place (start + (cs.takeWhile isBlank).length) (trimStart cs) := by
  cases cs with
  | nil => rfl
  | cons c cs =>
      by_cases hblank : isBlank c = true
      · rw [lexFrom, scan_blank hblank, trimStart, List.dropWhile_cons_of_pos hblank,
          List.takeWhile_cons_of_pos hblank]
        dsimp only
        rw [if_pos ⟨rfl, rfl⟩, Place.next_of_blank rfl]
        have hdrop := @List.drop_left Char (cs.takeWhile isBlank) (cs.dropWhile isBlank)
        rw [List.takeWhile_append_dropWhile] at hdrop
        rw [hdrop]
        rfl
      · rw [trimStart, List.dropWhile_cons_of_neg hblank, List.takeWhile_cons_of_neg hblank]
        rfl

theorem not_isBlank_of_trimStart {cs rest : List Char} {c : Char} (h : trimStart cs = c :: rest) :
    ¬ isBlank c = true := by
  have hhead := List.head?_dropWhile_not isBlank cs
  rw [show cs.dropWhile isBlank = c :: rest from h] at hhead
  simpa using hhead

/-- The first token of a line that is not blank. -/
theorem tokens_of_trimStart {text : String} {c : Char} {cs : List Char}
    (h : trimStart text.toList = c :: cs) :
    ∃ first rest, tokens text = first :: rest ∧ first.kind = (scan .lineStart c cs).1 ∧
      first.text = String.ofList (c :: (scan .lineStart c cs).2) := by
  have hblank := not_isBlank_of_trimStart h
  rw [tokens, lexFrom_trimStart, h, lexFrom]
  dsimp only
  rw [if_neg fun hskip => hblank (kind_scan_eq_blank_iff.mp hskip.1)]
  exact ⟨_, _, rfl, rfl, rfl⟩

theorem tokens_of_trimStart_nil {text : String} (h : trimStart text.toList = []) :
    tokens text = [] := by
  rw [tokens, lexFrom_trimStart, h, lexFrom_nil]

/-- The second line is the first one behind `offset` blanks. -/
def Indented (offset : Nat) (text text' : String) : Prop :=
  ∃ blanks : List Char, text'.toList = blanks ++ text.toList ∧ blanks.length = offset ∧
    ∀ c ∈ blanks, isBlank c = true

namespace Indented

variable {offset : Nat} {text text' : String}

theorem append {blanks : String} (h : ∀ c ∈ blanks.toList, isBlank c = true) (text : String) :
    Indented blanks.length text (blanks ++ text) :=
  ⟨blanks.toList, String.toList_append, String.length_toList, h⟩

theorem trimStart_eq (h : Indented offset text text') :
    trimStart text'.toList = trimStart text.toList := by
  obtain ⟨blanks, htext, -, hblanks⟩ := h
  rw [htext]
  exact List.dropWhile_append_of_pos hblanks

theorem trim_eq (h : Indented offset text text') : trim text' = trim text := by
  rw [trim, trim, h.trimStart_eq]

theorem length_takeWhile (h : Indented offset text text') :
    (text'.toList.takeWhile isBlank).length = (text.toList.takeWhile isBlank).length + offset := by
  obtain ⟨blanks, htext, hlength, hblanks⟩ := h
  rw [htext, List.takeWhile_append_of_pos hblanks, List.length_append, hlength, Nat.add_comm]

theorem drop_eq (h : Indented offset text text') (n : Nat) :
    text'.toList.drop (n + offset) = text.toList.drop n := by
  obtain ⟨blanks, htext, hlength, -⟩ := h
  rw [htext, Nat.add_comm, ← hlength, List.drop_length_add_append]

/-- Blanks in front move the tokens of a line by their number. -/
theorem tokens_eq (h : Indented offset text text') :
    tokens text' = (tokens text).map (Token.shift offset) := by
  rw [tokens, tokens, lexFrom_trimStart, h.trimStart_eq, h.length_takeWhile,
    lexFrom_trimStart .lineStart 0 text.toList, ← lexFrom_shift, Nat.add_assoc]

end Indented

end MissionScript
