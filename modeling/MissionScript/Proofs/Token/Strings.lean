import MissionScript.Parameter
import MissionScript.Proofs.Token.Extent
import MissionScript.Proofs.Token.Scanning
import MissionScript.Proofs.Token.Shape

/-!
# MissionScript.Proofs.Token.Strings

Where a string ends, and what it stands for.

Three passes have to agree on which apostrophes are escaped. The lexer goes forward and looks for the first
apostrophe that is not (`throughQuote`). The value of a string goes backward from the last apostrophe and
counts the backslashes in front of it (`endsWithQuote`), and then forward once more to drop the backslashes
that escape (`unescape`). `StringBody` says which characters may stand between two apostrophes, and each pass
is told by it.

* `throughQuote_append`, `throughQuote_cases` — the lexer stops behind a body and its apostrophe, or else at
  the end of the line.
* `endsWithQuote_append_iff`, `Unclosed.endsWithQuote_eq_false` — going backward tells the two apart.
* `unescape_escape` — a text comes back from its escaped form.

Together: a text in apostrophes is read back, and of any string the last apostrophe is dropped exactly when it
closes the string.
-/

namespace MissionScript

/-! ### Bodies of strings -/

/-- The characters between the two apostrophes of a string: every backslash has a character behind it, and no
other apostrophe is among them. -/
inductive StringBody : List Char → Prop
  | nil : StringBody []
  | plain {c : Char} {cs : List Char} (hbackslash : c ≠ '\\') (hquote : c ≠ '\'')
      (hrest : StringBody cs) : StringBody (c :: cs)
  | escaped (c : Char) {cs : List Char} (hrest : StringBody cs) : StringBody ('\\' :: c :: cs)

/-- Characters in which no apostrophe closes a string: a body, or a body and one more backslash. -/
inductive Unclosed : List Char → Prop
  | body {cs : List Char} (h : StringBody cs) : Unclosed cs
  | dangling {cs : List Char} (h : StringBody cs) : Unclosed (cs ++ ['\\'])

theorem Unclosed.plain {c : Char} {cs : List Char} (hbackslash : c ≠ '\\') (hquote : c ≠ '\'')
    (h : Unclosed cs) : Unclosed (c :: cs) := by
  cases h with
  | body hbody => exact .body (.plain hbackslash hquote hbody)
  | dangling hbody => exact .dangling (.plain hbackslash hquote hbody)

theorem Unclosed.escaped (c : Char) {cs : List Char} (h : Unclosed cs) :
    Unclosed ('\\' :: c :: cs) := by
  cases h with
  | body hbody => exact .body (.escaped c hbody)
  | dangling hbody => exact .dangling (.escaped c hbody)

/-! ### Forward: the lexer -/

theorem throughQuote_escaped (c : Char) (cs : List Char) :
    throughQuote false ('\\' :: c :: cs) = '\\' :: c :: throughQuote false cs := by
  by_cases hc : c = '\\'
  · simp [throughQuote, hc]
  · simp [throughQuote, hc]

theorem throughQuote_plain {c : Char} (hbackslash : c ≠ '\\') (hquote : c ≠ '\'') (cs : List Char) :
    throughQuote false (c :: cs) = c :: throughQuote false cs := by
  simp [throughQuote, hbackslash, hquote]

/-- The lexer stops at the apostrophe behind a body, whatever follows. -/
theorem throughQuote_append {body : List Char} (h : StringBody body) (rest : List Char) :
    throughQuote false (body ++ '\'' :: rest) = body ++ ['\''] := by
  induction h with
  | nil => rfl
  | plain hbackslash hquote hrest ih =>
      rw [List.cons_append, throughQuote_plain hbackslash hquote, ih, List.cons_append]
  | escaped c hrest ih =>
      rw [List.cons_append, List.cons_append, throughQuote_escaped, ih, List.cons_append,
        List.cons_append]

/-- The lexer stops behind a body and its apostrophe, or takes all that is left. -/
theorem throughQuote_cases (cs : List Char) :
    (∃ body, StringBody body ∧ throughQuote false cs = body ++ ['\'']) ∨
      throughQuote false cs = cs ∧ Unclosed cs := by
  fun_induction unescape cs with
  | case1 => exact .inr ⟨rfl, .body .nil⟩
  | case2 => exact .inr ⟨rfl, .dangling .nil⟩
  | case3 c cs ih =>
      rw [throughQuote_escaped]
      rcases ih with ⟨body, hbody, hcs⟩ | ⟨hcs, hunclosed⟩
      · exact .inl ⟨_, .escaped c hbody, by rw [hcs, List.cons_append, List.cons_append]⟩
      · exact .inr ⟨by rw [hcs], hunclosed.escaped c⟩
  | case4 c cs hbackslash ih =>
      by_cases hquote : c = '\''
      · subst hquote
        exact .inl ⟨[], .nil, rfl⟩
      · rw [throughQuote_plain hbackslash hquote]
        rcases ih with ⟨body, hbody, hcs⟩ | ⟨hcs, hunclosed⟩
        · exact .inl ⟨_, .plain hbackslash hquote hbody, by rw [hcs, List.cons_append]⟩
        · exact .inr ⟨by rw [hcs], hunclosed.plain hbackslash hquote⟩

/-! ### Backward: the last apostrophe -/

/-- How many backslashes stand at the end of `cs`. -/
def trailingBackslashes (cs : List Char) : Nat := (cs.reverse.takeWhile (· = '\\')).length

theorem endsWithQuote_append_iff {cs : List Char} :
    endsWithQuote (cs ++ ['\'']) = true ↔ trailingBackslashes cs % 2 = 0 := by
  simp [endsWithQuote, trailingBackslashes]

theorem trailingBackslashes_append (front cs : List Char) :
    trailingBackslashes (front ++ cs) =
      if trailingBackslashes cs = cs.length then cs.length + trailingBackslashes front
      else trailingBackslashes cs := by
  rw [trailingBackslashes, List.reverse_append, List.takeWhile_append, List.length_reverse,
    trailingBackslashes, apply_ite List.length, List.length_append, List.length_reverse]
  rfl

/-- A character that is not a backslash leaves the number as it is when it is put in front. -/
theorem trailingBackslashes_plain {c : Char} (hc : c ≠ '\\') (cs : List Char) :
    trailingBackslashes (c :: cs) = trailingBackslashes cs := by
  have hfront : trailingBackslashes [c] = 0 := by simp [trailingBackslashes, hc]
  rw [← List.singleton_append, trailingBackslashes_append, hfront]
  split
  · next hall => exact hall.symm
  · rfl

/-- An escaped character leaves an even number even and an odd one odd when it is put in front. -/
theorem trailingBackslashes_escaped (c : Char) (cs : List Char) :
    trailingBackslashes ('\\' :: c :: cs) % 2 = trailingBackslashes cs % 2 := by
  have hfront : trailingBackslashes ['\\', c] % 2 = 0 := by
    by_cases hc : c = '\\'
    · rw [hc]
      rfl
    · simp [trailingBackslashes, hc]
  rw [show '\\' :: c :: cs = ['\\', c] ++ cs from rfl, trailingBackslashes_append]
  split
  · next hall => omega
  · rfl

theorem StringBody.even_trailingBackslashes {body : List Char} (h : StringBody body) :
    trailingBackslashes body % 2 = 0 := by
  induction h with
  | nil => rfl
  | plain hbackslash hquote hrest ih => rw [trailingBackslashes_plain hbackslash, ih]
  | escaped c hrest ih => rw [trailingBackslashes_escaped, ih]

/-- In a body, an odd number of backslashes stands in front of a last apostrophe. -/
theorem StringBody.odd_trailingBackslashes {cs : List Char} (h : StringBody cs) :
    ∀ front, cs = front ++ ['\''] → trailingBackslashes front % 2 = 1 := by
  induction h with
  | nil => intro front heq; simp at heq
  | @plain c cs hbackslash hquote hrest ih =>
      intro front heq
      cases front with
      | nil => exact absurd (List.cons.inj heq).1 hquote
      | cons d front =>
          obtain ⟨rfl, hcs⟩ := List.cons.inj heq
          rw [trailingBackslashes_plain hbackslash]
          exact ih front hcs
  | @escaped c cs hrest ih =>
      intro front heq
      match front with
      | [] => simp at heq
      | [d] =>
          obtain ⟨rfl, -⟩ := List.cons.inj heq
          rfl
      | d :: e :: front =>
          obtain ⟨rfl, hrest'⟩ := List.cons.inj heq
          rw [trailingBackslashes_escaped]
          exact ih front (List.cons.inj hrest').2

theorem Unclosed.endsWithQuote_eq_false {cs : List Char} (h : Unclosed cs) :
    endsWithQuote cs = false := by
  cases h with
  | @body cs hbody =>
      by_cases hlast : cs.getLast? = some '\''
      · obtain ⟨front, rfl⟩ := List.getLast?_eq_some_iff.mp hlast
        have hodd := hbody.odd_trailingBackslashes front rfl
        rw [Bool.eq_false_iff, Ne, endsWithQuote_append_iff]
        omega
      · simp [endsWithQuote, hlast]
  | dangling hbody => simp [endsWithQuote]

/-- Of what the lexer has taken, going backward tells whether it is closed. -/
theorem endsWithQuote_throughQuote_iff (cs : List Char) :
    endsWithQuote (throughQuote false cs) = true ↔
      ∃ body, StringBody body ∧ throughQuote false cs = body ++ ['\''] := by
  constructor
  · intro hends
    rcases throughQuote_cases cs with hclosed | ⟨hcs, hunclosed⟩
    · exact hclosed
    · rw [hcs, hunclosed.endsWithQuote_eq_false] at hends
      cases hends
  · rintro ⟨body, hbody, hcs⟩
    rw [hcs, endsWithQuote_append_iff]
    exact hbody.even_trailingBackslashes

/-! ### Forward again: the characters that a string stands for -/

theorem unescape_escaped (c : Char) (cs : List Char) :
    unescape ('\\' :: c :: cs) = c :: unescape cs := by
  rw [unescape.eq_def]
  rfl

theorem unescape_plain {c : Char} (hc : c ≠ '\\') (cs : List Char) :
    unescape (c :: cs) = c :: unescape cs := by
  rw [unescape.eq_def]
  dsimp only
  rw [if_neg hc]

/-- The characters that stand for `c` in a string. -/
def escapeChar (c : Char) : List Char := if c = '\\' ∨ c = '\'' then ['\\', c] else [c]

/-- The characters that stand for `cs` in a string. -/
def escape (cs : List Char) : List Char := cs.flatMap escapeChar

theorem stringBody_escape (cs : List Char) : StringBody (escape cs) := by
  induction cs with
  | nil => exact .nil
  | cons c cs ih =>
      rw [escape, List.flatMap_cons, escapeChar]
      split
      · exact .escaped c ih
      · next hc =>
        rw [not_or] at hc
        exact .plain hc.1 hc.2 ih

/-- A text comes back from its escaped form. -/
theorem unescape_escape (cs : List Char) : unescape (escape cs) = cs := by
  induction cs with
  | nil => rfl
  | cons c cs ih =>
      rw [escape] at ih
      rw [escape, List.flatMap_cons, escapeChar]
      split
      · rw [List.cons_append, List.cons_append, List.nil_append, unescape_escaped, ih]
      · next hc =>
        rw [not_or] at hc
        rw [List.cons_append, List.nil_append, unescape_plain hc.1, ih]

/-- A last apostrophe stands for itself, escaped or not. -/
theorem unescape_append_quote (cs : List Char) : unescape (cs ++ ['\'']) = unescape cs ++ ['\''] := by
  fun_induction unescape cs with
  | case1 => rfl
  | case2 => rfl
  | case3 c cs ih => rw [List.cons_append, List.cons_append, unescape_escaped, ih, List.cons_append]
  | case4 c cs hc ih => rw [List.cons_append, unescape_plain hc, ih, List.cons_append]

/-! ### Strings on a line -/

/-- The text `s` as a string in apostrophes. -/
def quote (s : String) : String := String.ofList ('\'' :: (escape s.toList ++ ['\'']))

namespace Token

/-- The text `s` in apostrophes at the start of a line. -/
def quoted (s : String) : Token := ⟨.string, 0, (quote s).length, quote s⟩

variable (slot : Slot) (t : Token)

/-- The token is a string that ends with an apostrophe which is not escaped. -/
def Closed : Prop := ∃ body, StringBody body ∧ t.text.toList = '\'' :: (body ++ ['\''])

/-- The token is read as the characters `cs` where backslashes escape. -/
def Denotes (cs : List Char) : Prop :=
  (Parameter.ofToken slot t).map (·.value) = .ok (.str (String.ofList (unescape cs)))

/-- The token ends with an apostrophe, and it is read without it. -/
def DropsQuote : Prop := ∃ cs, t.text.toList = '\'' :: (cs ++ ['\'']) ∧ t.Denotes slot cs

end Token

/-- Every token of a line is scanned from where it starts on. -/
theorem ReadsBack.exists_scan {line : List Char} {before ts : List Token} {t : Token}
    (h : ReadsBack line before ts) (ht : t ∈ ts) :
    ∃ place c cs, line.drop t.start = c :: cs ∧ t.kind = (scan place c cs).1 ∧
      t.text.toList = c :: (scan place c cs).2 := by
  induction ts generalizing before with
  | nil => cases ht
  | cons u us ih =>
      obtain ⟨⟨c, cs, hdrop, hscan⟩, hrest⟩ := h
      rcases List.mem_cons.mp ht with rfl | hmem
      · obtain ⟨hkind, htext⟩ := Prod.mk.inj hscan
        exact ⟨_, c, cs, hdrop, hkind, htext⟩
      · exact ih hrest hmem

theorem mem_lex_of_mem_lexFrom {keepBlanks : Bool} {line : String} {t : Token}
    (h : t ∈ lexFrom keepBlanks .lineStart 0 line.toList) : t ∈ lex line := by
  cases keepBlanks with
  | true => exact h
  | false => exact (tokens_sublist_lex line).subset h

/-- A string is an apostrophe and what the lexer takes behind it, and when that is all there is, the string
ends with the line. -/
theorem exists_throughQuote {line : String} {t : Token} (h : t ∈ lex line) (hkind : t.kind = .string) :
    ∃ cs, t.text.toList = '\'' :: throughQuote false cs ∧
      (throughQuote false cs = cs → t.stop = line.length) := by
  obtain ⟨place, c, cs, hdrop, hscan, htext⟩ :=
    (tokens_eq_filter_lex line).2.1.exists_scan h
  obtain ⟨rfl, htail⟩ := scanned_of_kind (hscan.symm.trans hkind)
  refine ⟨cs, by rw [htext, htail], fun hall => ?_⟩
  obtain ⟨-, -, hstop⟩ := (tiles_lex line).onLine t h
  have hlength := congrArg List.length hdrop
  rw [List.length_drop, String.length_toList, List.length_cons] at hlength
  rw [hstop, ← String.length_toList, htext, htail, hall, List.length_cons]
  omega

/-- The value of a string is what stands between its apostrophes, or all that stands behind the first one. -/
theorem Token.denotes_of_string {t : Token} (slot : Slot) {cs : List Char} (hkind : t.kind = .string)
    (htext : t.text.toList = '\'' :: cs) :
    t.Denotes slot (if endsWithQuote cs then cs.dropLast else cs) := by
  rw [Token.Denotes, Parameter.ofToken, Parameter.read, hkind, htext]
  rfl

theorem toList_quote (s : String) : (quote s).toList = '\'' :: (escape s.toList ++ ['\'']) :=
  String.toList_ofList

/-- A text in apostrophes is the first token of its line, whatever follows. -/
theorem head?_tokens_quote (s rest : String) : (tokens (quote s ++ rest)).head? = some (.quoted s) := by
  have hline : (quote s ++ rest).toList = '\'' :: (escape s.toList ++ '\'' :: rest.toList) := by
    rw [String.toList_append, toList_quote, List.cons_append, List.append_assoc,
      List.singleton_append]
  have hscan : scan .lineStart '\'' (escape s.toList ++ '\'' :: rest.toList) =
      (.string, escape s.toList ++ ['\'']) := by
    rw [← throughQuote_append (stringBody_escape s.toList) rest.toList, scan_eq_iff]
    exact .string (by decide) rfl
  have hlength : (quote s).length = 0 + (escape s.toList ++ ['\'']).length + 1 := by
    rw [← String.length_toList, toList_quote, List.length_cons, Nat.zero_add]
  rw [tokens, hline, lexFrom]
  dsimp only
  rw [hscan, if_neg (by simp), List.head?_cons, Token.quoted, hlength]
  rfl

/-- A text in apostrophes stands for the text. -/
theorem Token.denotes_quoted (slot : Slot) (s : String) :
    (Token.quoted s).Denotes slot (escape s.toList) := by
  have hends : endsWithQuote (escape s.toList ++ ['\'']) = true :=
    endsWithQuote_append_iff.mpr (stringBody_escape s.toList).even_trailingBackslashes
  have hdenotes := Token.denotes_of_string slot (t := .quoted s) rfl (toList_quote s)
  rwa [if_pos hends, List.dropLast_concat] at hdenotes

/-- The last apostrophe is dropped from what going backward tells to be closed. -/
theorem Token.dropsQuote_iff {t : Token} (slot : Slot) {cs : List Char} (hkind : t.kind = .string)
    (htext : t.text.toList = '\'' :: cs) : t.DropsQuote slot ↔ endsWithQuote cs = true := by
  have hdenotes := Token.denotes_of_string slot hkind htext
  constructor
  · rintro ⟨front, hfront, hdrops⟩
    obtain ⟨-, rfl⟩ := List.cons.inj (htext.symm.trans hfront)
    refine Decidable.byContradiction fun hends => ?_
    -- a text that is read with its last apostrophe is longer than one that is read without it
    rw [if_neg hends] at hdenotes
    have hvalue := Value.str.inj (Except.ok.inj (hdrops.symm.trans hdenotes))
    have hlength := congrArg String.length hvalue
    simp [unescape_append_quote] at hlength
  · intro hends
    rw [if_pos hends] at hdenotes
    have hlast : cs.getLast? = some '\'' := by
      simp only [endsWithQuote, Bool.and_eq_true, decide_eq_true_eq] at hends
      exact hends.1
    obtain ⟨front, rfl⟩ := List.getLast?_eq_some_iff.mp hlast
    rw [List.dropLast_concat] at hdenotes
    exact ⟨front, htext, hdenotes⟩

/-- A text between apostrophes, with a backslash in front of every backslash and apostrophe in it, is read
as the first token of the line and stands for the text, whatever follows. And of any string on any line, the
last apostrophe is dropped exactly when the lexer has stopped at one that is not escaped; if not, the lexer
has stopped at the end of the line, and all that is there is read. -/
theorem quote_denotes_and_dropsQuote_iff :
    (∀ (s rest : String) (slot : Slot), (tokens (quote s ++ rest)).head? = some (.quoted s) ∧
      (Parameter.ofToken slot (.quoted s)).map (·.value) = .ok (.str s)) ∧
    ∀ (keepBlanks : Bool) (line : String), ∀ t ∈ lexFrom keepBlanks .lineStart 0 line.toList,
      t.kind = .string → ∀ slot, (t.DropsQuote slot ↔ t.Closed) ∧
        (¬ t.Closed → t.stop = line.length ∧ ∃ cs, t.text.toList = '\'' :: cs ∧ t.Denotes slot cs) := by
  constructor
  · intro s rest slot
    have hdenotes := Token.denotes_quoted slot s
    rw [Token.Denotes, unescape_escape, String.ofList_toList] at hdenotes
    exact ⟨head?_tokens_quote s rest, hdenotes⟩
  · intro keepBlanks line t ht hkind slot
    obtain ⟨cs, htext, hstop⟩ := exists_throughQuote (mem_lex_of_mem_lexFrom ht) hkind
    have hclosed : t.Closed ↔ endsWithQuote (throughQuote false cs) = true := by
      rw [endsWithQuote_throughQuote_iff, Token.Closed, htext]
      simp only [List.cons.injEq, true_and]
    refine ⟨(Token.dropsQuote_iff slot hkind htext).trans hclosed.symm, fun hopen => ?_⟩
    rw [hclosed] at hopen
    have hdenotes := Token.denotes_of_string slot hkind htext
    rw [if_neg hopen] at hdenotes
    rcases throughQuote_cases cs with ⟨body, hbody⟩ | ⟨hall, -⟩
    · exact absurd ((endsWithQuote_throughQuote_iff cs).mpr ⟨body, hbody⟩) hopen
    · exact ⟨hstop hall, _, htext, hdenotes⟩

/-- A text with an apostrophe and a backslash, a closed string that is read without its last apostrophe, and
one whose last apostrophe is escaped. -/
theorem quote_denotes_and_dropsQuote_iff_escaped :
    quote "it's \\" = "'it\\'s \\\\'" ∧ (tokens (quote "it's \\" ++ "x")).head? = some (.quoted "it's \\") ∧
      (let t : Token := ⟨.string, 1, 6, "'a\\\\'"⟩
       t ∈ lexFrom true .lineStart 0 " 'a\\\\'b".toList ∧ t.kind = .string ∧ t.DropsQuote (.operand 0)) ∧
      (let t : Token := ⟨.string, 0, 4, "'a\\'"⟩
       t ∈ lexFrom false .lineStart 0 "'a\\'".toList ∧ t.kind = .string ∧ ¬ t.Closed ∧ t.stop = 4) := by
  obtain ⟨hquote, hstrings⟩ := quote_denotes_and_dropsQuote_iff
  refine ⟨by decide +kernel, (hquote "it's \\" "x" (.operand 0)).1, ?_, ?_⟩
  · have hmem : (⟨.string, 1, 6, "'a\\\\'"⟩ : Token) ∈ lexFrom true .lineStart 0 " 'a\\\\'b".toList := by
      decide +kernel
    have hbody : StringBody ['a', '\\', '\\'] := .plain (by decide) (by decide) (.escaped _ .nil)
    exact ⟨hmem, rfl, (hstrings true _ _ hmem rfl (.operand 0)).1.mpr ⟨_, hbody, by decide⟩⟩
  · have hmem : (⟨.string, 0, 4, "'a\\'"⟩ : Token) ∈ lexFrom false .lineStart 0 "'a\\'".toList := by
      decide +kernel
    have hopen : ¬ (⟨.string, 0, 4, "'a\\'"⟩ : Token).Closed := by
      rintro ⟨body, hbody, htext⟩
      have hcs : ['a', '\\'] ++ ['\''] = body ++ ['\''] := (List.cons.inj htext).2
      obtain rfl := List.append_cancel_right hcs
      cases hbody with
      | plain _ _ hrest => cases hrest with
        | plain hbackslash => exact hbackslash rfl
    exact ⟨hmem, rfl, hopen, ((hstrings false _ _ hmem rfl (.operand 0)).2 hopen).1⟩

-- a closed string ends the token, and an escaped apostrophe at the end of the line does not close one
example : (tokens "'a\\\\' 'b\\'").map (·.text) = ["'a\\\\'", "'b\\'"] ∧
    unquote "'a\\\\'".toList = ['a', '\\'] ∧ unquote "'b\\'".toList = ['b', '\''] := by
  decide +kernel

end MissionScript
