import Mathlib.Data.List.Forall2
import MissionScript.Proofs.Token.Shape
import MissionScript.Proofs.Token.Strings

/-!
# MissionScript.Proofs.Token.Templates

Filling in a template keeps its shape.

A template has variables where a line written from it has values. What stands in front of a token decides how
it is read, and a value may be longer than the variable and have blanks and operators in it. But every scanner
looks at what it takes and at one more character (`Scans.congr`), and a `Literal` is one token wherever it
stands (`Literal.scans`), unless it is part of a comment. So token by token the line looks like the template
(`Lexes.exists_fillTokens`): the tokens that are filled are values in both, and the others are the same.
-/

namespace MissionScript

open Text

/-! ### How far a scanner looks

Each scanner takes characters as long as they are of its class, or up to a closing character. So it
has seen what it takes and the one character behind, and to what comes after that it is blind. The
lemmas say this for each way of taking characters, and `Scans.congr` for all scanners. -/

/-- The characters taken are all of the class, and the next one is not. -/
theorem takeWhile_append_iff {p : Char → Bool} {tail rest : List Char} :
    (tail ++ rest).takeWhile p = tail ↔
      (∀ c ∈ tail, p c = true) ∧ ∀ c ∈ rest.head?, p c = false := by
  constructor
  · intro h
    have hall : ∀ c ∈ tail, p c = true := fun c hc =>
      List.all_eq_true.mp List.all_takeWhile c (h.symm ▸ hc)
    rw [List.takeWhile_append_of_pos hall, List.append_right_eq_self] at h
    refine ⟨hall, fun c hc => ?_⟩
    obtain ⟨ds, rfl⟩ := List.head?_eq_some_iff.mp hc
    rw [List.takeWhile_cons] at h
    split at h
    · cases h
    · next hp => exact Bool.eq_false_iff.mpr hp
  · rintro ⟨hall, hhead⟩
    rw [List.takeWhile_append_of_pos hall, List.append_right_eq_self]
    cases rest with
    | nil => rfl
    | cons d ds => rw [List.takeWhile_cons_of_neg (by simp [hhead d rfl])]

theorem throughClose_append {close : Char} {body : List Char} (h : close ∉ body) (rest : List Char) :
    throughClose close (body ++ close :: rest) = body ++ [close] := by
  induction body with
  | nil => simp [throughClose]
  | cons c body ih =>
      rw [List.mem_cons, not_or] at h
      rw [List.cons_append, throughClose, if_neg (Ne.symm h.1), ih h.2, List.cons_append]

theorem throughClose_cases (close : Char) (cs : List Char) :
    (∃ body, close ∉ body ∧ throughClose close cs = body ++ [close]) ∨
      throughClose close cs = cs ∧ close ∉ cs := by
  induction cs with
  | nil => exact .inr ⟨rfl, List.not_mem_nil⟩
  | cons c cs ih =>
      by_cases hc : c = close
      · exact .inl ⟨[], List.not_mem_nil, by simp [throughClose, hc]⟩
      · rw [throughClose, if_neg hc]
        rcases ih with ⟨body, hbody, hcs⟩ | ⟨hcs, hopen⟩
        · exact .inl ⟨c :: body, by simp [hbody, Ne.symm hc], by rw [hcs, List.cons_append]⟩
        · exact .inr ⟨by rw [hcs], by simp [hopen, Ne.symm hc]⟩

section Congr

variable {c : Char} {cs rest rest' : List Char} (hhead : rest'.head? = rest.head?)

include hhead

theorem takeWhile_congr {p : Char → Bool} (hcs : cs.takeWhile p ++ rest = cs) :
    (cs.takeWhile p ++ rest').takeWhile p = cs.takeWhile p := by
  rw [takeWhile_append_iff, hhead, ← takeWhile_append_iff, hcs]

theorem throughClose_congr {close : Char} (hcs : throughClose close cs ++ rest = cs) :
    throughClose close (throughClose close cs ++ rest') = throughClose close cs := by
  rcases throughClose_cases close cs with ⟨body, hbody, hclosed⟩ | ⟨hall, -⟩
  · rw [hclosed, List.append_assoc, List.singleton_append, throughClose_append hbody]
  · rw [hall, List.append_right_eq_self] at hcs
    rw [hcs, List.head?_nil, List.head?_eq_none_iff] at hhead
    rw [hhead, List.append_nil, hall, hall]

theorem throughQuote_congr (hcs : throughQuote false cs ++ rest = cs) :
    throughQuote false (throughQuote false cs ++ rest') = throughQuote false cs := by
  rcases throughQuote_cases cs with ⟨body, hbody, hclosed⟩ | ⟨hall, -⟩
  · rw [hclosed, List.append_assoc, List.singleton_append, throughQuote_append hbody]
  · rw [hall, List.append_right_eq_self] at hcs
    rw [hcs, List.head?_nil, List.head?_eq_none_iff] at hhead
    rw [hhead, List.append_nil, hall, hall]

theorem operatorTail?_congr {kind : TokenKind} {tail : List Char}
    (h : operatorTail? c (tail ++ rest) = some (kind, tail)) :
    operatorTail? c (tail ++ rest') = some (kind, tail) := by
  have hhead' : (tail ++ rest').head? = (tail ++ rest).head? := by
    rw [List.head?_append, List.head?_append, hhead]
  unfold operatorTail? optionally at h ⊢
  rw [hhead']
  split at h
  case h_21 | h_22 | h_23 =>
    split at h
    · cases h
      simp
    · cases h
  case h_24 => cases h
  all_goals exact h

theorem startsOperator_congr (hcs : cs.takeWhile isWordChar ++ rest = cs)
    (h : startsOperator c cs = false) :
    startsOperator c (cs.takeWhile isWordChar ++ rest') = false := by
  have hword : ∀ word ∈ wordOperators, word.all isWordChar = true := by decide
  rw [startsOperator, Bool.or_eq_false_iff, List.any_eq_false] at h ⊢
  refine ⟨h.1, fun word hmem hprefix => h.2 word hmem ?_⟩
  rw [List.isPrefixOf_iff_prefix] at hprefix ⊢
  obtain ⟨rest'', heq⟩ := hprefix
  -- a word operator is made of the characters of a word, so it does not go on behind them
  have htake := congrArg (List.takeWhile isWordChar) heq
  rw [List.takeWhile_append_of_pos (List.all_eq_true.mp (hword word hmem)), List.takeWhile_cons] at htake
  have hprefix : word <+: c :: cs.takeWhile isWordChar := by
    split at htake
    · rw [takeWhile_congr hhead hcs] at htake
      exact ⟨_, htake⟩
    · rw [List.append_eq_nil_iff] at htake
      exact htake.1 ▸ List.nil_prefix
  exact hprefix.trans (List.cons_prefix_cons.mpr ⟨rfl, List.takeWhile_prefix _⟩)

end Congr

/-- What a token is scanned as does not depend on more than the character behind it. -/
theorem Scans.congr {place : Place} {c : Char} {kind : TokenKind} {tail rest rest' : List Char}
    (h : Scans place c (tail ++ rest) kind tail) (hhead : rest'.head? = rest.head?) :
    Scans place c (tail ++ rest') kind tail := by
  have hhead' : (tail ++ rest').head? = (tail ++ rest).head? := by
    rw [List.head?_append, List.head?_append, hhead]
  -- each token ends before `rest`, so it has seen of `rest` at most the first character
  generalize hcs : tail ++ rest = cs at h hhead'
  cases h with
  | blank hblank =>
      have hscans : Scans place c (cs.takeWhile isBlank ++ rest') .blank _ := .blank hblank
      rwa [takeWhile_congr hhead hcs] at hscans
  | comment hblank hplace =>
      rw [List.append_right_eq_self] at hcs
      rw [hcs, List.head?_nil, List.head?_eq_none_iff] at hhead
      rw [hhead, List.append_nil]
      exact .comment hblank hplace
  | number hplace hfirst =>
      have hscans := Scans.number hplace (hhead' ▸ hfirst)
      rwa [takeWhile_congr hhead hcs] at hscans
  | sigil hplace hc hname =>
      have htake := takeWhile_congr hhead (p := isNameChar) (by rw [hname]; exact hcs)
      rw [hname] at htake
      exact .sigil hplace hc htake
  | var hplace hc hname =>
      have htake := takeWhile_congr hhead hcs
      have hscans := Scans.var hplace hc (htake.symm ▸ hname)
      rwa [htake] at hscans
  | object hplace hc =>
      have hscans : Scans place c (throughClose '}' cs ++ rest') .object _ := .object hplace hc
      rwa [throughClose_congr hhead hcs] at hscans
  | string hplace hc =>
      have hscans : Scans place c (throughQuote false cs ++ rest') .string _ := .string hplace hc
      rwa [throughQuote_congr hhead hcs] at hscans
  | constant hplace hc hletter =>
      have hscans := Scans.constant hplace hc (hhead' ▸ hletter)
      rwa [throughClose_congr hhead hcs] at hscans
  | operator hplace hnumber hconstant hfound =>
      subst hcs
      exact .operator hplace (hhead' ▸ hnumber) (hhead' ▸ hconstant) (operatorTail?_congr hhead hfound)
  | word hplace hblank hdigit hc hfound =>
      have hfound' : operatorTail? c (cs.takeWhile isWordChar ++ rest') = none := by
        rw [← Option.not_isSome_iff_eq_none, isSome_operatorTail?, Bool.not_eq_true] at hfound ⊢
        exact startsOperator_congr hhead hcs hfound
      have hdrop := @List.drop_left _ (cs.takeWhile isWordChar) rest
      rw [hcs] at hdrop
      have hscans := Scans.word hplace hblank hdigit hc hfound'
      rw [takeWhile_congr hhead hcs, List.drop_left, hhead] at hscans
      rwa [hdrop]

/-- Blanks are taken up to whatever is not blank. -/
theorem Scans.blank_append {place : Place} {c : Char} {tail rest rest' : List Char}
    (h : Scans place c (tail ++ rest) .blank tail) (hrest' : ∀ d ∈ rest'.head?, isBlank d = false) :
    Scans place c (tail ++ rest') .blank tail := by
  obtain ⟨hblank, htail⟩ := h.scanned
  obtain ⟨hall, -⟩ := takeWhile_append_iff.mp htail.symm
  have hscans : Scans place c (tail ++ rest') .blank _ := .blank hblank
  rwa [takeWhile_append_iff.mpr ⟨hall, hrest'⟩] at hscans

/-! ### Literals

A variable may be replaced by any value. The forms of values are those that a scanner takes as a
whole: a closing bracket or apostrophe may only stand at the end, and in a string one that is
escaped does not count. -/

/-- The characters of a value that can be written where a template has a variable. -/
inductive Literal : List Char → Prop
  | var {name : List Char} (hne : name ≠ []) (hname : ∀ c ∈ name, isNameChar c = true) :
      Literal ('$' :: name)
  | number {digits : List Char} (hne : digits ≠ []) (hdigits : ∀ c ∈ digits, c.isDigit = true) :
      Literal digits
  | negative {digits : List Char} (hne : digits ≠ []) (hdigits : ∀ c ∈ digits, c.isDigit = true) :
      Literal ('-' :: digits)
  | string {body : List Char} (hbody : StringBody body) : Literal ('\'' :: (body ++ ['\'']))
  | object {body : List Char} (hbody : '}' ∉ body) : Literal ('{' :: (body ++ ['}']))
  | constant {c : Char} {body : List Char} (hletter : isLetter c = true) (hbody : ']' ∉ c :: body) :
      Literal ('[' :: c :: (body ++ [']']))
  | null : Literal ['n', 'u', 'l', 'l']

/-- The kinds of token that a literal can be. -/
def TokenKind.isLiteral : TokenKind → Bool
  | .var | .number | .string | .object | .constant | .null => true
  | _ => false

/-- The characters of a class without blanks are taken up to the blank behind them. -/
theorem takeWhile_of_blank {p : Char → Bool} (hp : ∀ c, p c = true → isBlank c = false)
    {tail rest : List Char} (hall : ∀ c ∈ tail, p c = true)
    (hrest : ∀ c ∈ rest.head?, isBlank c = true) : (tail ++ rest).takeWhile p = tail := by
  refine takeWhile_append_iff.mpr ⟨hall, fun c hc => Bool.eq_false_iff.mpr fun hpc => ?_⟩
  exact Bool.false_ne_true ((hp c hpc).symm.trans (hrest c hc))

theorem not_isBlank_of_isWordChar (c : Char) (h : isWordChar c = true) : isBlank c = false := by
  simp only [isWordChar, Bool.and_eq_true, Bool.not_eq_true'] at h
  exact h.2

/-- A literal is one token wherever it is not part of a comment, when a blank or nothing follows. -/
theorem Literal.scans {literal : List Char} (h : Literal literal) {place : Place}
    (hplace : place ≠ .afterStar) {rest : List Char} (hrest : ∀ c ∈ rest.head?, isBlank c = true) :
    ∃ c tail kind, literal = c :: tail ∧ c ≠ 'g' ∧ isBlank c = false ∧ kind.isLiteral = true ∧
      Scans place c (tail ++ rest) kind tail := by
  -- digits end at a blank
  have hdigits : ∀ {digits : List Char}, (∀ c ∈ digits, c.isDigit = true) →
      (digits ++ rest).takeWhile Char.isDigit = digits := fun hall =>
    takeWhile_of_blank (fun _ => not_isBlank_of_isDigit) hall hrest
  cases h with
  | @var name hne hname =>
      have htake := takeWhile_of_blank (fun _ => not_isBlank_of_isNameChar) hname hrest
      have hscans := Scans.var hplace rfl (htake.symm ▸ hne)
      rw [htake] at hscans
      exact ⟨_, _, _, rfl, by decide, by decide, rfl, hscans⟩
  | number hne hall =>
      obtain ⟨d, ds, rfl⟩ := List.exists_cons_of_ne_nil hne
      obtain ⟨hd, hds⟩ := List.forall_mem_cons.mp hall
      have hscans : Scans place d (ds ++ rest) .number _ := .number hplace (.inl hd)
      rw [hdigits hds] at hscans
      refine ⟨_, _, _, rfl, ?_, not_isBlank_of_isDigit hd, rfl, hscans⟩
      rintro rfl
      cases hd
  | @negative digits hne hall =>
      obtain ⟨d, ds, rfl⟩ := List.exists_cons_of_ne_nil hne
      have hscans : Scans place '-' (d :: ds ++ rest) .number _ :=
        .number hplace (.inr ⟨rfl, (List.forall_mem_cons.mp hall).1⟩)
      rw [hdigits hall] at hscans
      exact ⟨_, _, _, rfl, by decide, by decide, rfl, hscans⟩
  | string hbody =>
      refine ⟨_, _, .string, rfl, by decide, by decide, rfl, ?_⟩
      rw [List.append_assoc, List.singleton_append, ← throughQuote_append hbody rest]
      exact .string hplace rfl
  | object hbody =>
      refine ⟨_, _, .object, rfl, by decide, by decide, rfl, ?_⟩
      rw [List.append_assoc, List.singleton_append, ← throughClose_append hbody rest]
      exact .object hplace rfl
  | constant hletter hbody =>
      refine ⟨_, _, .constant, rfl, by decide, by decide, rfl, ?_⟩
      rw [← List.cons_append, List.append_assoc, List.singleton_append,
        ← throughClose_append hbody rest]
      exact .constant hplace rfl hletter
  | null =>
      have htake : (['u', 'l', 'l'] ++ rest).takeWhile isWordChar = ['u', 'l', 'l'] :=
        takeWhile_of_blank not_isBlank_of_isWordChar (List.all_eq_true.mp (by decide)) hrest
      have hscans : Scans place 'n' (['u', 'l', 'l'] ++ rest) _ _ :=
        .word hplace (by decide) (by decide) (by decide) rfl
      rw [htake] at hscans
      exact ⟨_, _, _, rfl, by decide, by decide, rfl, hscans⟩

/-! ### Blanks at the end of a token

What is filled in may be longer than the variable was. In front of it there is a blank or nothing,
and that has to stay a token of its own. -/

/-- A token that the line goes on behind ends with a blank only if it is blank. -/
theorem Scans.blank_or_getLast {place : Place} {c : Char} {kind : TokenKind} {tail rest : List Char}
    (h : Scans place c (tail ++ rest) kind tail) (hrest : rest ≠ []) :
    kind = .blank ∨ ∀ d ∈ (c :: tail).getLast?, isBlank d = false := by
  -- either no character is blank, or a closing one comes last
  have of_all : (∀ d ∈ c :: tail, isBlank d = false) →
      ∀ d ∈ (c :: tail).getLast?, isBlank d = false :=
    fun hall d hd => hall d (List.mem_of_getLast? hd)
  have of_close : ∀ {close : Char} {body : List Char}, isBlank close = false → tail = body ++ [close] →
      ∀ d ∈ (c :: tail).getLast?, isBlank d = false := by
    rintro close body hclose rfl d hd
    rw [← List.cons_append, List.getLast?_concat] at hd
    exact Option.some.inj hd ▸ hclose
  generalize hcs : tail ++ rest = cs at h
  cases h with
  | blank => exact .inl rfl
  | comment => exact absurd (List.append_right_eq_self.mp hcs) hrest
  | number hplace hfirst =>
      refine .inr (of_all (List.forall_mem_cons.mpr ⟨?_, fun d hd => ?_⟩))
      · rcases hfirst with hdigit | ⟨rfl, -⟩
        · exact not_isBlank_of_isDigit hdigit
        · decide
      · exact not_isBlank_of_isDigit (List.all_eq_true.mp List.all_takeWhile d hd)
  | sigil hplace hc => exact .inr (of_all (List.forall_mem_singleton.mpr (by rw [hc]; decide)))
  | var hplace hc =>
      refine .inr (of_all (List.forall_mem_cons.mpr ⟨by rw [hc]; decide, fun d hd => ?_⟩))
      exact not_isBlank_of_isNameChar (List.all_eq_true.mp List.all_takeWhile d hd)
  | object =>
      -- what is not closed goes on to the end of the line, where nothing is left
      rcases throughClose_cases '}' cs with ⟨body, -, hclosed⟩ | ⟨hall, -⟩
      · exact .inr (of_close (by decide) hclosed)
      · exact absurd (List.append_right_eq_self.mp (hall ▸ hcs)) hrest
  | string =>
      rcases throughQuote_cases cs with ⟨body, -, hclosed⟩ | ⟨hall, -⟩
      · exact .inr (of_close (by decide) hclosed)
      · exact absurd (List.append_right_eq_self.mp (hall ▸ hcs)) hrest
  | constant =>
      rcases throughClose_cases ']' cs with ⟨body, -, hclosed⟩ | ⟨hall, -⟩
      · exact .inr (of_close (by decide) hclosed)
      · exact absurd (List.append_right_eq_self.mp (hall ▸ hcs)) hrest
  | operator hplace hnumber hconstant hfound =>
      refine .inr (of_all (List.forall_mem_cons.mpr ⟨?_, not_isBlank_of_operatorTail? hfound⟩))
      exact (of_startsOperator (isSome_operatorTail? c cs ▸ Option.isSome_of_eq_some hfound)).1
  | word hplace hblank =>
      refine .inr (of_all (List.forall_mem_cons.mpr ⟨hblank, fun d hd => ?_⟩))
      exact not_isBlank_of_isWordChar d (List.all_eq_true.mp List.all_takeWhile d hd)

/-! ### Filling in

A filling says of each token whether it is replaced and by what. It may choose among the variables
of a line that have blanks around them; whether it replaces all of them, some or none does not
matter.

The proof goes along the tokens of the template. A token that is kept is scanned as before, and one
that is filled is scanned as a value. Where the next token stands is the same either way
(`Place.next_congr`), because only operators and jumps change it. -/

/-- Where a value is scanned, the rest of the line is no comment. -/
theorem Scans.ne_afterStar {place : Place} {c : Char} {cs tail : List Char} {kind : TokenKind}
    (h : Scans place c cs kind tail) (hkind : kind.isLiteral = true) : place ≠ .afterStar := by
  cases h with
  | blank | comment => cases hkind
  | number hplace | sigil hplace | var hplace | object hplace | string hplace | constant hplace
  | operator hplace | word hplace => exact hplace

/-- A literal can fill a parameter. -/
theorem Token.isValue_of_isLiteral {t : Token} (h : t.kind.isLiteral = true) : t.isValue = true := by
  unfold isValue
  cases hk : t.kind <;> simp_all [TokenKind.isLiteral]

/-- A token that is neither an operator nor a jump is like any other such token to what follows. -/
theorem Place.next_congr {t u : Token} (ht : t.kind.isLiteral = true) (hu : u.kind.isLiteral = true)
    (htext : t.text.toList.head? ≠ some 'g') (hutext : u.text.toList.head? ≠ some 'g')
    (place : Place) : place.next t = place.next u := by
  have hkind : ∀ {t : Token}, t.kind.isLiteral = true → t.kind ≠ .blank ∧ t.isOperator "*" = false := by
    intro t ht
    unfold Token.isOperator Token.isOperatorKind
    cases hk : t.kind <;> simp_all [TokenKind.isLiteral]
  have hjump : ∀ {t : Token}, t.text.toList.head? ≠ some 'g' →
      (t.text == "goto" || t.text == "gosub") = false := by
    intro t htext
    simp only [Bool.or_eq_false_iff, beq_eq_false_iff_ne]
    constructor <;> intro heq <;> exact htext (by rw [heq]; decide)
  unfold Place.next
  simp [hkind ht, hkind hu, hjump htext, hjump hutext]

theorem Token.head?_ofChars (kind : TokenKind) (start : Nat) (c : Char) (cs : List Char) :
    (Token.ofChars kind start (c :: cs)).text.toList.head? = some c := by
  rw [Token.ofChars, String.toList_ofList, List.head?_cons]

/-- The token has a blank or nothing on either side of it. -/
def Token.StandsFree (line : List Char) (t : Token) : Prop :=
  (∀ c ∈ (line.take t.start).getLast?, isBlank c = true) ∧
    ∀ c ∈ (line.drop t.stop).head?, isBlank c = true

instance (line : List Char) (t : Token) : Decidable (t.StandsFree line) :=
  decidable_of_iff
    ((line.take t.start).getLast?.all isBlank = true ∧ (line.drop t.stop).head?.all isBlank = true)
    (by simp only [Token.StandsFree, Option.all_eq_true, Option.mem_def])

/-- If the token is filled, it is a variable that stands free, and it is filled with a literal. -/
def Fits (filling : Token → Option String) (line : List Char) (t : Token) : Prop :=
  ∀ literal ∈ filling t, t.kind = .var ∧ t.StandsFree line ∧ Literal literal.toList

/-- The characters of the tokens, with what the filling has in the place of those that it fills. -/
def fillTokens (filling : Token → Option String) (ts : List Token) : List Char :=
  ts.flatMap fun t => ((filling t).getD t.text).toList

/-- The line with what the filling has in the place of the tokens that it fills. -/
def fill (filling : Token → Option String) (line : String) : String :=
  String.ofList (fillTokens filling (lex line))

/-- Two tokens that a shape shows in the same way: both are values, or they are the same. -/
def Token.LooksLike (t u : Token) : Prop :=
  t.isValue = true ∧ u.isValue = true ∨ t.kind = u.kind ∧ t.text = u.text

section

variable {filling : Token → Option String} {line : List Char}

theorem fillTokens_cons (t : Token) (ts : List Token) :
    fillTokens filling (t :: ts) = ((filling t).getD t.text).toList ++ fillTokens filling ts :=
  List.flatMap_cons

/-- What is filled in begins with the same character as before, unless its first token is filled. -/
theorem Lexes.head?_fillTokens {place : Place} {start : Nat} {cs : List Char} {ts : List Token}
    (h : Lexes place start cs ts) (hkept : ∀ t ∈ ts.head?, filling t = none) :
    (fillTokens filling ts).head? = cs.head? := by
  cases h with
  | nil => rfl
  | cons hscans hrest =>
      rw [fillTokens_cons, hkept _ rfl, Option.getD_none, Token.ofChars, String.toList_ofList]
      rfl

/-- A token in front of one that is filled is blank, and any other one has the same character behind it as
before. So what is filled in behind it does not change what it is scanned as. -/
theorem Lexes.scans_of_kept {place place' : Place} {start : Nat} {c : Char} {kind : TokenKind}
    {front tail rest : List Char} {ts : List Token} (h : Lexes place' start rest ts)
    (hstart : (front ++ c :: tail).length = start)
    (hfits : ∀ t ∈ ts, Fits filling (front ++ c :: tail ++ rest) t)
    (hscans : Scans place c (tail ++ rest) kind tail) :
    Scans place c (tail ++ fillTokens filling ts) kind tail := by
  by_cases hkept : ∀ t ∈ ts.head?, filling t = none
  · exact hscans.congr (h.head?_fillTokens hkept)
  · simp only [Classical.not_forall] at hkept
    obtain ⟨t, ht, hfill⟩ := hkept
    obtain ⟨literal, hfill⟩ := Option.ne_none_iff_exists'.mp hfill
    cases h with
    | nil => cases ht
    | @cons place' start d kind' tail' rest' ts' hscans' hrest =>
        obtain rfl := Option.some.inj ht
        obtain ⟨-, ⟨hbefore, -⟩, hliteral⟩ := hfits _ List.mem_cons_self literal hfill
        have hlast : ∀ e ∈ (c :: tail).getLast?, isBlank e = true := by
          rwa [Token.ofChars, List.take_left' hstart, List.getLast?_append, List.getLast?_cons,
            Option.some_or, ← List.getLast?_cons] at hbefore
        obtain rfl : kind = .blank := by
          refine (hscans.blank_or_getLast (List.cons_ne_nil _ _)).resolve_right fun hlast' => ?_
          have hmem := List.getLast?_eq_some_getLast (List.cons_ne_nil c tail)
          exact Bool.false_ne_true ((hlast' _ hmem).symm.trans (hlast _ hmem))
        have hplace : Place.lineStart ≠ .afterStar := by decide
        have hend : ∀ e ∈ ([] : List Char).head?, isBlank e = true := by simp
        obtain ⟨e, es, -, hes, -, he, -⟩ := hliteral.scans hplace hend
        refine hscans.blank_append fun x hx => ?_
        rw [fillTokens_cons, hfill, Option.getD_some, hes] at hx
        exact Option.some.inj hx ▸ he

/-- Where a variable that stands free has been, a literal is scanned. -/
theorem Lexes.exists_scans_of_filled {place place' : Place} {start : Nat} {rest : List Char}
    {ts : List Token} (h : Lexes place' start rest ts) (hfits : ∀ t ∈ ts, Fits filling line t)
    (hrest : ∀ c ∈ rest.head?, isBlank c = true) {literal : List Char} (hliteral : Literal literal)
    (hplace : place ≠ .afterStar) :
    ∃ c tail kind, literal = c :: tail ∧ c ≠ 'g' ∧ kind.isLiteral = true ∧
      Scans place c (tail ++ fillTokens filling ts) kind tail := by
  have hkept : ∀ t ∈ ts.head?, filling t = none := by
    intro t ht
    refine Decidable.byContradiction fun hfill => ?_
    obtain ⟨literal, hfill⟩ := Option.ne_none_iff_exists'.mp hfill
    cases h with
    | nil => cases ht
    | cons hscans hrest' =>
        obtain rfl := Option.some.inj ht
        obtain ⟨rfl, -⟩ := hfits _ List.mem_cons_self literal hfill
        obtain ⟨rfl, -⟩ := hscans.scanned
        cases (hrest _ rfl : isBlank '$' = true)
  rw [← h.head?_fillTokens hkept] at hrest
  obtain ⟨c, tail, kind, hcs, hg, -, hkind, hscans⟩ := hliteral.scans hplace hrest
  exact ⟨c, tail, kind, hcs, hg, hkind, hscans⟩

/-- Token by token, what is filled in looks like what was there before. -/
theorem Lexes.exists_fillTokens {place : Place} {start : Nat} {cs : List Char} {ts : List Token}
    (h : Lexes place start cs ts) {front : List Char} (hfront : front.length = start)
    (hfits : ∀ t ∈ ts, Fits filling (front ++ cs) t) (start' : Nat) :
    ∃ us, Lexes place start' (fillTokens filling ts) us ∧ List.Forall₂ Token.LooksLike ts us := by
  induction h generalizing front start' with
  | nil place start => exact ⟨[], .nil place start', .nil⟩
  | @cons place start c kind tail rest ts hscans hrest ih =>
      obtain ⟨hfit, hfits'⟩ := List.forall_mem_cons.mp hfits
      have hline : front ++ c :: (tail ++ rest) = front ++ c :: tail ++ rest := by simp
      have hfront' : (front ++ c :: tail).length = start + (c :: tail).length := by
        rw [List.length_append, hfront]
      rw [hline] at hfit hfits'
      rw [fillTokens_cons]
      cases hfill : filling (.ofChars kind start (c :: tail)) with
      | none =>
          obtain ⟨us, hus, hlooks⟩ := ih hfront' hfits' (start' + (c :: tail).length)
          rw [Option.getD_none, Token.ofChars, String.toList_ofList]
          exact ⟨_, .cons (hrest.scans_of_kept hfront' hfits' hscans) hus, .cons (.inr ⟨rfl, rfl⟩) hlooks⟩
      | some literal =>
          -- a variable with blanks around it, and a literal in its place
          obtain ⟨hkind, ⟨-, hbehind⟩, hliteral⟩ := hfit literal hfill
          obtain rfl : kind = .var := hkind
          have hblank : ∀ c ∈ rest.head?, isBlank c = true := by
            rwa [Token.ofChars, List.drop_left' hfront'] at hbehind
          have hplace := hscans.ne_afterStar rfl
          -- neither of them is `goto` or `gosub`, so what follows is scanned alike
          have hdollar : c ≠ 'g' := by
            obtain ⟨rfl, -⟩ := hscans.scanned
            decide
          obtain ⟨d, tail', kind', hcs, hg, hkind', hscans'⟩ :=
            hrest.exists_scans_of_filled hfits' hblank hliteral hplace
          obtain ⟨us, hus, hlooks⟩ := ih hfront' hfits' (start' + (d :: tail').length)
          rw [Option.getD_some, hcs]
          have hnext := Place.next_congr (t := .ofChars .var start (c :: tail))
            (u := .ofChars kind' start' (d :: tail')) rfl hkind'
            (by simpa [Token.head?_ofChars] using hdollar) (by simpa [Token.head?_ofChars] using hg) place
          rw [hnext] at hus
          exact ⟨_, .cons hscans' hus, .cons (.inl ⟨rfl, Token.isValue_of_isLiteral hkind'⟩) hlooks⟩

end

namespace Token

/-- Tokens that look alike are shown alike, and none of them is left out of the shape but both. -/
theorem LooksLike.piece_eq {t u : Token} (h : t.LooksLike u) :
    t.piece = u.piece ∧ (t.kind != .blank && t.kind != .comment) =
      (u.kind != .blank && u.kind != .comment) := by
  rcases h with ⟨ht, hu⟩ | ⟨hkind, htext⟩
  · have hshown : ∀ {v : Token}, v.isValue = true → (v.kind != .blank && v.kind != .comment) = true := by
      intro v hv
      unfold isValue at hv
      cases hk : v.kind <;> simp_all
    exact ⟨by simp [piece, ht, hu], (hshown ht).trans (hshown hu).symm⟩
  · have hvalue : t.isValue = u.isValue := by rw [isValue, isValue, hkind]
    exact ⟨by rw [piece, piece, hvalue, htext], by rw [hkind]⟩

/-- Runs of tokens that look alike have the same shape. -/
theorem shape_eq_of_looksLike {ts us : List Token} (h : List.Forall₂ LooksLike ts us) :
    shape ts = shape us := by
  rw [shape_eq, shape_eq]
  congr 1
  induction h with
  | nil => rfl
  | @cons t u ts us hlooks hrest ih =>
      obtain ⟨hpiece, hshown⟩ := hlooks.piece_eq
      rw [pieces, pieces] at ih ⊢
      rw [List.filter_cons, List.filter_cons, hshown]
      split
      · rw [List.map_cons, List.map_cons, hpiece, ih]
      · exact ih

/-- Blanks do not show in a shape. -/
theorem shape_filter (ts : List Token) : shape (ts.filter isSignificant) = shape ts := by
  rw [shape, List.filter_filter, shape]
  congr 2
  refine List.filter_congr fun t _ => ?_
  unfold isSignificant
  cases t.kind <;> rfl

end Token

/-- A line that is written from a template has the shape of the template, whichever of the variables that
stand free in it are filled in and whatever literals they are filled with. -/
theorem shape_tokens_fill (line : String) (filling : Token → Option String)
    (hfits : ∀ t ∈ lex line, Fits filling line.toList t) :
    Token.shape (tokens (fill filling line)) = Token.shape (tokens line) := by
  have hlexes : Lexes .lineStart 0 line.toList (lex line) := lexFrom_eq_iff.mp rfl
  obtain ⟨us, hus, hlooks⟩ := hlexes.exists_fillTokens List.length_nil hfits 0
  have hlex : lex (fill filling line) = us := by
    rw [lex, fill, String.toList_ofList]
    exact lexFrom_eq_iff.mpr hus
  rw [tokens, tokens, lexFrom_eq_filter, lexFrom_eq_filter, Token.shape_filter, Token.shape_filter]
  show Token.shape (lex _) = Token.shape (lex line)
  rw [hlex, Token.shape_eq_of_looksLike hlooks]

/-- A variable stays, and others become a string with blanks in it, a negative number and a constant. -/
theorem shape_tokens_fill_command :
    let line := "$0 = $1 -> add $2 of $3"
    let filling : Token → Option String := fun t =>
      if t.text = "$1" then some "[THIS]" else if t.text = "$2" then some "-12"
      else if t.text = "$3" then some "'it\\'s a * b'" else none
    (∀ t ∈ lex line, Fits filling line.toList t) ∧
      fill filling line = "$0 = [THIS] -> add -12 of 'it\\'s a * b'" ∧
      Token.shape (tokens (fill filling line)) = Token.shape (tokens line) := by
  intro line filling
  have hfree : ∀ t ∈ lex line, filling t ≠ none → t.kind = .var ∧ t.StandsFree line.toList := by
    decide +kernel
  have hliteral : ∀ t, ∀ literal ∈ filling t, Literal literal.toList := by
    intro t literal hmem
    have hbody : StringBody "it\\'s a * b".toList := stringBody_escape "it's a * b".toList
    have hdigits : ∀ c ∈ ['1', '2'], c.isDigit = true := List.all_eq_true.mp (by decide)
    simp only [filling, Option.mem_def] at hmem
    split at hmem
    · cases hmem
      exact @Literal.constant 'T' ['H', 'I', 'S'] (by decide +kernel) (by decide)
    split at hmem
    · cases hmem
      exact .negative (by decide) hdigits
    split at hmem
    · cases hmem
      exact .string hbody
    · cases hmem
  have hfits : ∀ t ∈ lex line, Fits filling line.toList t := fun t ht literal hmem =>
    have ⟨hvar, hstands⟩ := hfree t ht (Option.ne_none_iff_exists'.mpr ⟨literal, hmem⟩)
    ⟨hvar, hstands, hliteral t literal hmem⟩
  exact ⟨hfits, by decide +kernel, shape_tokens_fill line filling hfits⟩

end MissionScript
