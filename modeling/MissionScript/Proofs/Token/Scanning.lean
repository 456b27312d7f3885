import MissionScript.Proofs.Token.Tiling

/-!
# MissionScript.Proofs.Token.Scanning

What one token is scanned as.

`Scans` has a case for each scanner, with all that has to hold for the scanner to be the one that is used.
It says the same as `scan` (`scan_eq_iff`), so a fact about the tokens of one kind is a look at one case, and
to know what a token is scanned as is to give its case.

The definition of `scan` tries its scanners one after the other, so the condition of a scanner is
that all those before it do not apply. `Scans` spells these conditions out. Some of them exclude
each other by the characters alone (what starts an operator is no digit and no blank); these facts
about classes of characters come first.
-/

namespace MissionScript

open Text

/-! ### Classes of characters

Letters and numerals are sets of code points given by tables. What is needed of the tables is proved
here for all of their ranges at once, and later proofs use what follows for the classes. -/

namespace Text

/-- A code point of the class is in one of its ranges. -/
theorem exists_of_inRanges {n : Nat} {ranges : List CodeRange} (h : inRanges n ranges = true) :
    ∃ r ∈ ranges, r.1 ≤ n ∧ n ≤ r.2 := by
  induction ranges with
  | nil => cases h
  | cons r rest ih =>
      obtain ⟨first, last⟩ := r
      simp only [inRanges_cons, Bool.and_eq_true, Bool.or_eq_true, decide_eq_true_eq] at h
      rcases h with ⟨hle, hn | hrest⟩
      · exact ⟨_, List.mem_cons_self, hle, hn⟩
      · obtain ⟨s, hs, hbounds⟩ := ih hrest
        exact ⟨s, List.mem_cons_of_mem _ hs, hbounds⟩

/-- A code point in one of the ranges of an ascending table is found by the search. -/
theorem inRanges_of_mem {n : Nat} {ranges : List CodeRange}
    (hsorted : ranges.Pairwise fun r s => r.1 ≤ s.1) {r : CodeRange} (hr : r ∈ ranges)
    (hle : r.1 ≤ n) (hn : n ≤ r.2) : inRanges n ranges = true := by
  induction ranges with
  | nil => cases hr
  | cons s rest ih =>
      obtain ⟨first, last⟩ := s
      obtain ⟨hfirst, hrest⟩ := List.pairwise_cons.mp hsorted
      rw [inRanges_cons]
      rcases List.mem_cons.mp hr with rfl | hmem
      · simp [show first ≤ n from hle, show n ≤ last from hn]
      · simp [show first ≤ n from Nat.le_trans (hfirst r hmem) hle, ih hrest hmem]

/-- Every decimal digit is a numeral. -/
theorem isNumeral_of_isDecimalDigit {c : Char} (h : isDecimalDigit c = true) :
    isNumeral c = true := by
  have hcovered : ∀ r ∈ decimalDigits, ∃ s ∈ numerals, s.1 ≤ r.1 ∧ r.2 ≤ s.2 := by decide +kernel
  have hsorted : numerals.Pairwise fun r s => r.1 ≤ s.1 := by decide +kernel
  obtain ⟨r, hr, hle, hn⟩ := exists_of_inRanges h
  obtain ⟨s, hs, hfirst, hlast⟩ := hcovered r hr
  exact inRanges_of_mem hsorted hs (Nat.le_trans hfirst hle) (Nat.le_trans hn hlast)

/-- An ASCII digit is a decimal digit. -/
theorem isDecimalDigit_of_isDigit {c : Char} (h : c.isDigit = true) : isDecimalDigit c = true := by
  have hdigits : (0x30, 0x39) ∈ decimalDigits := List.mem_cons_self
  have hsorted : decimalDigits.Pairwise fun r s => r.1 ≤ s.1 := by decide +kernel
  simp only [Char.isDigit, Bool.and_eq_true, decide_eq_true_eq] at h
  exact inRanges_of_mem hsorted hdigits h.1 h.2

end Text

/-- No blank is part of a name. -/
theorem not_isBlank_of_isNameChar {c : Char} (h : isNameChar c = true) : isBlank c = false := by
  have hapart : ∀ r ∈ blanks, ∀ n ∈ List.range' r.1 (r.2 - r.1 + 1),
      inRanges n letters = false ∧ inRanges n numerals = false := by decide +kernel
  rw [Bool.eq_false_iff]
  intro hblank
  obtain ⟨r, hr, hfirst, hlast⟩ := exists_of_inRanges hblank
  obtain ⟨hletter, hnumeral⟩ := hapart r hr c.toNat (by rw [List.mem_range'_1]; omega)
  simp only [isNameChar, isLetter, isNumeral, hletter, hnumeral, Bool.or_eq_true, beq_iff_eq,
    Bool.false_eq_true, false_or] at h
  rcases h with rfl | rfl
  · revert hblank
    decide
  · revert hblank
    decide

theorem isNameChar_of_isDigit {c : Char} (h : c.isDigit = true) : isNameChar c = true := by
  simp [isNameChar, isNumeral_of_isDecimalDigit (isDecimalDigit_of_isDigit h)]

theorem not_isBlank_of_isDigit {c : Char} (h : c.isDigit = true) : isBlank c = false :=
  not_isBlank_of_isNameChar (isNameChar_of_isDigit h)

/-- What starts an operator is no blank and no digit, and starts nothing else but a number or a constant. -/
theorem of_startsOperator {c : Char} {cs : List Char} (h : startsOperator c cs = true) :
    isBlank c = false ∧ c.isDigit = false ∧ c ∉ ['$', '{', '\''] := by
  have hfirst : c ∈ 'A' :: 'O' :: 'M' :: operatorSigns := by
    simp only [startsOperator, wordOperators, List.any_cons, List.any_nil, List.isPrefixOf,
      Bool.or_eq_true, Bool.and_eq_true, beq_iff_eq, List.contains_iff_mem, Bool.or_false] at h
    rcases h with hsign | ⟨rfl, -⟩ | ⟨rfl, -⟩ | ⟨rfl, -⟩
    · simp [hsign]
    all_goals simp
  have hall : ('A' :: 'O' :: 'M' :: operatorSigns).all (fun d =>
      !isBlank d && !d.isDigit && !(['$', '{', '\''].contains d)) = true := by decide
  simpa [and_assoc] using List.all_eq_true.mp hall c hfirst

/-! ### Kinds of operators and words

An operator has one of two kinds, and a word one of four. Which one of them does not matter to most
proofs. -/

theorem kind_of_operatorTail? {c : Char} {cs : List Char} {found : TokenKind × List Char}
    (h : operatorTail? c cs = some found) : found.1 = .unaryOp ∨ found.1 = .binaryOp := by
  unfold operatorTail? at h
  split at h
  all_goals first
    | (cases h; first | exact Or.inl rfl | exact Or.inr rfl)
    -- an exclamation mark is an operator of one of the two kinds
    | (cases h
       dsimp only
       split
       · exact Or.inr rfl
       · exact Or.inl rfl)
    | (split at h
       · cases h
         exact Or.inr rfl
       · cases h)
    | cases h

theorem wordKind_mem (place : Place) (text : String) (next : Option Char) :
    wordKind place text next ∈ [TokenKind.null, .label, .keyword, .word] := by
  unfold wordKind
  split
  · decide
  · cases place with
    | lineStart =>
        dsimp only
        split
        · decide
        · split <;> decide
    | second | third => dsimp only; split <;> decide
    | afterStar | afterJump | later => dsimp only; decide

/-! ### The scanners

Where the rest of the line is a comment, no other scanner is used, except that blanks in front of it
are a token of their own. That is why every case but two asks for another place. -/

/-- A token that starts with `c` is of the kind given and goes on with the characters of the tail, when the
characters `cs` come next. -/
inductive Scans (place : Place) (c : Char) (cs : List Char) : TokenKind → List Char → Prop
  | blank (hblank : isBlank c = true) : Scans place c cs .blank (cs.takeWhile isBlank)
  | comment (hblank : isBlank c = false) (hplace : place = .afterStar) : Scans place c cs .comment cs
  | number (hplace : place ≠ .afterStar)
      (hfirst : c.isDigit = true ∨ c = '-' ∧ cs.head?.any Char.isDigit = true) :
      Scans place c cs .number (cs.takeWhile Char.isDigit)
  | sigil (hplace : place ≠ .afterStar) (hc : c = '$') (hname : cs.takeWhile isNameChar = []) :
      Scans place c cs .unaryOp []
  | var (hplace : place ≠ .afterStar) (hc : c = '$') (hname : cs.takeWhile isNameChar ≠ []) :
      Scans place c cs .var (cs.takeWhile isNameChar)
  | object (hplace : place ≠ .afterStar) (hc : c = '{') :
      Scans place c cs .object (throughClose '}' cs)
  | string (hplace : place ≠ .afterStar) (hc : c = '\'') :
      Scans place c cs .string (throughQuote false cs)
  | constant (hplace : place ≠ .afterStar) (hc : c = '[') (hletter : cs.head?.any isLetter = true) :
      Scans place c cs .constant (throughClose ']' cs)
  | operator (hplace : place ≠ .afterStar) (hnumber : ¬ (c = '-' ∧ cs.head?.any Char.isDigit = true))
      (hconstant : ¬ (c = '[' ∧ cs.head?.any isLetter = true)) {kind : TokenKind} {tail : List Char}
      (hfound : operatorTail? c cs = some (kind, tail)) : Scans place c cs kind tail
  | word (hplace : place ≠ .afterStar) (hblank : isBlank c = false) (hdigit : c.isDigit = false)
      (hc : c ∉ ['$', '{', '\'']) (hfound : operatorTail? c cs = none) :
      Scans place c cs
        (wordKind place (String.ofList (c :: cs.takeWhile isWordChar))
          (cs.drop (cs.takeWhile isWordChar).length).head?)
        (cs.takeWhile isWordChar)

section

variable {place : Place} {c : Char} {cs : List Char} {kind : TokenKind} {tail : List Char}

theorem scans_of_scan (h : scan place c cs = (kind, tail)) : Scans place c cs kind tail := by
  rw [scan] at h
  split at h
  · next hblank =>
    cases h
    exact .blank hblank
  next hblank =>
  rw [Bool.not_eq_true] at hblank
  split at h
  · next hplace =>
    cases h
    exact .comment hblank hplace
  next hplace =>
  split at h
  · next hfirst =>
    cases h
    exact .number hplace (by simpa using hfirst)
  next hnumber =>
  simp only [Bool.or_eq_true, Bool.and_eq_true, beq_iff_eq, not_or, Bool.not_eq_true] at hnumber
  split at h
  · next hc =>
    dsimp only at h
    split at h
    · next hname =>
      rw [List.isEmpty_iff] at hname
      cases h
      rw [hname]
      exact .sigil hplace hc hname
    · next hname =>
      cases h
      exact .var hplace hc (by simpa using hname)
  next hsigil =>
  split at h
  · next hc =>
    cases h
    exact .object hplace hc
  next hobject =>
  split at h
  · next hc =>
    cases h
    exact .string hplace hc
  next hquote =>
  split at h
  · next hconstant =>
    cases h
    exact .constant hplace hconstant.1 hconstant.2
  next hconstant =>
  split at h
  · next hfound =>
    cases h
    exact .operator hplace hnumber.2 hconstant hfound
  · next hfound =>
    cases h
    exact .word hplace hblank hnumber.1 (by simp [hsigil, hobject, hquote]) hfound

theorem Scans.scan_eq (h : Scans place c cs kind tail) : scan place c cs = (kind, tail) := by
  cases h with
  | blank hblank => rw [scan, if_pos hblank]
  | comment hblank hplace => rw [scan, if_neg (by simp [hblank]), if_pos hplace]
  | number hplace hfirst =>
      have hblank : isBlank c = false := by
        rcases hfirst with hdigit | ⟨rfl, -⟩
        · exact not_isBlank_of_isDigit hdigit
        · decide
      rw [scan, if_neg (by simp [hblank]), if_neg hplace, if_pos (by simpa using hfirst)]
  | sigil hplace hc hname =>
      subst hc
      simp [scan, hplace, hname, show isBlank '$' = false by decide]
  | var hplace hc hname =>
      subst hc
      simp [scan, hplace, hname, show isBlank '$' = false by decide]
  | object hplace hc =>
      subst hc
      simp [scan, hplace, show isBlank '{' = false by decide]
  | string hplace hc =>
      subst hc
      simp [scan, hplace, show isBlank '\'' = false by decide]
  | constant hplace hc hletter =>
      subst hc
      simp [scan, hplace, hletter, show isBlank '[' = false by decide]
  | operator hplace hnumber hconstant hfound =>
      obtain ⟨hblank, hdigit, hc⟩ := of_startsOperator
        (isSome_operatorTail? c cs ▸ Option.isSome_of_eq_some hfound)
      simp only [List.mem_cons, List.not_mem_nil, or_false, not_or] at hc
      simp only [not_and, Bool.not_eq_true] at hnumber
      rw [scan, if_neg (by simp [hblank]), if_neg hplace, if_neg (by simpa [hdigit] using hnumber),
        if_neg hc.1, if_neg hc.2.1, if_neg hc.2.2, if_neg hconstant, hfound]
  | word hplace hblank hdigit hc hfound =>
      simp only [List.mem_cons, List.not_mem_nil, or_false, not_or] at hc
      -- a minus sign and a bracket are operators
      have hminus : c ≠ '-' := by
        rintro rfl
        cases hfound
      have hbracket : c ≠ '[' := by
        rintro rfl
        cases hfound
      rw [scan, if_neg (by simp [hblank]), if_neg hplace, if_neg (by simp [hdigit, hminus]),
        if_neg hc.1, if_neg hc.2.1, if_neg hc.2.2, if_neg fun h => hbracket h.1, hfound]

theorem scan_eq_iff : scan place c cs = (kind, tail) ↔ Scans place c cs kind tail :=
  ⟨scans_of_scan, Scans.scan_eq⟩

end

/-- What the kind of a token tells: all but operators and words have a scanner of their own. -/
def Scanned (place : Place) (c : Char) (cs tail : List Char) : TokenKind → Prop
  | .blank => isBlank c = true ∧ tail = cs.takeWhile isBlank
  | .comment => place = .afterStar ∧ tail = cs
  | .number => (c.isDigit = true ∨ c = '-' ∧ cs.head?.any Char.isDigit = true) ∧
      tail = cs.takeWhile Char.isDigit
  | .var => c = '$' ∧ tail = cs.takeWhile isNameChar ∧ tail ≠ []
  | .object => c = '{' ∧ tail = throughClose '}' cs
  | .string => c = '\'' ∧ tail = throughQuote false cs
  | .constant => c = '[' ∧ cs.head?.any isLetter = true ∧ tail = throughClose ']' cs
  | _ => True

theorem Scans.scanned {place : Place} {c : Char} {cs : List Char} {kind : TokenKind}
    {tail : List Char} (h : Scans place c cs kind tail) : Scanned place c cs tail kind := by
  cases h with
  | blank hblank => exact ⟨hblank, rfl⟩
  | comment hblank hplace => exact ⟨hplace, rfl⟩
  | number hplace hfirst => exact ⟨hfirst, rfl⟩
  | sigil => trivial
  | var hplace hc hname => exact ⟨hc, rfl, hname⟩
  | object hplace hc => exact ⟨hc, rfl⟩
  | string hplace hc => exact ⟨hc, rfl⟩
  | constant hplace hc hletter => exact ⟨hc, hletter, rfl⟩
  | operator hplace hnumber hconstant hfound =>
      rcases kind_of_operatorTail? hfound with rfl | rfl <;> trivial
  | word hplace hblank hdigit hc hfound =>
      have hkind := wordKind_mem place (String.ofList (c :: cs.takeWhile isWordChar))
        (cs.drop (cs.takeWhile isWordChar).length).head?
      simp only [List.mem_cons, List.not_mem_nil, or_false] at hkind
      rcases hkind with hkind | hkind | hkind | hkind <;> rw [hkind] <;> trivial

/-- What the kind of a scanned token tells. -/
theorem scanned_of_kind {place : Place} {c : Char} {cs : List Char} {kind : TokenKind}
    (h : (scan place c cs).1 = kind) : Scanned place c cs (scan place c cs).2 kind :=
  h ▸ (scan_eq_iff.mp rfl).scanned

/-! ### The loop

The lexer scans a token, moves to the place behind it, and goes on. `Lexes` is the graph of this
loop, with one case for a token: it is what proofs about lines do induction on. -/

/-- The token of the kind given that covers the characters `cs` from the position `start` on. -/
def Token.ofChars (kind : TokenKind) (start : Nat) (cs : List Char) : Token :=
  ⟨kind, start, start + cs.length, String.ofList cs⟩

/-- The characters `cs` are split into the tokens given, from the position `start` of a line on. -/
inductive Lexes : Place → Nat → List Char → List Token → Prop
  | nil (place : Place) (start : Nat) : Lexes place start [] []
  | cons {place : Place} {start : Nat} {c : Char} {kind : TokenKind} {tail rest : List Char}
      {ts : List Token} (hscans : Scans place c (tail ++ rest) kind tail)
      (hrest : Lexes (place.next (.ofChars kind start (c :: tail))) (start + (c :: tail).length) rest
        ts) :
      Lexes place start (c :: (tail ++ rest)) (.ofChars kind start (c :: tail) :: ts)

/-- The loop gives just the tokens that the relation allows, so there is one way only to split a
line. -/
theorem lexFrom_eq_iff {place : Place} {start : Nat} {cs : List Char} {ts : List Token} :
    lexFrom true place start cs = ts ↔ Lexes place start cs ts := by
  constructor
  · rintro rfl
    fun_induction lexFrom true place start cs with
    | case1 place start => exact .nil place start
    | case2 place start c cs found token rest hskip ih => exact Bool.noConfusion hskip.2
    | case3 place start c cs found token rest hskip ih =>
        have hcs := List.prefix_iff_eq_append.mp (scan_isPrefix place c cs)
        have hscans : Scans place c (found.2 ++ cs.drop found.2.length) found.1 found.2 := by
          rw [hcs]
          exact scan_eq_iff.mp rfl
        have hlexes : Lexes place start _ _ := .cons hscans ih
        rwa [hcs] at hlexes
  · intro h
    induction h with
    | nil place start => exact lexFrom_nil true place start
    | cons hscans hrest ih =>
        rw [lexFrom, scan_eq_iff.mpr hscans]
        dsimp only
        rw [if_neg fun hskip => Bool.noConfusion hskip.2, List.drop_left]
        exact congrArg _ ih

end MissionScript
