import MissionScript.Text.Characters
import MissionScript.Token

/-!
# MissionScript.Token.Lexer

Splits one line of source into tokens. Lexing never fails: whatever is not recognised becomes a
word, and the texts of the tokens, blanks included, concatenate to the line.

Design points:

* The scanners work on the characters after the first one of a token and return the *tail* of its
  text. A tail is always a prefix of what it was scanned from (`scan_isPrefix`), so the loop drops
  as many characters as the tail has and ends because the first character is gone as well.
* What a word means depends on how many tokens stand before it on the line, and on little else.
  `Place` is exactly that knowledge, so a token never looks back at the tokens before it.
-/

namespace MissionScript

open Text

/-! ### Classes of characters -/

/-- The characters that end a word wherever they stand. -/
def isReserved (c : Char) : Bool := "=<>!~-+*/&^|(),:[]$\x7b\x7d'%".toList.contains c

/-- May `c` continue a word? -/
def isWordChar (c : Char) : Bool := !isReserved c && !isBlank c

/-- May `c` stand in the name of a variable? -/
def isNameChar (c : Char) : Bool := isLetter c || isNumeral c || c == '.' || c == '_'

/-! ### Where a token stands -/

/-- Where on its line the next token stands, as far as it matters for reading it. -/
inductive Place
  /-- No token but blanks has been read. -/
  | lineStart
  /-- The only token so far is an asterisk: the rest of the line is a comment. -/
  | afterStar
  /-- The only token so far is `goto` or `gosub`: a word is a label. -/
  | afterJump
  /-- One other token has been read. -/
  | second
  /-- Two tokens have been read. -/
  | third
  /-- More tokens have been read; no word is a control word any more. -/
  | later
  deriving DecidableEq, Repr

/-- The place after a token. -/
def Place.next (place : Place) (t : Token) : Place :=
  if t.kind == .blank then place
  else match place with
    | .lineStart =>
      if t.isOperator "*" then .afterStar
      else if t.text == "goto" || t.text == "gosub" then .afterJump
      else .second
    | .afterStar | .afterJump | .second => .third
    | .third | .later => .later

/-! ### Scanners -/

/-- The characters up to and including the first `close`, or all of them when there is none. -/
def throughClose (close : Char) : List Char → List Char
  | [] => []
  | c :: cs => if c = close then [c] else c :: throughClose close cs

/-- The characters of a string after its opening apostrophe, up to and including the first
apostrophe that is not escaped. `escaped` says whether an odd run of backslashes stands before. -/
def throughQuote (escaped : Bool) : List Char → List Char
  | [] => []
  | c :: cs =>
    if c = '\\' then c :: throughQuote (!escaped) cs
    else if c = '\'' ∧ escaped = false then [c]
    else c :: throughQuote false cs

/-- `[c]` when `c` comes next, and nothing otherwise. -/
def optionally (c : Char) (cs : List Char) : List Char := if cs.head? = some c then [c] else []

/-- The operator that starts with `c`, when there is one: its kind and the rest of its text. The
word operators are recognised wherever a token starts, even when more letters follow. -/
def operatorTail? (c : Char) (cs : List Char) : Option (TokenKind × List Char) :=
  match c with
  | '+' | '*' | '/' | '^' | '%' => some (.binaryOp, [])
  | '(' | ')' | '~' | ',' | ':' | '[' | ']' | '}' => some (.unaryOp, [])
  | '&' | '|' => some (.binaryOp, optionally c cs)
  | '-' => some (.binaryOp, optionally '>' cs)
  | '<' | '>' | '=' => some (.binaryOp, optionally '=' cs)
  | '!' => some (if cs.head? = some '=' then .binaryOp else .unaryOp, optionally '=' cs)
  | 'A' => if ['N', 'D'].isPrefixOf cs then some (.binaryOp, ['N', 'D']) else none
  | 'O' => if ['R'].isPrefixOf cs then some (.binaryOp, ['R']) else none
  | 'M' => if ['O', 'D'].isPrefixOf cs then some (.binaryOp, ['O', 'D']) else none
  | _ => none

/-- The control words that may open a line. -/
def leadingKeywords : List String :=
  ["if", "do", "end", "for", "dim", "else", "skip", "goto", "while", "break", "gosub", "start",
    "return", "endsub", "foreach", "continue"]

/-- The kind of the word `text`, given where it stands and the character after it. A word at the
start of a line is a label when a colon follows, and so is the word after `goto` or `gosub`. -/
def wordKind (place : Place) (text : String) (next : Option Char) : TokenKind :=
  if text == "null" then .null
  else match place with
    | .lineStart =>
      if next == some ':' then .label
      else if leadingKeywords.contains text then .keyword
      else .word
    | .afterJump => .label
    | .second => if text == "if" || text == "not" then .keyword else .word
    | .third => if text == "not" then .keyword else .word
    | .afterStar | .later => .word

/-- The kind of the token that starts with `c`, and the rest of its text. -/
def scan (place : Place) (c : Char) (cs : List Char) : TokenKind × List Char :=
  if isBlank c then (.blank, cs.takeWhile isBlank)
  -- after a leading asterisk the rest of the line is one token
  else if place = .afterStar then (.comment, cs)
  else if c.isDigit || (c == '-' && cs.head?.any Char.isDigit) then
    (.number, cs.takeWhile Char.isDigit)
  else if c = '$' then
    let name := cs.takeWhile isNameChar
    -- a dollar sign alone is no variable
    (if name.isEmpty then .unaryOp else .var, name)
  else if c = '{' then (.object, throughClose '}' cs)
  else if c = '\'' then (.string, throughQuote false cs)
  -- a bracket before anything but a letter opens an index
  else if c = '[' ∧ cs.head?.any isLetter then (.constant, throughClose ']' cs)
  else match operatorTail? c cs with
    | some found => found
    | none =>
      let tail := cs.takeWhile isWordChar
      (wordKind place (String.ofList (c :: tail)) (cs.drop tail.length).head?, tail)

/-! ### The loop -/

/-- The tokens of the characters from position `start` of a line on. Blanks are tokens of their own
or left out, as `keepBlanks` says; either way they take their characters. -/
def lexFrom (keepBlanks : Bool) (place : Place) (start : Nat) : List Char → List Token
  | [] => []
  | c :: cs =>
    let found := scan place c cs
    let token : Token :=
      { kind := found.1, start, stop := start + found.2.length + 1,
        text := String.ofList (c :: found.2) }
    let rest := lexFrom keepBlanks (place.next token) token.stop (cs.drop found.2.length)
    if found.1 = .blank ∧ keepBlanks = false then rest else token :: rest
termination_by cs => cs.length
decreasing_by simp only [List.length_drop, List.length_cons]; omega

/-- All tokens of a line, blanks included. -/
def lex (line : String) : List Token := lexFrom true .lineStart 0 line.toList

/-- The tokens of a line that are not blanks. -/
def tokens (line : String) : List Token := lexFrom false .lineStart 0 line.toList

/-! ### A tail is a prefix of what it was scanned from -/

theorem throughClose_isPrefix (close : Char) (cs : List Char) : throughClose close cs <+: cs := by
  induction cs with
  | nil => exact List.prefix_rfl
  | cons c cs ih =>
    by_cases h : c = close
    · simp [throughClose, h]
    · simpa [throughClose, h] using ih

theorem throughQuote_isPrefix (escaped : Bool) (cs : List Char) :
    throughQuote escaped cs <+: cs := by
  induction cs generalizing escaped with
  | nil => exact List.prefix_rfl
  | cons c cs ih =>
    simp only [throughQuote]
    split
    · simpa using ih _
    · split
      · simp
      · simpa using ih _

theorem optionally_isPrefix (c : Char) (cs : List Char) : optionally c cs <+: cs := by
  cases cs with
  | nil => simp [optionally]
  | cons d ds =>
    by_cases h : d = c
    · simp [optionally, h]
    · simp [optionally, h]

theorem operatorTail?_isPrefix {c : Char} {cs : List Char} {found : TokenKind × List Char}
    (h : operatorTail? c cs = some found) : found.2 <+: cs := by
  unfold operatorTail? at h
  split at h
  all_goals first
    | (cases h; first | exact List.nil_prefix | exact optionally_isPrefix _ _)
    | (split at h
       · cases h; exact List.isPrefixOf_iff_prefix.1 ‹_›
       · cases h)
    | cases h

theorem scan_isPrefix (place : Place) (c : Char) (cs : List Char) :
    (scan place c cs).2 <+: cs := by
  unfold scan
  split
  · exact List.takeWhile_prefix _
  split
  · exact List.prefix_rfl
  split
  · exact List.takeWhile_prefix _
  split
  · exact List.takeWhile_prefix _
  split
  · exact throughClose_isPrefix _ _
  split
  · exact throughQuote_isPrefix _ _
  split
  · exact throughClose_isPrefix _ _
  split
  · exact operatorTail?_isPrefix ‹_›
  · exact List.takeWhile_prefix _

@[simp] theorem lexFrom_nil (keepBlanks : Bool) (place : Place) (start : Nat) :
    lexFrom keepBlanks place start [] = [] := by
  rw [lexFrom]

end MissionScript
