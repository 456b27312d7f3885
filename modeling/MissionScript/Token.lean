/-!
# MissionScript.Token

The pieces a script line is made of. A token knows its kind, the half-open range of characters it
covers on its line, and the text it covers.

Seven kinds are *values*: they can fill a parameter of a command. Two kinds are operators; brackets
and separators count as unary operators.
-/

namespace MissionScript

/-- The kinds of token. -/
inductive TokenKind
  /-- A plain word of a command, such as `sector` in `get sector`. -/
  | word
  /-- A decimal number with an optional minus sign. -/
  | number
  /-- A string in apostrophes. -/
  | string
  /-- A game object in braces. -/
  | object
  /-- A named constant in square brackets. -/
  | constant
  /-- A control word, recognised only near the start of a line. -/
  | keyword
  /-- A variable: a dollar sign and a name. -/
  | var
  /-- The word `null`. -/
  | null
  /-- A label, where it is declared or jumped to. -/
  | label
  /-- A bracket, a separator or an operator with one operand. -/
  | unaryOp
  /-- An operator with two operands. -/
  | binaryOp
  /-- The rest of a line that starts with an asterisk. -/
  | comment
  /-- A run of blanks. -/
  | blank
  deriving DecidableEq, Repr, Inhabited

/-- The name a listing shows for a kind. -/
def TokenKind.name : TokenKind → String
  | .word => "Text"
  | .number => "Number"
  | .string => "String"
  | .object => "GameObject"
  | .constant => "ScriptObject"
  | .keyword => "Keyword"
  | .var => "Variable"
  | .null => "Null"
  | .label => "Label"
  | .unaryOp => "UnaryOperator"
  | .binaryOp => "BinaryOperator"
  | .comment => "Comment"
  | .blank => "Whitespace"

/-- Every kind, in the order in which the kinds are declared. -/
def TokenKind.all : List TokenKind :=
  [.word, .number, .string, .object, .constant, .keyword, .var, .null, .label, .unaryOp, .binaryOp,
    .comment, .blank]

/-- The kind that a listing shows as `name`. -/
def TokenKind.ofName? (name : String) : Option TokenKind :=
  TokenKind.all.find? (·.name == name)

/-- A token: its kind, the characters from `start` up to but not including `stop` of its line, and
their text. -/
structure Token where
  kind : TokenKind
  start : Nat
  stop : Nat
  text : String
  deriving DecidableEq, Repr, Inhabited

namespace Token

/-- The number of characters a token covers. -/
def length (t : Token) : Nat := t.stop - t.start

/-- Does a token cover no characters at all? -/
def isEmpty (t : Token) : Bool := t.start == t.stop

/-- Is the token the control word `text`? -/
def isKeyword (t : Token) (text : String) : Bool := t.kind == .keyword && t.text == text

/-- Is the token an operator, bracket or separator? -/
def isOperatorKind (t : Token) : Bool := t.kind == .unaryOp || t.kind == .binaryOp

/-- Is the token the operator, bracket or separator `text`? -/
def isOperator (t : Token) (text : String) : Bool := t.isOperatorKind && t.text == text

/-- Is the token the plain word `text`? -/
def isWord (t : Token) (text : String) : Bool := t.kind == .word && t.text == text

/-- Can the token fill a parameter of a command? -/
def isValue (t : Token) : Bool :=
  match t.kind with
  | .var | .number | .string | .object | .constant | .null | .label => true
  | _ => false

/-- Can the token be an operand of an expression? Labels are values, but not operands. -/
def isOperand (t : Token) : Bool := t.isValue && t.kind != .label

/-- Does the token take part in deciding what a line means? Blanks only separate. -/
def isSignificant (t : Token) : Bool := t.kind != .blank

/-- The token moved `offset` characters to the right. -/
def shift (offset : Nat) (t : Token) : Token :=
  { t with start := t.start + offset, stop := t.stop + offset }

/-- The characters that a run of tokens covers, from the first to the last; an empty run covers
none at the start of the line. -/
def extent (tokens : List Token) : Nat × Nat :=
  match tokens.head?, tokens.getLast? with
  | some first, some last => (first.start, last.stop)
  | _, _ => (0, 0)

@[simp] theorem extent_nil : extent [] = (0, 0) := rfl

@[simp] theorem shift_kind (offset : Nat) (t : Token) : (t.shift offset).kind = t.kind := rfl

@[simp] theorem shift_text (offset : Nat) (t : Token) : (t.shift offset).text = t.text := rfl

/-- The shape of a run of tokens: values are shown as a dollar sign, comments and blanks are left
out, and everything else is kept as written. Commands are recognised by their shape. -/
def shape (tokens : List Token) : String :=
  " ".intercalate
    ((tokens.filter fun t => t.kind != .blank && t.kind != .comment).map fun t =>
      if t.isValue then "$" else t.text)

end Token

end MissionScript
