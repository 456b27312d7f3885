import MissionScript.Conditional
import MissionScript.DataType
import MissionScript.Token

/-!
# MissionScript.Parameter

Values bound to the parameters of a command. A `Slot` is a place that a command declares; a
`Parameter` is what a line puts there, together with the characters it was read from.

Every value token can be read (`Parameter.ofToken`), except a number beyond 32 bits: the numbers of a
script are signed integers of 32 bits. A number in source text that does not fit is reported; a count
that is stored as a number (the index of a command or of a variable) wraps around.
-/

namespace MissionScript

/-! ### Numbers -/

/-- The bound of the numbers of commands: they have 32 bits. -/
def idBound : Nat := 0x100000000

/-- The bound of counts, such as positions and lines: they have 64 bits. -/
def countBound : Nat := 0x10000000000000000

namespace Number

/-- The least number. -/
def least : Int := -0x80000000

/-- The greatest number. -/
def greatest : Int := 0x7fffffff

/-- Does `n` fit into 32 bits? -/
def fits (n : Int) : Bool := least ≤ n && n ≤ greatest

/-- Reads decimal digits, at least one. -/
def digits? (cs : List Char) : Option Nat :=
  if cs.isEmpty || !cs.all Char.isDigit then none else some (Nat.ofDigitChars 10 cs 0)

/-- Reads an optional sign and decimal digits. -/
def signed? : List Char → Option Int
  | '-' :: cs => (digits? cs).map fun n => -(n : Int)
  | '+' :: cs => (digits? cs).map fun n => (n : Int)
  | cs => (digits? cs).map fun n => (n : Int)

/-- Reads a number of 32 bits: an optional sign and decimal digits. -/
def ofText? (text : String) : Option Int := (signed? text.toList).filter fits

/-- A count as a number: the count itself as long as it fits into 32 bits. -/
def ofCount (n : Nat) : Int := (n : Int).bmod 0x100000000

theorem ofCount_of_lt {n : Nat} (h : n < 0x80000000) : ofCount n = n := by
  unfold ofCount
  rw [Int.bmod_eq_of_le] <;> omega

end Number

/-! ### Slots -/

/-- A place for a parameter: its declared type, its position in the compiled command and its
position in the text of the command. -/
structure Slot where
  type : ParameterType
  physical : Nat
  display : Nat
  deriving DecidableEq, Repr, Inhabited

/-- The place of an operand or operator in an expression. -/
def Slot.operand (index : Nat) : Slot := ⟨.operand, index, index⟩

/-- The place of a variable argument. -/
def Slot.argument (index : Nat) : Slot := ⟨.argument, index, index⟩

/-! ### Values -/

/-- The value of a parameter. -/
inductive Value
  | int (n : Int)
  | str (s : String)
  deriving DecidableEq, Repr, Inhabited

/-- A value as text. -/
def Value.shown : Value → String
  | .int n => toString n
  | .str s => s

/-! ### Texts of tokens -/

/-- The characters of `cs` without the opening and the closing bracket, as far as they are there. -/
def stripBrackets (opening closing : Char) (cs : List Char) : List Char :=
  let inner := if cs.head? = some opening then cs.tail else cs
  if inner.getLast? = some closing then inner.dropLast else inner

/-- Drops each backslash that is not itself escaped and keeps the character after it. -/
def unescape : List Char → List Char
  | [] => []
  | c :: cs =>
    if c = '\\' then
      match cs with
      | [] => []
      | d :: cs => d :: unescape cs
    else c :: unescape cs

/-- Does `cs` end with an apostrophe in front of which an even number of backslashes stands? -/
def endsWithQuote (cs : List Char) : Bool :=
  cs.getLast? = some '\'' && (cs.dropLast.reverse.takeWhile (· = '\\')).length % 2 = 0

/-- The text that a string in apostrophes stands for. The closing apostrophe may be missing. -/
def unquote (cs : List Char) : List Char :=
  let inner := if cs.head? = some '\'' then cs.tail else cs
  unescape (if endsWithQuote inner then inner.dropLast else inner)

/-! ### Parameters -/

/-- What a line puts into a slot, with the characters it was read from. -/
structure Parameter where
  slot : Slot
  dataType : DataType
  value : Value
  text : String := ""
  start : Nat := 0
  stop : Nat := 0
  deriving DecidableEq, Repr, Inhabited

/-- Why a token is no parameter. -/
inductive ParameterError
  /-- A number does not fit into 32 bits. -/
  | outOfRange (text : String)
  /-- The token is not a value. -/
  | notAValue (text : String)
  deriving DecidableEq, Repr

/-- The message for a token that is no parameter. -/
def ParameterError.message : ParameterError → String
  | .outOfRange text => s!"Number '{text}' is out of range"
  | .notAValue text => s!"'{text}' is not a value"

namespace Parameter

/-- The type and the value that a token stands for. -/
def read (t : Token) : Except ParameterError (DataType × Value) :=
  match t.kind with
  | .var => .ok (.var, .str (String.ofList t.text.toList.tail))
  | .number =>
    match Number.ofText? t.text with
    | some n => .ok (.integer, .int n)
    | none => .error (.outOfRange t.text)
  | .string => .ok (.string, .str (String.ofList (unquote t.text.toList)))
  | .object => .ok (.object, .str (String.ofList (stripBrackets '{' '}' t.text.toList)))
  | .constant => .ok (.constant, .str (String.ofList (stripBrackets '[' ']' t.text.toList)))
  | .null => .ok (.null, .int 0)
  | .label => .ok (.string, .str t.text)
  | _ => .error (.notAValue t.text)

/-- The token `t` in a slot. -/
def ofToken (slot : Slot) (t : Token) : Except ParameterError Parameter :=
  (read t).map fun (dataType, value) =>
    { slot, dataType, value, text := t.text, start := t.start, stop := t.stop }

/-- A token in a slot stands for what it is read as, and keeps its text and its place. -/
theorem of_ofToken {slot : Slot} {t : Token} {p : Parameter} (h : ofToken slot t = .ok p) :
    p.slot = slot ∧ read t = .ok (p.dataType, p.value) ∧ p.text = t.text ∧ p.start = t.start ∧
      p.stop = t.stop := by
  unfold ofToken at h
  cases hread : read t with
  | error e =>
      rw [hread] at h
      cases h
  | ok found =>
      rw [hread] at h
      cases h
      exact ⟨rfl, rfl, rfl, rfl, rfl⟩

/-- The text of the token `t` as a string, in a slot. -/
def ofText (slot : Slot) (text : String) (start stop : Nat) : Parameter :=
  { slot, dataType := .string, value := .str text, text, start, stop }

/-- A conditional in the place of a return value. It was read from the characters given. -/
def conditional (slot : Slot) (condition : Conditional) (extent : Nat × Nat) : Parameter :=
  { slot, dataType := .integer, value := .int condition.code, start := extent.1,
    stop := extent.2 }

/-- An empty slot. -/
def null (slot : Slot) : Parameter := { slot, dataType := .null, value := .int 0 }

/-- The name of the variable in the slot, if there is one. -/
def varName? (p : Parameter) : Option String :=
  match p.dataType, p.value with
  | .var, .str name => some name
  | _, _ => none

end Parameter

end MissionScript
