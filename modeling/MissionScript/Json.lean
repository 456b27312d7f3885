/-!
# MissionScript.Json

JSON values as this library writes them: compiled scripts and configurations. Numbers are integers
only, and the members of an object keep the order in which they are given.

The text is laid out over several lines: two blanks of indentation for each level, one item or
member on a line, and an empty list or object as a pair of brackets.
-/

namespace MissionScript

/-- A JSON value. -/
inductive Json
  | null
  | bool (b : Bool)
  | int (n : Int)
  | str (s : String)
  | arr (items : List Json)
  | obj (members : List (String × Json))
  deriving Inhabited

namespace Json

/-! ### Scalars -/

/-- The digit of value `n` in lower case hexadecimal. -/
def hexDigit (n : Nat) : Char := Nat.digitChar (n % 16)

/-- How a character is written between quotation marks. Quotation marks, backslashes and control
characters are escaped, everything else stands for itself. -/
def escapeChar (c : Char) : List Char :=
  if c = '"' then ['\\', '"']
  else if c = '\\' then ['\\', '\\']
  else if c = '\x08' then ['\\', 'b']
  else if c = '\x0c' then ['\\', 'f']
  else if c = '\n' then ['\\', 'n']
  else if c = '\r' then ['\\', 'r']
  else if c = '\t' then ['\\', 't']
  else if c.toNat < 0x20 then ['\\', 'u', '0', '0', hexDigit (c.toNat / 16), hexDigit c.toNat]
  else [c]

/-- A text between quotation marks. -/
def quote (s : String) : List Char := '"' :: s.toList.flatMap escapeChar ++ ['"']

/-- The decimal digits of an integer, with a minus sign in front of a negative one. -/
def decimal : Int → List Char
  | .ofNat n => Nat.toDigits 10 n
  | .negSucc n => '-' :: Nat.toDigits 10 (n + 1)

/-! ### Layout -/

/-- A line break and the blanks at the start of a line on `level`. -/
def newline (level : Nat) : List Char := '\n' :: List.replicate (2 * level) ' '

mutual

/-- The text of a value that stands on `level`. -/
def layout (level : Nat) : Json → List Char
  | .null => "null".toList
  | .bool true => "true".toList
  | .bool false => "false".toList
  | .int n => decimal n
  | .str s => quote s
  | .arr [] => ['[', ']']
  | .arr (item :: items) =>
    '[' :: newline (level + 1) ++ layout (level + 1) item ++ layoutItems (level + 1) items ++
      newline level ++ [']']
  | .obj [] => ['{', '}']
  | .obj ((key, value) :: members) =>
    '{' :: newline (level + 1) ++ quote key ++ [':', ' '] ++ layout (level + 1) value ++
      layoutMembers (level + 1) members ++ newline level ++ ['}']

/-- The text of the items after the first. -/
def layoutItems (level : Nat) : List Json → List Char
  | [] => []
  | item :: items => ',' :: newline level ++ layout level item ++ layoutItems level items

/-- The text of the members after the first. -/
def layoutMembers (level : Nat) : List (String × Json) → List Char
  | [] => []
  | (key, value) :: members =>
    ',' :: newline level ++ quote key ++ [':', ' '] ++ layout level value ++
      layoutMembers level members

end

/-- The text of a value, laid out over several lines. -/
def pretty (j : Json) : String := String.ofList (j.layout 0)

/-! ### Building values -/

/-- A natural number. -/
def nat (n : Nat) : Json := .int n

/-- A value, or `null` when there is none. -/
def optional (f : α → Json) : Option α → Json
  | none => .null
  | some a => f a

/-- The list of the values of `as`. -/
def list (f : α → Json) (as : List α) : Json := .arr (as.map f)

end Json

end MissionScript
