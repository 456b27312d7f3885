/-!
# MissionScript.Operator

The operators of expressions: how they are written, how strongly they bind, and the number that
stands for each of them in a compiled script.
-/

namespace MissionScript

/-- An operator or bracket of an expression. -/
inductive Operator
  | logicalOr
  | logicalAnd
  | bitwiseOr
  | bitwiseXor
  | bitwiseAnd
  | equal
  | notEqual
  | less
  | greater
  | lessEqual
  | greaterEqual
  | add
  | subtract
  | multiply
  | divide
  | modulus
  | minus
  | logicalNot
  | bitwiseNot
  | openBracket
  | closeBracket
  deriving DecidableEq, Repr, Inhabited

namespace Operator

/-- The number of an operator in a compiled script. -/
def code : Operator → Int
  | .logicalOr => 0
  | .logicalAnd => 1
  | .bitwiseOr => 2
  | .bitwiseXor => 3
  | .bitwiseAnd => 4
  | .equal => 5
  | .notEqual => 6
  | .less => 7
  | .greater => 8
  | .lessEqual => 9
  | .greaterEqual => 10
  | .add => 11
  | .subtract => 12
  | .multiply => 13
  | .divide => 14
  | .modulus => 15
  | .minus => 16
  | .logicalNot => 17
  | .bitwiseNot => 18
  | .openBracket => 19
  | .closeBracket => 20

/-- The operator with two operands that is written `text`. -/
def binary? (text : String) : Option Operator :=
  if text == "OR" || text == "||" then some .logicalOr
  else if text == "AND" || text == "&&" then some .logicalAnd
  else if text == "|" then some .bitwiseOr
  else if text == "^" then some .bitwiseXor
  else if text == "&" then some .bitwiseAnd
  else if text == "==" then some .equal
  else if text == "!=" then some .notEqual
  else if text == "<" then some .less
  else if text == ">" then some .greater
  else if text == "<=" then some .lessEqual
  else if text == ">=" then some .greaterEqual
  else if text == "+" then some .add
  else if text == "-" then some .subtract
  else if text == "*" then some .multiply
  else if text == "/" then some .divide
  else if text == "MOD" || text == "%" then some .modulus
  else none

/-- The operator with one operand that is written `text`. -/
def unary? (text : String) : Option Operator :=
  if text == "-" then some .minus
  else if text == "!" then some .logicalNot
  else if text == "~" then some .bitwiseNot
  else none

/-- Does the operator take one operand? -/
def isUnary : Operator → Bool
  | .minus | .logicalNot | .bitwiseNot => true
  | _ => false

/-- How strongly an operator binds. Of two binary operators that bind alike the left one comes
first. -/
def precedence : Operator → Nat
  | .logicalOr => 1
  | .logicalAnd => 2
  | .bitwiseOr => 3
  | .bitwiseXor => 4
  | .bitwiseAnd => 5
  | .equal | .notEqual => 6
  | .less | .greater | .lessEqual | .greaterEqual => 7
  | .add | .subtract => 8
  | .multiply | .divide | .modulus => 9
  | .minus | .logicalNot | .bitwiseNot => 10
  | .openBracket | .closeBracket => 0

end Operator

end MissionScript
