import MissionScript.Operator
import MissionScript.Parameter

/-!
# MissionScript.Expression

Expressions in two orders: as *written*, brackets included, and as *evaluated*, where every operator
follows its operands.

One pass over the tokens keeps the operators that still wait for their right operand on a stack. An
operator leaves the stack for the evaluation order when one arrives that does not bind more
strongly, when the bracket around it closes, or at the end.
-/

namespace MissionScript

/-- An expression as written and as evaluated. -/
structure Expression where
  written : List Parameter
  evaluated : List Parameter
  deriving DecidableEq, Repr

/-- What is wrong with an expression. -/
inductive ExpressionFault
  | empty
  | missingOperator (text : String)
  | missingOperandBeforeBracket
  | missingOperandAtEnd
  | unmatchedOpen
  | unmatchedClose
  | unexpected (text : String)
  | operand (error : ParameterError)
  deriving DecidableEq, Repr

/-- The message for a fault. -/
def ExpressionFault.message : ExpressionFault → String
  | .empty => "Expression is empty"
  | .missingOperator text => s!"Missing operator before '{text}'"
  | .missingOperandBeforeBracket => "Missing operand before ')'"
  | .missingOperandAtEnd => "Missing operand at end of expression"
  | .unmatchedOpen => "Unmatched '('"
  | .unmatchedClose => "Unmatched ')'"
  | .unexpected text => s!"Unexpected '{text}' in expression"
  | .operand error => error.message

/-- A fault and the characters where it shows. -/
structure ExpressionError where
  fault : ExpressionFault
  start : Nat
  stop : Nat
  deriving DecidableEq, Repr

/-- A fault at a token. -/
def ExpressionFault.at (fault : ExpressionFault) (t : Token) : ExpressionError :=
  ⟨fault, t.start, t.stop⟩

/-- An operator in a slot. -/
def Parameter.ofOperator (slot : Slot) (operator : Operator) (t : Token) : Parameter :=
  { slot, dataType := .operator, value := .int operator.code, text := t.text, start := t.start,
    stop := t.stop }

namespace Expression

/-- An expression of which some tokens have been read. -/
structure Reading where
  written : List Parameter := []
  evaluated : List Parameter := []
  /-- The operators and open brackets that wait for their right side, the last one first. -/
  stack : List (Operator × Token) := []
  /-- Does an operand come next? -/
  wantsOperand : Bool := true
  deriving Repr

namespace Reading

/-- Adds an operator or bracket as written. Slots are numbered from `first` on. -/
def write (first : Nat) (operator : Operator) (t : Token) (r : Reading) : Reading :=
  { r with
    written := r.written ++
      [Parameter.ofOperator (Slot.operand (first + r.written.length)) operator t] }

/-- Adds operators to the evaluation order. -/
def evaluate : List (Operator × Token) → List Parameter → List Parameter
  | [], evaluated => evaluated
  | (operator, t) :: rest, evaluated =>
    evaluate rest
      (evaluated ++ [Parameter.ofOperator (Slot.operand evaluated.length) operator t])

/-- Does the operator wait with `top` on the stack? Brackets keep everything below them. -/
def waits (operator top : Operator) : Bool :=
  top == .openBracket || top.precedence < operator.precedence

/-- Reads an operand. -/
def pushOperand (first : Nat) (t : Token) (r : Reading) : Except ExpressionError Reading :=
  match Parameter.ofToken (Slot.operand (first + r.written.length)) t with
  | .error error => .error ((ExpressionFault.operand error).at t)
  | .ok parameter =>
    .ok { r with
      written := r.written ++ [parameter]
      evaluated := r.evaluated ++ [{ parameter with slot := Slot.operand r.evaluated.length }]
      wantsOperand := false }

/-- Reads an operator in front of its operand, or an opening bracket. -/
def pushWaiting (first : Nat) (operator : Operator) (t : Token) (r : Reading) : Reading :=
  { r.write first operator t with stack := (operator, t) :: r.stack }

/-- Reads an operator between two operands. Those on the stack that bind at least as strongly are
complete. -/
def pushBinary (first : Nat) (operator : Operator) (t : Token) (r : Reading) : Reading :=
  let complete := r.stack.takeWhile fun top => !waits operator top.1
  let waiting := r.stack.dropWhile fun top => !waits operator top.1
  { r.write first operator t with
    evaluated := evaluate complete r.evaluated
    stack := (operator, t) :: waiting
    wantsOperand := true }

/-- Reads a closing bracket. The operators up to its opening bracket are complete. -/
def close (first : Nat) (t : Token) (r : Reading) : Except ExpressionError Reading :=
  let inner := r.stack.takeWhile fun top => top.1 != .openBracket
  match r.stack.dropWhile fun top => top.1 != .openBracket with
  | [] => .error (ExpressionFault.unmatchedClose.at t)
  | _ :: outer =>
    .ok { r.write first .closeBracket t with
      evaluated := evaluate inner r.evaluated
      stack := outer }

/-- The minus sign of a negative number as an operator. -/
def minusOf (t : Token) : Token := ⟨.binaryOp, t.start, t.start + 1, "-"⟩

/-- A negative number without its sign. -/
def absOf (t : Token) : Token :=
  ⟨.number, t.start + 1, t.stop, String.ofList t.text.toList.tail⟩

/-- Is the token a number with a minus sign? -/
def isNegative (t : Token) : Bool := t.kind == .number && t.text.toList.head? == some '-'

/-- Reads a token. After an operand, a negative number is a subtraction. -/
def push (first : Nat) (r : Reading) (t : Token) : Except ExpressionError Reading :=
  if t.isOperand then
    if r.wantsOperand then r.pushOperand first t
    -- the sign belongs to the number only where an operand is wanted
    else if isNegative t then
      (r.pushBinary first .subtract (minusOf t)).pushOperand first (absOf t)
    else .error ((ExpressionFault.missingOperator t.text).at t)
  else if t.isOperator "(" then
    if r.wantsOperand then .ok (r.pushWaiting first .openBracket t)
    else .error ((ExpressionFault.missingOperator "(").at t)
  else if t.isOperator ")" then
    if r.wantsOperand then .error (ExpressionFault.missingOperandBeforeBracket.at t)
    else r.close first t
  else
    let unexpected := .error ((ExpressionFault.unexpected t.text).at t)
    if !t.isOperatorKind then unexpected
    else if r.wantsOperand then
      match Operator.unary? t.text with
      | some operator => .ok (r.pushWaiting first operator t)
      | none => unexpected
    else match Operator.binary? t.text with
      | some operator => .ok (r.pushBinary first operator t)
      | none => unexpected

/-- Ends the expression. `last` is its last token, blanks included. -/
def finish (last : Token) (r : Reading) : Except ExpressionError Expression :=
  if r.wantsOperand then .error (ExpressionFault.missingOperandAtEnd.at last)
  else match r.stack.find? fun top => top.1 == .openBracket with
    | some (_, t) => .error (ExpressionFault.unmatchedOpen.at t)
    | none => .ok ⟨r.written, evaluate r.stack r.evaluated⟩

end Reading

/-- Reads an expression. The slots of the written order are numbered from `first` on, so that they
can follow a return value. -/
def parse (tokens : List Token) (first : Nat) : Except ExpressionError Expression :=
  match tokens.getLast? with
  | none => .error ⟨.empty, 0, 0⟩
  | some last => do
    let r ← (tokens.filter Token.isSignificant).foldlM (Reading.push first) {}
    r.finish last

end Expression

end MissionScript
