import MissionScript.Catalog
import MissionScript.Diagnostic
import MissionScript.Statement

/-!
# MissionScript.Statement.Reader

Reads one line of a script. A line is, in this order of trial,

* blank, or a comment when it starts with an asterisk;
* a read or write of an element of an array;
* an expression, assigned or tested;
* a call of another script;
* a command of the catalog, recognised by its shape, possibly with variable arguments at its end.

Every line gives a statement. A line that cannot be read gives one without a command, and the
reason (`readLine` reports a problem exactly when the statement has no command).
-/

namespace MissionScript

namespace Language

/-- A command that the compiler relies on. -/
def command (lang : Language) (id : Nat) : Except Problem Definition :=
  match lang.find? id with
  | some d => .ok d
  | none => .error (.unavailable id lang.version)

/-- The commands that a run of tokens may stand for. With a conditional in front, the line leaves
out the return value; otherwise it does not. -/
def candidates (lang : Language) (condition : Conditional) (tokens : List Token) :
    List Candidate :=
  (lang.withShape (Token.shape tokens)).filter
    (·.omitsReturn == (condition != .unconditional))

/-! ### Conditionals -/

/-- The tokens after the given control words. -/
def stripKeywords : List String → List Token → Option (List Token)
  | [], tokens => some tokens
  | _ :: _, [] => none
  | word :: words, t :: tokens =>
    if t.isKeyword word then stripKeywords words tokens else none

/-- The words of the conditionals that test a result, longer ones first. -/
def testWords : List (List String × Conditional) :=
  [ (["if", "not"], .ifNot),
    (["if"], .ifTrue),
    (["else", "if", "not"], .elseIfNot),
    (["else", "if"], .elseIf),
    (["while", "not"], .whileNot),
    (["while"], .whileTrue),
    (["skip", "if", "not"], .skipIfNot),
    (["skip", "if"], .skipIf),
    (["do", "if"], .skipIfNot) ]

/-- Splits a conditional off the front of a line. A line that is just `start` has none. -/
def readConditional (tokens : List Token) : Conditional × List Token :=
  match testWords.findSome? fun (words, condition) =>
      (stripKeywords words tokens).map (condition, ·) with
  | some found => found
  | none =>
    match tokens with
    | t :: rest =>
      if t.isKeyword "start" && !rest.isEmpty then (.start, rest) else (.unconditional, tokens)
    | [] => (.unconditional, [])

/-! ### Binding values to slots -/

/-- Puts the value tokens of a line into the slots of a command, starting with the slot at a
display position. -/
def bindValues (d : Definition) (line : Nat) :
    Nat → List Token → Except Diagnostic (List Parameter)
  | _, [] => .ok []
  | display, t :: tokens =>
    match d.slotAtDisplay? display with
    | none => .error (.ofToken (.unexpectedValue t.text) line t)
    | some slot =>
      match Parameter.ofToken slot t with
      | .error error => .error (.ofToken (.parameter error) line t)
      | .ok p => do return p :: (← bindValues d line (display + 1) tokens)

/-- Puts value tokens into slots for variable arguments, numbered from `index` on. -/
def bindArguments (line : Nat) : Nat → List Token → Except Diagnostic (List Parameter)
  | _, [] => .ok []
  | index, t :: tokens =>
    match Parameter.ofToken (Slot.argument index) t with
    | .error error => .error (.ofToken (.parameter error) line t)
    | .ok p => do return p :: (← bindArguments line (index + 1) tokens)

/-- The return value slot of a line that leaves its return value out: it holds the conditional. -/
def omittedReturn (found : Candidate) (condition : Conditional) (tokens : List Token) :
    List Parameter :=
  if found.omitsReturn then
    (found.definition.slotAtDisplay? 0).toList.map
      (Parameter.conditional · condition (Token.extent tokens))
  else []

/-- The parameters of a command in physical order, followed by its variable arguments, padded with
nulls to the number that the command declares. -/
def bindParameters (found : Candidate) (condition : Conditional) (line : Nat)
    (tokens arguments : List Token) : Except Diagnostic (List Parameter) := do
  let d := found.definition
  let values ← bindValues d line (if found.omitsReturn then 1 else 0)
    (tokens.filter Token.isValue)
  -- values come in display order and leave in physical order
  let placed := omittedReturn found condition tokens ++ values
  let parameters := (List.range d.parameters.length).filterMap fun physical =>
    placed.find? (·.slot.physical == physical)
  let bound := parameters ++ (← bindArguments line parameters.length arguments)
  let padding := List.range' bound.length (d.parameters.length + d.vargs - bound.length)
  return bound ++ padding.map fun index => Parameter.null (Slot.argument index)

/-! ### Elements of arrays -/

/-- Are these tokens `$array[index]`? -/
def isElement (array opening index closing : Token) : Bool :=
  array.kind == .var && opening.isOperator "[" && index.isOperand && closing.isOperator "]"

/-- Is the line a read or write of an element of an array? -/
def isArrayAccess (condition : Conditional) : List Token → Bool
  | [a, b, c, d] => condition.isTest && isElement a b c d
  | [a, b, c, d, e, f] =>
    condition == .unconditional &&
      ((isElement a b c d && e.isOperator "=" && f.isOperand) ||
        (a.kind == .var && b.isOperator "=" && isElement c d e f))
  | _ => false

/-- Reads a read or write of an element of an array. -/
def readArrayAccess (lang : Language) (condition : Conditional) (tokens : List Token)
    (line : Nat) (text : String) : Except Diagnostic Statement :=
  match (lang.candidates condition tokens).head? with
  | none => .error (.ofTokens (.noArrayAccess lang.version) line tokens)
  | some found => do
    let parameters ← bindParameters found condition line tokens []
    return Statement.ofLine (some found.definition) condition parameters line text

/-! ### Expressions -/

/-- May the token stand in an expression? -/
def isOperandOrOperator (t : Token) : Bool := t.isOperand || t.isOperatorKind

/-- Is the line an expression, assigned to a variable or tested? -/
def isExpression (condition : Conditional) (tokens : List Token) : Bool :=
  if condition.isTest then tokens.all isOperandOrOperator
  else condition == .unconditional &&
    match tokens with
    | target :: equals :: operands =>
      target.kind == .var && equals.isOperator "=" && !operands.isEmpty &&
        operands.all isOperandOrOperator
    | _ => false

/-- Reads an expression. A test stands in the place of the return value. -/
def readExpression (lang : Language) (condition : Conditional) (tokens : List Token)
    (line : Nat) (text : String) : Except Diagnostic Statement := do
  let d ← (lang.command CommandId.expression).mapError (⟨·, line, 0, 0⟩)
  let slot := (d.slot? 0).getD ⟨.returnValueIf, 0, 0⟩
  let (target, operands) ←
    if condition.isTest then
      .ok (Parameter.conditional slot condition (Token.extent tokens), tokens)
    else match tokens with
      | t :: _ :: operands =>
        match Parameter.ofToken slot t with
        | .ok target => .ok (target, operands)
        | .error error => .error (Diagnostic.ofToken (.parameter error) line t)
      | _ => .error (Diagnostic.ofTokens (.expression .empty) line tokens)
  let expression ← (Expression.parse operands 1).mapError fun e =>
    ⟨.expression e.fault, line, e.start, e.stop⟩
  return { Statement.ofLine (some d) condition (target :: expression.written) line text with
    evaluated := expression.evaluated }

/-! ### Script calls -/

/-- Splits a line at the first `call script`: the tokens before it, the second of the two words,
and the tokens after it. -/
def splitCall : List Token → Option (List Token × Token × List Token)
  | a :: b :: rest =>
    if a.isWord "call" && b.isWord "script" then some ([], b, rest)
    else (splitCall (b :: rest)).map fun (before, word, after) => (a :: before, word, after)
  | _ => none

/-- The slot of a script call at a physical position. -/
def callSlot (d : Definition) (physical : Nat) : Slot :=
  (d.slot? physical).getD (Slot.argument physical)

/-- A token in a slot, or the problem with it. -/
def bindToken (slot : Slot) (line : Nat) (t : Token) : Except Diagnostic Parameter :=
  (Parameter.ofToken slot t).mapError fun error => .ofToken (.parameter error) line t

/-- Reads what stands before `call script`: an optional return value and an optional object. -/
def readCallTarget (d : Definition) (line : Nat) (tokens : List Token) :
    Except Diagnostic (Option Parameter × Option Parameter) := do
  let (target, tokens) ← match tokens with
    | t :: equals :: rest =>
      if t.kind == .var && equals.isOperator "=" then do
        pure (some (← bindToken (callSlot d 1) line t), rest)
      else pure (none, tokens)
    | _ => pure (none, tokens)
  let (object, tokens) ← match tokens with
    | [t, arrow] =>
      if t.isValue && arrow.isOperator "->" then do
        pure (some (← bindToken (callSlot d 2) line t), [])
      else pure (none, tokens)
    | _ => pure (none, tokens)
  match tokens with
  | [] => return (target, object)
  | t :: _ => .error (.ofToken (.unexpectedBeforeCall t.text) line t)

/-- Reads the name of the script that is called: a string or a word. -/
def readCallName (d : Definition) (line : Nat) (word : Token) :
    List Token → Except Diagnostic (Parameter × List Token)
  | t :: rest =>
    if t.kind == .string then do return (← bindToken (callSlot d 0) line t, rest)
    else if t.kind == .word then
      .ok (Parameter.ofText (callSlot d 0) t.text t.start t.stop, rest)
    else .error (.ofToken .missingScriptName line word)
  | [] => .error (.ofToken .missingScriptName line word)

/-- An argument of a script call. -/
def readArgument (line index : Nat) (t : Token) : Except Diagnostic Parameter :=
  if t.isValue then bindToken (Slot.argument index) line t
  else .error (.ofToken (.unexpectedArgument t.text) line t)

/-- Reads the arguments of a script call. A name in front of an argument is for readers only. -/
def readArguments (line : Nat) : Nat → List Token → Except Diagnostic (List Parameter)
  | _, [] => .ok []
  | index, [t] => do return [← readArgument line index t]
  | index, t :: equals :: rest =>
    if t.kind == .word && equals.isOperator "=" then readArguments line index rest
    else do
      let p ← readArgument line index t
      return p :: (← readArguments line (index + 1) (equals :: rest))

/-- The tokens after the colon that separates the name of a script from its arguments. -/
def skipColon (line : Nat) : List Token → Except Diagnostic (List Token)
  | [] => .ok []
  | t :: rest =>
    if t.isOperator ":" then .ok rest else .error (.ofToken (.missingColon t.text) line t)

/-- Reads a script call: `[$ret =] [object ->] call script name [: [name =] value ...]`. -/
def readScriptCall (lang : Language) (condition : Conditional) (tokens before : List Token)
    (word : Token) (after : List Token) (line : Nat) (text : String) :
    Except Diagnostic Statement := do
  let d ← (lang.command CommandId.callScript).mapError (⟨·, line, 0, 0⟩)
  let (target, object) ← readCallTarget d line before
  let (name, rest) ← readCallName d line word after
  let absent :=
    if condition = .unconditional then Parameter.null (callSlot d 1)
    else Parameter.conditional (callSlot d 1) condition (Token.extent tokens)
  let arguments ← readArguments line 3 (← skipColon line rest)
  let parameters := name :: target.getD absent ::
    object.getD (Parameter.null (callSlot d 2)) :: arguments
  return Statement.ofLine (some d) condition parameters line text

/-! ### Commands of the catalog -/

/-- The command that a line stands for, first as written, then with values at its end taken for
variable arguments; and those arguments. -/
def findCommand (lang : Language) (condition : Conditional) (tokens : List Token) :
    Option (Candidate × List Token) :=
  match (lang.candidates condition tokens).head? with
  | some found => some (found, [])
  | none =>
    -- as few values as possible are taken for arguments
    let trailing := (tokens.reverse.takeWhile Token.isValue).length
    (List.range' 1 trailing).findSome? fun stripped =>
      let size := tokens.length - stripped
      ((lang.candidates condition (tokens.take size)).find?
        (stripped ≤ ·.definition.vargs)).map (·, tokens.drop size)

/-- Why no command has the shape of the line. -/
def unreadable (lang : Language) (condition : Conditional) (tokens : List Token) (first : Token)
    (line : Nat) (text : String) : Diagnostic :=
  -- a command that would fit if its return value were written
  let full := (lang.withShape ("$ = " ++ Token.shape tokens)).head?
  match (if condition = .unconditional then none else full) with
  | some found => .ofTokens (.wrongConditional found.definition.text condition) line tokens
  | none =>
    let (start, stop) := Token.extent tokens
    let source := String.ofList ((text.toList.drop start).take (stop - start))
    .ofTokens (.unknownCommand (if source.isEmpty then first.text else source)) line tokens

/-- Reads a command after its conditional. -/
def readCommand (lang : Language) (condition : Conditional) (tokens : List Token) (line : Nat)
    (text : String) : Except Diagnostic Statement :=
  match tokens with
  | [] => .error ⟨.missingCommand condition, line, 0, Statement.trimmedLength text⟩
  | first :: _ =>
    if isArrayAccess condition tokens then lang.readArrayAccess condition tokens line text
    else if isExpression condition tokens then lang.readExpression condition tokens line text
    else match splitCall tokens with
      | some (before, word, after) =>
        lang.readScriptCall condition tokens before word after line text
      | none =>
        match lang.findCommand condition tokens with
        | some (found, arguments) => do
          let parameters ← bindParameters found condition line
            (tokens.take (tokens.length - arguments.length)) arguments
          return Statement.ofLine (some found.definition) condition parameters line text
        | none => .error (lang.unreadable condition tokens first line text)

/-! ### Lines -/

/-- A line that cannot be read. -/
def problemLine (condition : Conditional) (problem : Diagnostic) (line : Nat) (text : String) :
    Statement × Option Diagnostic :=
  (Statement.ofLine none condition [] line text, some problem)

/-- The command that a comment holds, if its text can be read as one. -/
def readCommented (lang : Language) (body : Token) (line : Nat) (text : String) :
    Option Statement :=
  let inner := (tokens body.text).map (Token.shift body.start)
  match inner with
  | [] => none
  | first :: _ =>
    -- two asterisks make a comment of whatever follows
    if first.isOperator "*" then none
    else
      let (condition, command) := readConditional inner
      match lang.readCommand condition command line text with
      -- a commented command neither opens nor closes a block
      | .ok s => some { s with commented := true, flow := .plain }
      | .error _ => none

/-- Reads a line that starts with the asterisk `star`. When its text is itself a command the line
is a commented command, otherwise a plain comment. -/
def readComment (lang : Language) (star : Token) (body : Option Token) (line : Nat)
    (text : String) : Statement × Option Diagnostic :=
  match body.bind (lang.readCommented · line text) with
  | some s => (s, none)
  | none =>
    match lang.command CommandId.comment with
    | .error problem =>
      problemLine .unconditional (.ofTokens problem line (star :: body.toList)) line text
    | .ok d =>
      let slot := (d.slot? 0).getD ⟨.comment, 0, 0⟩
      let comment := match body with
        | some t => Parameter.ofText slot t.text t.start t.stop
        | none => Parameter.ofText slot "" star.stop star.stop
      (Statement.ofLine (some d) .unconditional [comment] line text, none)

/-- Reads a line: its statement, and the problem with it if it cannot be read. -/
def readLine (lang : Language) (line : Nat) (text : String) : Statement × Option Diagnostic :=
  match tokens text with
  | [] =>
    match lang.command CommandId.blankLine with
    | .ok d => (Statement.ofLine (some d) .unconditional [] line text, none)
    | .error problem => problemLine .unconditional (.ofTokens problem line []) line text
  | first :: rest =>
    if first.isOperator "*" then
      lang.readComment first (rest.head?.filter (·.kind == .comment)) line text
    else
      let (condition, command) := readConditional (first :: rest)
      match lang.readCommand condition command line text with
      | .ok s => (s, none)
      | .error problem => problemLine condition problem line text

/-- The command that a line stands for, if it can be read. -/
def identify (lang : Language) (text : String) : Option Definition :=
  match lang.readLine 1 text with
  | (s, none) => s.command
  | (_, some _) => none

end Language

end MissionScript
