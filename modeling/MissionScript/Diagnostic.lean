import MissionScript.Definition
import MissionScript.Expression
import MissionScript.Json.Document

/-!
# MissionScript.Diagnostic

What can go wrong, and the words for it.

A `Failure` stops the compiler outright: a file that cannot be read, a catalog that does not fit together.
Problems in the text of a script do not stop it; they are collected as diagnostics, of which each names
its line, counted from one, and the characters of the line it is about.
-/

namespace MissionScript

/-! ### Failures -/

/-- A reason to stop. -/
inductive Failure
  /-- A file could not be read or written. -/
  | inaccessible
  /-- A file that was named is not there. -/
  | notFound (message : String)
  /-- JSON text could not be read. -/
  | json (fault : JsonFault)
  /-- A definition does not fit its template, or does not fit into the catalog. -/
  | invalidDefinition (id : Nat) (fault : DefinitionFault)
  /-- The catalog lacks a command that the compiler needs. -/
  | missingCommand (id : Nat) (version : GameVersion)
  /-- A jump leads to no command. -/
  | unresolvedJump (line : Nat)
  deriving DecidableEq, Repr

/-- The message that a command is not available. -/
def unavailableMessage (id : Nat) (version : GameVersion) : String :=
  let title := version.title
  s!"Command {id} is not available for {title}"

/-- The message for a failure. Those of the file system and of JSON have no wording of their own. -/
def Failure.message : Failure → String
  | .inaccessible => "IOError"
  | .notFound message => s!"FileNotFoundError: {message}"
  | .json _ => "JsonError"
  | .invalidDefinition id fault =>
    let message := fault.message
    s!"Invalid syntax definition {id}: {message}"
  | .missingCommand id version => unavailableMessage id version
  | .unresolvedJump line => s!"Jump on line {line} was never resolved"

/-! ### Problems of a script -/

/-- A problem in the text of a script. -/
inductive Problem
  /-- The catalog lacks a command that the line needs. -/
  | unavailable (id : Nat) (version : GameVersion)
  /-- Nothing follows a conditional. -/
  | missingCommand (condition : Conditional)
  /-- The command cannot carry the conditional in front of it. -/
  | wrongConditional (template : String) (condition : Conditional)
  /-- No command has the shape of the line. -/
  | unknownCommand (source : String)
  /-- The catalog has no command for the elements of arrays. -/
  | noArrayAccess (version : GameVersion)
  /-- There are more values than slots. -/
  | unexpectedValue (text : String)
  | parameter (error : ParameterError)
  | expression (fault : ExpressionFault)
  /-- Something that is neither a return value nor an object stands before a script call. -/
  | unexpectedBeforeCall (text : String)
  | missingScriptName
  /-- Something other than a colon follows the name of a script. -/
  | missingColon (text : String)
  /-- Something that is no value stands among the arguments of a script call. -/
  | unexpectedArgument (text : String)
  /-- A block is still open at the end of the script. -/
  | missingEnd (opener : String)
  | duplicateLabel (name : String) (firstLine : Nat)
  | undefinedLabel (name : String)
  /-- A command that belongs into a loop stands outside. -/
  | outsideLoop (text : String)
  | elseWithoutIf
  | endWithoutBlock
  | skipWithoutCommand
  | wrongCount (template : String) (expected given : Nat)
  | invalidParameter (text : String) (type : ParameterType)
  /-- A problem in words of its own. -/
  | remark (text : String)
  deriving DecidableEq, Repr

/-- The message for a problem. -/
def Problem.message : Problem → String
  | .unavailable id version => unavailableMessage id version
  | .missingCommand condition =>
    let words := condition.words
    s!"Missing command after '{words}'"
  | .wrongConditional template condition =>
    let words := condition.words
    s!"'{template}' cannot be used with '{words}'"
  | .unknownCommand source => s!"Unknown command '{source}'"
  | .noArrayAccess version =>
    let title := version.title
    s!"Array access is not available for {title}"
  | .unexpectedValue text => s!"Unexpected '{text}'"
  | .parameter error => error.message
  | .expression fault => fault.message
  | .unexpectedBeforeCall text => s!"Unexpected '{text}' before 'call script'"
  | .missingScriptName => "Missing script name"
  | .missingColon text => s!"Expected ':' but found '{text}'"
  | .unexpectedArgument text => s!"Unexpected '{text}' in argument list"
  | .missingEnd opener => s!"Missing 'end' for '{opener}'"
  | .duplicateLabel name firstLine => s!"Label '{name}' is already defined on line {firstLine}"
  | .undefinedLabel name => s!"Label '{name}' is not defined"
  | .outsideLoop text => s!"'{text}' must be inside a loop"
  | .elseWithoutIf => "'else' without matching 'if'"
  | .endWithoutBlock => "'end' without matching block"
  | .skipWithoutCommand => "'skip if' must be followed by a command"
  | .wrongCount template expected given =>
    s!"'{template}' takes {expected} parameters but {given} were given"
  | .invalidParameter text type =>
    let title := type.title
    s!"'{text}' is not a valid {title}"
  | .remark text => text

/-- A problem, the line it is on and the characters it is about. -/
structure Diagnostic where
  problem : Problem
  line : Nat
  start : Nat
  stop : Nat
  deriving DecidableEq, Repr

namespace Diagnostic

/-- A problem with a token. -/
def ofToken (problem : Problem) (line : Nat) (t : Token) : Diagnostic :=
  ⟨problem, line, t.start, t.stop⟩

/-- A problem with a run of tokens. -/
def ofTokens (problem : Problem) (line : Nat) (tokens : List Token) : Diagnostic :=
  ⟨problem, line, (Token.extent tokens).1, (Token.extent tokens).2⟩

/-- The message for the problem. -/
def message (d : Diagnostic) : String := d.problem.message

/-- A diagnostic on one line. -/
def shown (d : Diagnostic) : String :=
  let message := d.message
  let line := d.line
  let start := d.start
  let stop := d.stop
  s!"line {line} [{start}..{stop}]: {message}"

/-- A diagnostic that points into the file at `path`. Columns are counted from one. -/
def render (d : Diagnostic) (path : String) : String :=
  let message := d.message
  let line := d.line
  let column := d.start + 1
  s!"Error: {message}\n  --> {path}:{line}:{column}"

/-- Diagnostics are listed by line, and by column within a line. -/
def before (d e : Diagnostic) : Bool :=
  d.line < e.line || (d.line == e.line && d.start ≤ e.start)

end Diagnostic

end MissionScript
