import MissionScript.Definition
import MissionScript.Flow
import MissionScript.Text.Characters

/-!
# MissionScript.Statement

One line of a script that has been read, or a command that the compiler adds.

A statement is *executable* when it becomes a command of the compiled script, *auxiliary* when it is
kept beside the commands (blank lines, comments and commented commands), and *virtual* when it only
marks the boundary of a block. A line that could not be read is none of these.
-/

namespace MissionScript

/-- A line that has been read, or a command that the compiler adds. -/
structure Statement where
  flow : Flow := .plain
  condition : Conditional := .unconditional
  /-- The command that the line stands for; none when it could not be read. -/
  command : Option Definition := none
  /-- The parameters in physical order. An expression holds its return value and then the
  expression as written. -/
  parameters : List Parameter := []
  /-- The operands and operators of an expression as evaluated. -/
  evaluated : List Parameter := []
  line : Nat := 0
  start : Nat := 0
  stop : Nat := 0
  text : String := ""
  commented : Bool := false
  synthetic : Bool := false
  deriving DecidableEq, Repr, Inhabited

namespace Statement

/-- The number of blanks at the front of a line. -/
def leadingBlanks (text : String) : Nat := (text.toList.takeWhile Text.isBlank).length

/-- The number of characters of a line without the blanks at its back. -/
def trimmedLength (text : String) : Nat := (Text.trimEnd text.toList).length

/-- The statement of a line. It covers the characters between the blanks around it. -/
def ofLine (command : Option Definition) (condition : Conditional) (parameters : List Parameter)
    (line : Nat) (text : String) : Statement :=
  { flow := Flow.ofCommand (command.map (·.id)) condition, condition, command, parameters, line,
    start := leadingBlanks text, stop := max (trimmedLength text) (leadingBlanks text), text }

/-- A command that no line stands for. -/
def added (command : Definition) (parameters : List Parameter) (line : Nat) : Statement :=
  { ofLine (some command) .unconditional parameters line command.text with
    start := 0, stop := 0, synthetic := true }

/-- The number of the command. -/
def id? (s : Statement) : Option Nat := s.command.map (·.id)

/-- The kind of the command. -/
def kind? (s : Statement) : Option CommandKind := s.command.map (·.kind)

/-- Does the statement only mark the boundary of a block? -/
def isVirtual (s : Statement) : Bool :=
  !s.commented && (s.flow == .elseBlock || s.flow == .blockEnd)

/-- Does the statement become a command of the compiled script? -/
def isExecutable (s : Statement) : Bool :=
  !s.commented && !s.isVirtual &&
    (s.kind? == some .standard || s.kind? == some .expression || s.kind? == some .scriptCall)

/-- Is the statement kept beside the commands of the compiled script? -/
def isAuxiliary (s : Statement) : Bool :=
  s.commented || s.kind? == some .comment || s.kind? == some .auxiliary

/-- Does the statement declare a label? -/
def isLabel (s : Statement) : Bool := !s.commented && s.id? == some CommandId.defineLabel

/-- Does the statement jump to a label? -/
def isLabelJump (s : Statement) : Bool := !s.commented && (s.flow == .goto || s.flow == .gosub)

/-- No statement is both executable and auxiliary. -/
theorem isAuxiliary_eq_false_of_isExecutable {s : Statement} (h : s.isExecutable = true) :
    s.isAuxiliary = false := by
  simp only [isExecutable, Bool.and_eq_true, Bool.or_eq_true, beq_iff_eq,
    Bool.not_eq_true'] at h
  obtain ⟨⟨hc, -⟩, hk⟩ := h
  rcases hk with (hk | hk) | hk <;> simp [isAuxiliary, hc, hk]

end Statement

end MissionScript
