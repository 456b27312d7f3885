import MissionScript.CommandId
import MissionScript.GameVersion
import MissionScript.Parameter
import MissionScript.Text.Characters
import MissionScript.Token.Lexer

/-!
# MissionScript.Definition

What the catalog knows about one command. The text of a command is a template such as
`$0 = $1 -> get sector`: the number after a dollar sign is the position of the parameter in the
compiled command (its *physical* position), and the order in which the placeholders stand in the text
is the *display* order.

`arrange` reads the display order off the template. It accepts a definition exactly when each
parameter has one placeholder, so that the two orders are permutations of each other.
-/

namespace MissionScript

/-- How the parameters of a command are laid out. -/
inductive CommandKind
  | standard
  | expression
  | scriptCall
  | comment
  | commentedCommand
  | auxiliary
  deriving DecidableEq, Repr, Inhabited

namespace CommandKind

/-- Every kind of command. -/
def all : List CommandKind :=
  [.standard, .expression, .scriptCall, .comment, .commentedCommand, .auxiliary]

/-- The name of a kind in JSON. -/
def name : CommandKind → String
  | .standard => "standard"
  | .expression => "expression"
  | .scriptCall => "script_call"
  | .comment => "comment"
  | .commentedCommand => "commented_command"
  | .auxiliary => "auxiliary"

/-- The kind that JSON calls `name`. -/
def ofName? (name : String) : Option CommandKind := all.find? (·.name == name)

@[simp] theorem ofName?_name (k : CommandKind) : ofName? k.name = some k := by cases k <;> decide

end CommandKind

/-- What is wrong with a definition, alone or beside those that the catalog holds already. -/
inductive DefinitionFault
  | placeholderOutOfRange (placeholder : String)
  | noParameter (index : Nat)
  | repeated (index : Nat)
  | incomplete (placeholders parameters : Nat)
  | alreadyDefined
  | noReturnValue
  | noJumpLabel
  deriving DecidableEq, Repr

/-- The message for a fault. -/
def DefinitionFault.message : DefinitionFault → String
  | .placeholderOutOfRange placeholder => s!"placeholder '{placeholder}' is out of range"
  | .noParameter index => s!"placeholder ${index} has no parameter"
  | .repeated index => s!"placeholder ${index} appears twice"
  | .incomplete placeholders parameters =>
    s!"template references {placeholders} of {parameters} parameters"
  | .alreadyDefined => "id is already defined for the same version"
  | .noReturnValue => "return has no value parameter"
  | .noJumpLabel => "jump has no label parameter"

/-- A command of the catalog. -/
structure Definition where
  id : Nat
  /-- The template, with a placeholder for each parameter. -/
  text : String
  kind : CommandKind := .standard
  /-- The declared types of the parameters, in physical order. -/
  parameters : List ParameterType := []
  /-- The number of variable arguments that may follow the parameters. -/
  vargs : Nat := 0
  /-- The versions that have the command; none stands for all. -/
  versions : List GameVersion := []
  /-- The physical positions of the parameters in display order; empty until `arrange`. -/
  order : List Nat := []
  deriving DecidableEq, Repr

/-- A way in which a line can be recognised as a command. -/
structure Form where
  /-- The shape of the line. -/
  shape : String
  /-- Does the line leave out the return value, to make room for a conditional? -/
  omitsReturn : Bool
  deriving DecidableEq, Repr

namespace Definition

/-! ### Placeholders -/

/-- The digits of the placeholders in a template, from left to right. -/
def placeholders : List Char → List (List Char)
  | [] => []
  | c :: cs =>
    if c = '$' ∧ cs.head?.any Text.isDecimalDigit then
      cs.takeWhile Text.isDecimalDigit :: placeholders cs
    else placeholders cs

/-- The number of a placeholder: ASCII digits, in 64 bits. -/
def placeholderIndex? (digits : List Char) : Option Nat :=
  (Number.digits? digits).filter (· < countBound)

/-- Adds a placeholder to the display order read so far. -/
def addPlaceholder (count : Nat) (order : List Nat) (digits : List Char) :
    Except DefinitionFault (List Nat) :=
  match placeholderIndex? digits with
  | none => .error (.placeholderOutOfRange (String.ofList ('$' :: digits)))
  | some index =>
    if count ≤ index then .error (.noParameter index)
    else if index ∈ order then .error (.repeated index)
    else .ok (order ++ [index])

/-- The physical positions of `count` parameters in the order of their placeholders. -/
def displayOrder (count : Nat) (text : String) : Except DefinitionFault (List Nat) := do
  let order ← (placeholders text.toList).foldlM (addPlaceholder count) []
  if order.length = count then return order else .error (.incomplete order.length count)

/-- Reads the display order off the template. Every parameter must appear exactly once. -/
def arrange (d : Definition) : Except DefinitionFault Definition :=
  (displayOrder d.parameters.length d.text).map fun order => { d with order }

/-! ### Slots -/

/-- The slot at a physical position. -/
def slot? (d : Definition) (physical : Nat) : Option Slot :=
  d.parameters[physical]?.map fun type =>
    ⟨type, physical, (d.order.idxOf? physical).getD physical⟩

/-- The slot at a display position. -/
def slotAtDisplay? (d : Definition) (display : Nat) : Option Slot :=
  d.order[display]?.bind d.slot?

/-! ### Recognition -/

/-- Does the version have the command? -/
def supports (d : Definition) (version : GameVersion) : Bool :=
  d.versions.isEmpty || d.versions.contains version

/-- Is there a version that has both commands? -/
def overlaps (d e : Definition) : Bool :=
  d.versions.isEmpty || e.versions.isEmpty || d.versions.any e.versions.contains

/-- Is the command recognised by the shape of a line? All others are looked up by number. -/
def isIdentifiable (d : Definition) : Bool :=
  d.kind == .standard && d.id != CommandId.hiddenJump

/-- The shape of a line that is written out in full. -/
def shape (d : Definition) : String := Token.shape (tokens d.text)

/-- The number of a token that is a placeholder. -/
def tokenIndex? (t : Token) : Option Nat :=
  if t.kind = .var then Number.digits? t.text.toList.tail else none

/-- The shape of a line with a conditional in the place of the return value, when the template
starts with a return value that may carry one. -/
def conditionalShape? (d : Definition) : Option String :=
  match tokens d.text with
  | first :: equals :: rest => do
    let index ← tokenIndex? first
    let type ← d.parameters[index]?
    if equals.isOperator "=" && type.isConditionalReturn then some (Token.shape rest) else none
  | _ => none

/-- The forms in which a line can be recognised as the command. -/
def forms (d : Definition) : List Form :=
  if d.isIdentifiable then
    d.conditionalShape?.toList.map (⟨·, true⟩) ++ [⟨d.shape, false⟩]
  else []

/-! ### What `arrange` leaves alone -/

theorem arrange_eq_ok {d e : Definition} (h : d.arrange = .ok e) :
    ∃ order, displayOrder d.parameters.length d.text = .ok order ∧ e = { d with order } := by
  unfold arrange at h
  cases hd : displayOrder d.parameters.length d.text with
  | error fault => simp [hd, Except.map] at h
  | ok order => exact ⟨order, rfl, by simpa [hd, Except.map] using h.symm⟩

theorem overlaps_comm (d e : Definition) : d.overlaps e = e.overlaps d := by
  simp only [overlaps, Bool.or_comm d.versions.isEmpty]
  congr 1
  rw [Bool.eq_iff_iff]
  simp only [List.any_eq_true, List.contains_iff_mem]
  exact ⟨fun ⟨v, hd, he⟩ => ⟨v, he, hd⟩, fun ⟨v, he, hd⟩ => ⟨v, hd, he⟩⟩

end Definition

end MissionScript
