import MissionScript.Code
import MissionScript.Json
import MissionScript.Json.Decode

/-!
# MissionScript.Code.Json

Compiled scripts in JSON. The written order of an expression is left out when it is empty; a missing
jump or inner command is written as `null` and may be left out when it is read.
-/

namespace MissionScript

/-! ### Writing -/

/-- A value as an object with one member, named for the type of the value. -/
def Value.toJson : Value → Json
  | .int n => .obj [("int", .int n)]
  | .str s => .obj [("string", .str s)]

/-- A parameter in JSON. -/
def CodeParameter.toJson (p : CodeParameter) : Json :=
  .obj [("data_type", .str p.dataType.name), ("value", p.value.toJson)]

/-- A command in JSON. -/
def Command.toJson (c : Command) : Json :=
  .obj ([("index", .nat c.index), ("line", .nat c.line), ("syntax_id", .nat c.id),
      ("kind", .str c.kind.name), ("parameters", .list CodeParameter.toJson c.parameters)] ++
    (if c.written.isEmpty then [] else [("infix", .list .int c.written)]) ++
    [("jump", .optional .nat c.jump)])

/-- An auxiliary entry in JSON. -/
def Auxiliary.toJson (a : Auxiliary) : Json :=
  .obj [("reference_index", .nat a.reference), ("line", .nat a.line), ("syntax_id", .nat a.id),
    ("kind", .str a.kind.name), ("inner_syntax_id", .optional .nat a.inner),
    ("parameters", .list CodeParameter.toJson a.parameters)]

/-- A compiled script in JSON. -/
def Code.toJson (c : Code) : Json :=
  .obj [("standard", .list Command.toJson c.commands),
    ("auxiliary", .list Auxiliary.toJson c.auxiliary), ("variables", .list .str c.vars)]

/-- The JSON text of a compiled script. -/
def Code.toText (c : Code) : String := c.toJson.pretty

/-! ### Reading -/

/-- Decodes a number of 32 bits. -/
def Document.toNumber : Document → Except JsonFault Int :=
  Document.toInt Number.least Number.greatest

/-- Decodes a value. -/
def Value.ofJson : Document → Except JsonFault Value :=
  Document.toTagged fun key =>
    if key = "int" then some fun v => v.toNumber.map .int
    else if key = "string" then some fun v => v.toText.map .str
    else none

/-- A parameter of which some fields have been read. -/
structure CodeParameter.Draft where
  dataType : Option DataType := none
  value : Option Value := none

/-- The fields of a parameter. -/
def CodeParameter.Draft.fields : List (Document.Field CodeParameter.Draft) :=
  [ { key := "data_type"
      given := (·.dataType.isSome)
      read := fun v d => do return { d with dataType := some (← v.toName DataType.ofName?) } },
    { key := "value"
      given := (·.value.isSome)
      read := fun v d => do return { d with value := some (← Value.ofJson v) } } ]

/-- Decodes a parameter. -/
def CodeParameter.ofJson : Document → Except JsonFault CodeParameter :=
  Document.toRecord CodeParameter.Draft.fields {} fun d => do
    return { dataType := ← d.dataType, value := ← d.value }

/-- A command of which some fields have been read. -/
structure Command.Draft where
  index : Option Nat := none
  line : Option Nat := none
  id : Option Nat := none
  kind : Option CommandKind := none
  parameters : Option (List CodeParameter) := none
  written : Option (List Int) := none
  jump : Option (Option Nat) := none

/-- The fields of a command. -/
def Command.Draft.fields : List (Document.Field Command.Draft) :=
  [ { key := "index"
      given := (·.index.isSome)
      read := fun v d => do return { d with index := some (← v.toNat countBound) } },
    { key := "line"
      given := (·.line.isSome)
      read := fun v d => do return { d with line := some (← v.toNat countBound) } },
    { key := "syntax_id"
      given := (·.id.isSome)
      read := fun v d => do return { d with id := some (← v.toNat idBound) } },
    { key := "kind"
      given := (·.kind.isSome)
      read := fun v d => do return { d with kind := some (← v.toName CommandKind.ofName?) } },
    { key := "parameters"
      given := (·.parameters.isSome)
      read := fun v d => do
        return { d with parameters := some (← v.toList CodeParameter.ofJson) } },
    { key := "infix"
      given := (·.written.isSome)
      read := fun v d => do
        return { d with written := some (← v.toList Document.toNumber) } },
    { key := "jump"
      given := (·.jump.isSome)
      read := fun v d => do
        return { d with jump := some (← v.toOption (Document.toNat countBound)) } } ]

/-- Decodes a command. -/
def Command.ofJson : Document → Except JsonFault Command :=
  Document.toRecord Command.Draft.fields {} fun d => do
    return {
      index := ← d.index
      line := ← d.line
      id := ← d.id
      kind := ← d.kind
      parameters := ← d.parameters
      written := d.written.getD []
      jump := d.jump.getD none }

/-- An auxiliary entry of which some fields have been read. -/
structure Auxiliary.Draft where
  reference : Option Nat := none
  line : Option Nat := none
  id : Option Nat := none
  kind : Option CommandKind := none
  inner : Option (Option Nat) := none
  parameters : Option (List CodeParameter) := none

/-- The fields of an auxiliary entry. -/
def Auxiliary.Draft.fields : List (Document.Field Auxiliary.Draft) :=
  [ { key := "reference_index"
      given := (·.reference.isSome)
      read := fun v d => do return { d with reference := some (← v.toNat countBound) } },
    { key := "line"
      given := (·.line.isSome)
      read := fun v d => do return { d with line := some (← v.toNat countBound) } },
    { key := "syntax_id"
      given := (·.id.isSome)
      read := fun v d => do return { d with id := some (← v.toNat idBound) } },
    { key := "kind"
      given := (·.kind.isSome)
      read := fun v d => do return { d with kind := some (← v.toName CommandKind.ofName?) } },
    { key := "inner_syntax_id"
      given := (·.inner.isSome)
      read := fun v d => do
        return { d with inner := some (← v.toOption (Document.toNat idBound)) } },
    { key := "parameters"
      given := (·.parameters.isSome)
      read := fun v d => do
        return { d with parameters := some (← v.toList CodeParameter.ofJson) } } ]

/-- Decodes an auxiliary entry. -/
def Auxiliary.ofJson : Document → Except JsonFault Auxiliary :=
  Document.toRecord Auxiliary.Draft.fields {} fun d => do
    return {
      reference := ← d.reference
      line := ← d.line
      id := ← d.id
      kind := ← d.kind
      inner := d.inner.getD none
      parameters := ← d.parameters }

/-- A compiled script of which some fields have been read. -/
structure Code.Draft where
  commands : Option (List Command) := none
  auxiliary : Option (List Auxiliary) := none
  vars : Option (List String) := none

/-- The fields of a compiled script. -/
def Code.Draft.fields : List (Document.Field Code.Draft) :=
  [ { key := "standard"
      given := (·.commands.isSome)
      read := fun v d => do return { d with commands := some (← v.toList Command.ofJson) } },
    { key := "auxiliary"
      given := (·.auxiliary.isSome)
      read := fun v d => do return { d with auxiliary := some (← v.toList Auxiliary.ofJson) } },
    { key := "variables"
      given := (·.vars.isSome)
      read := fun v d => do return { d with vars := some (← v.toList Document.toText) } } ]

/-- Decodes a compiled script. -/
def Code.ofJson : Document → Except JsonFault Code :=
  Document.toRecord Code.Draft.fields {} fun d => do
    return { commands := ← d.commands, auxiliary := ← d.auxiliary, vars := ← d.vars }

/-- Reads a compiled script from JSON text. -/
def Code.ofText (s : String) : Except JsonFault Code := Document.decodeText Code.ofJson s

end MissionScript
