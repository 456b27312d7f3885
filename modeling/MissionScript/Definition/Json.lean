import MissionScript.Definition
import MissionScript.Json.Decode

/-!
# MissionScript.Definition.Json

Definitions in JSON. A definition needs a number and a template; everything else may be left out.
-/

namespace MissionScript

namespace Definition

/-- A definition of which some fields have been read. -/
structure Draft where
  id : Option Nat := none
  text : Option String := none
  kind : Option CommandKind := none
  parameters : Option (List ParameterType) := none
  vargs : Option Nat := none
  versions : Option (List GameVersion) := none

/-- The fields of a definition. -/
def Draft.fields : List (Document.Field Draft) :=
  [ { key := "id"
      given := (·.id.isSome)
      read := fun v d => do return { d with id := some (← v.toNat idBound) } },
    { key := "text"
      given := (·.text.isSome)
      read := fun v d => do return { d with text := some (← v.toText) } },
    { key := "kind"
      given := (·.kind.isSome)
      read := fun v d => do return { d with kind := some (← v.toName CommandKind.ofName?) } },
    { key := "parameters"
      given := (·.parameters.isSome)
      read := fun v d => do
        return { d with
          parameters := some (← v.toList (Document.toName ParameterType.ofName?)) } },
    { key := "vargs"
      given := (·.vargs.isSome)
      read := fun v d => do return { d with vargs := some (← v.toNat countBound) } },
    { key := "versions"
      given := (·.versions.isSome)
      read := fun v d => do
        return { d with
          versions := some (← v.toList (Document.toName GameVersion.ofName?)) } } ]

/-- The definition that a draft stands for, when its number and template are given. -/
def Draft.finish (d : Draft) : Option Definition := do
  return {
    id := ← d.id
    text := ← d.text
    kind := d.kind.getD .standard
    parameters := d.parameters.getD []
    vargs := d.vargs.getD 0
    versions := d.versions.getD [] }

/-- Decodes a definition. -/
def ofJson : Document → Except JsonFault Definition :=
  Document.toRecord Draft.fields {} Draft.finish

end Definition

/-- Decodes a list of definitions, given as the `commands` of a catalog. -/
def Definition.listOfJson : Document → Except JsonFault (List Definition) :=
  Document.toRecord
    [ { key := "commands"
        given := Option.isSome
        read := fun v _ => do return some (← v.toList Definition.ofJson) } ]
    none fun commands => commands

end MissionScript
