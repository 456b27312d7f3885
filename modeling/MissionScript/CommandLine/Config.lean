import MissionScript.CommandLine.Host
import MissionScript.Diagnostic
import MissionScript.GameVersion
import MissionScript.Json
import MissionScript.Json.Decode

/-!
# MissionScript.CommandLine.Config

The configuration of the program: a JSON file for each environment, defaults when there is none, and
environment variables that override both.
-/

namespace MissionScript.CommandLine

/-- The configuration of the program. -/
structure Config where
  environment : String
  /-- The catalog to use beside the built-in commands. -/
  catalog : Option String := none
  version : GameVersion := .standard
  /-- Does the program say what it does? -/
  debug : Bool := false
  deriving DecidableEq, Repr

namespace Config

/-! ### JSON -/

/-- A configuration in JSON. -/
def toJson (c : Config) : Json :=
  .obj [("env_name", .str c.environment), ("syntax_file", .optional .str c.catalog),
    ("game_version", .str c.version.name), ("debug", .bool c.debug)]

/-- A configuration of which some fields have been read. -/
structure Draft where
  environment : Option String := none
  catalog : Option (Option String) := none
  version : Option GameVersion := none
  debug : Option Bool := none

/-- The fields of a configuration. -/
def Draft.fields : List (Document.Field Draft) :=
  [ { key := "env_name"
      given := (·.environment.isSome)
      read := fun v d => do return { d with environment := some (← v.toText) } },
    { key := "syntax_file"
      given := (·.catalog.isSome)
      read := fun v d => do return { d with catalog := some (← v.toOption Document.toText) } },
    { key := "game_version"
      given := (·.version.isSome)
      read := fun v d => do return { d with version := some (← v.toName GameVersion.ofName?) } },
    { key := "debug"
      given := (·.debug.isSome)
      read := fun v d => do return { d with debug := some (← v.toBool) } } ]

/-- Decodes a configuration. -/
def ofJson : Document → Except JsonFault Config :=
  Document.toRecord Draft.fields {} fun d => do
    return {
      environment := ← d.environment
      catalog := d.catalog.getD none
      version := d.version.getD .standard
      debug := d.debug.getD false }

/-! ### Environment variables -/

/-- The version that an environment variable names: case does not matter, and an underscore is as
good as a dash. -/
def readVersion? (value : String) : Option GameVersion :=
  GameVersion.ofOptionName?
    (String.ofList (value.toList.map fun c => if c = '_' then '-' else c.toLower))

/-- Applies the values of the environment variables for the catalog, the version and debugging. -/
def override (c : Config) (catalog version debug : Option String) : Config :=
  { c with
    catalog := catalog.or c.catalog
    version := (version.bind readVersion?).getD c.version
    debug := match debug with
      | some value => value == "true" || value == "1"
      | none => c.debug }

variable {m : Type → Type} [Monad m] [Host m]

/-- The name of the environment the program runs in. -/
def environmentName : m String := do return (← Host.envValue? "MSC_ENV").getD "default"

/-- The path of the configuration file. -/
def path : m String := do
  let home := (← Host.envValue? "HOME").getD "."
  let name ← environmentName
  return joinPath (joinPath (joinPath home ".msc") name) "config.json"

/-- The catalog that is used without being named, if it is there. -/
def localCatalog : String := "./data/syntax.json"

/-- The configuration without a file. -/
def default : m Config := do
  let environment ← environmentName
  let found ← Host.isFile localCatalog
  return { environment, catalog := if found then some localCatalog else none }

/-- The configuration of the program. -/
def load : ExceptT Failure m Config := do
  let file ← path
  let config ←
    if ← Host.isPresent file then
      match ← Host.readText? file with
      | none => throw .inaccessible
      | some text =>
        match Document.decodeText ofJson text with
        | .ok config => pure config
        | .error fault => throw (.json fault)
    else default
  return config.override (← Host.envValue? "MSC_SYNTAX_FILE") (← Host.envValue? "MSC_VERSION")
    (← Host.envValue? "MSC_DEBUG")

/-- Writes a configuration file, and the directories above it. -/
def save (c : Config) : ExceptT Failure m Unit := do
  let file ← path
  unless ← Host.makeDirectories (parentPath file) do throw .inaccessible
  unless ← Host.writeText file c.toJson.pretty do throw .inaccessible

end Config

end MissionScript.CommandLine
