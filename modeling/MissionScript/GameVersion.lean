/-!
# MissionScript.GameVersion

The games a script can be compiled for. A command of the catalog may be limited to some of them.
-/

namespace MissionScript

/-- A version of the game, and so of the script language. -/
inductive GameVersion
  | threat
  | reunion
  | terranConflict
  | albionPrelude
  deriving DecidableEq, Repr

namespace GameVersion

/-- The version that is meant when none is named. -/
def standard : GameVersion := .terranConflict

/-- Every version, oldest first. -/
def all : List GameVersion := [.threat, .reunion, .terranConflict, .albionPrelude]

/-- The title of the game, for messages. -/
def title : GameVersion → String
  | .threat => "X2: The Threat"
  | .reunion => "X3: Reunion"
  | .terranConflict => "X3: Terran Conflict"
  | .albionPrelude => "X3: Albion Prelude"

/-- The name of a version in JSON. -/
def name : GameVersion → String
  | .threat => "threat"
  | .reunion => "reunion"
  | .terranConflict => "terran_conflict"
  | .albionPrelude => "albion_prelude"

/-- The name of a version on the command line. -/
def optionName : GameVersion → String
  | .threat => "threat"
  | .reunion => "reunion"
  | .terranConflict => "terran-conflict"
  | .albionPrelude => "albion-prelude"

/-- The version that JSON calls `name`. -/
def ofName? (name : String) : Option GameVersion := all.find? (·.name == name)

/-- The version that the command line calls `name`. -/
def ofOptionName? (name : String) : Option GameVersion := all.find? (·.optionName == name)

@[simp] theorem ofName?_name (v : GameVersion) : ofName? v.name = some v := by cases v <;> decide

end GameVersion

end MissionScript
