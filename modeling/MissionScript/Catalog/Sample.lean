import MissionScript.Catalog

/-!
# MissionScript.Catalog.Sample

A small catalog with a command of each sort: commands that return a value, that can be tested or
started, that take variable arguments, that show their parameters in another order than they store
them, and that read and write the elements of arrays.
-/

namespace MissionScript

namespace Catalog

/-- The commands of the sample catalog. -/
def sampleDefinitions : List Definition :=
  [ { id := 400, text := "$0 = $1 -> get sector", parameters := [.returnValue, .refObj] },
    { id := 401, text := "$0 = $1 -> is docked", parameters := [.returnValueIf, .refObj] },
    { id := 402, text := "write to player logbook $0", parameters := [.value] },
    { id := 403, text := "$0 = wait $1 ms", parameters := [.interruptReturnValueIf, .number] },
    { id := 404, text := "$0 = $1 -> fly to station $2",
      parameters := [.returnValueIfStart, .refObj, .station] },
    { id := 405, text := "$0 = sprintf: fmt=$1", parameters := [.returnValue, .string],
      vargs := 5 },
    { id := 406, text := "$1 -> send $0 to sector $2", parameters := [.value, .refObj, .sector] },
    { id := 407, text := "$0 = array alloc: size=$1", parameters := [.returnValue, .number] },
    { id := 408, text := "$0 = get player tracking aim", parameters := [.returnValue],
      versions := [.albionPrelude] },
    { id := 409, text := "$0 = $1 -> is of class $2",
      parameters := [.returnValueIf, .refObj, .objectClass] },
    { id := 410, text := "$0 = $1[$2]", parameters := [.returnValueIf, .var, .number] },
    { id := 411, text := "$0[$1] = $2", parameters := [.var, .number, .value] } ]

/-- The built-in commands and the sample ones. -/
def sample : Catalog := (builtin.extend sampleDefinitions).1

end Catalog

end MissionScript
