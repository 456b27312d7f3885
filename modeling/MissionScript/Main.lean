import MissionScript.CommandLine.Run

/-!
# MissionScript.Main

The program on the system it is started on.
-/

namespace MissionScript.CommandLine

/-- Runs an action that can fail, and tells whether it did not. -/
def succeeds (action : IO Unit) : IO Bool := do
  try
    action
    return true
  catch _ => return false

instance : Host IO where
  envValue? name := IO.getEnv name
  isPresent path := do
    if path.isEmpty then return false
    ((← IO.currentDir) / path).pathExists
  isFile path := do
    if path.isEmpty then return false
    try
      return (← ((← IO.currentDir) / path).metadata).type == .file
    catch _ => return false
  readText? path := do
    try
      return some (← IO.FS.readFile path)
    catch _ => return none
  writeText path text := succeeds (IO.FS.writeFile path text)
  makeDirectories path := succeeds (IO.FS.createDirAll path)
  write text := do
    let out ← IO.getStdout
    out.putStr text
    out.flush
  writeError text := do
    let err ← IO.getStderr
    err.putStr text
    err.flush

end MissionScript.CommandLine

/-- Runs the program with the words of the command line. -/
def main (arguments : List String) : IO UInt32 := MissionScript.CommandLine.run arguments
