/-!
# MissionScript.CommandLine.Host

What the program needs from the system it runs on: environment variables, files, and two streams to
write to. `Host` names these operations, and the program is written for any host. `Machine` is a host
that is a plain value, with a small file system of its own, on which the program can be run and
reasoned about without a system.

Paths are text, with a slash between their parts.
-/

namespace MissionScript.CommandLine

/-! ### Paths -/

/-- Does a path start at the root of the file system? -/
def isAbsolute (path : String) : Bool := path.startsWith "/"

/-- The path `tail` seen from the directory `base`. -/
def joinPath (base tail : String) : String :=
  if isAbsolute tail || base.isEmpty then tail
  else if base.endsWith "/" then base ++ tail
  else base ++ "/" ++ tail

/-- Splits characters at each slash. -/
def splitSlashes : List Char → List (List Char)
  | [] => [[]]
  | c :: cs =>
    if c = '/' then [] :: splitSlashes cs
    else match splitSlashes cs with
      | first :: rest => (c :: first) :: rest
      | [] => [[c]]

/-- The parts of a path. -/
def pathParts (path : String) : List String := (splitSlashes path.toList).map String.ofList

/-- The name of a file without what follows its last dot. A dot at the front is part of the name. -/
def stem (name : List Char) : List Char :=
  let backwards := name.reverse
  let extension := backwards.takeWhile (· ≠ '.')
  let before := (backwards.dropWhile (· ≠ '.')).tail.reverse
  if extension.length = name.length || before.isEmpty then name else before

/-- The path with the extension of its last part replaced. The extension of a name such as `..x` is
taken away but none is put in its place, because what is left names the directory above. -/
def withExtension (path extension : String) : String :=
  let name := (path.toList.reverse.takeWhile (· ≠ '/')).reverse
  let directory := path.toList.take (path.length - name.length)
  if stem name = ['.'] then String.ofList directory ++ ".."
  else String.ofList (directory ++ stem name) ++ "." ++ extension

/-- The path of the directory that holds the last part of a path. -/
def parentPath (path : String) : String :=
  let directory := (path.toList.reverse.dropWhile (· ≠ '/')).tail.reverse
  String.ofList directory

/-! ### The system -/

/-- The operations of a system. -/
class Host (m : Type → Type) where
  /-- The value of an environment variable. -/
  envValue? : String → m (Option String)
  /-- Is there a file or directory at the path? -/
  isPresent : String → m Bool
  /-- Is there a file at the path? -/
  isFile : String → m Bool
  /-- The text of a file, if it can be read. -/
  readText? : String → m (Option String)
  /-- Writes the text of a file. Tells whether that was possible. -/
  writeText : String → String → m Bool
  /-- Makes a directory and those above it that are missing. Tells whether that was possible. -/
  makeDirectories : String → m Bool
  /-- Writes to the standard output. -/
  write : String → m Unit
  /-- Writes to the standard error output. -/
  writeError : String → m Unit

instance {ε : Type} {m : Type → Type} [Monad m] [Host m] : Host (ExceptT ε m) where
  envValue? name := ExceptT.lift (Host.envValue? name)
  isPresent path := ExceptT.lift (Host.isPresent path)
  isFile path := ExceptT.lift (Host.isFile path)
  readText? path := ExceptT.lift (Host.readText? path)
  writeText path text := ExceptT.lift (Host.writeText path text)
  makeDirectories path := ExceptT.lift (Host.makeDirectories path)
  write text := ExceptT.lift (Host.write text)
  writeError text := ExceptT.lift (Host.writeError text)

/-! ### A file system as a value -/

/-- What a path leads to. -/
inductive Item
  | file (contents : ByteArray)
  | directory
  /-- A device that is empty when it is read and forgets what is written to it. -/
  | sink

/-- A file system seen from the current directory: paths, as lists of names, and what they lead to.
A directory above the current one is a list of `".."`, and the list of a path from the root of the
file system starts with `"/"`. -/
structure Disk where
  items : List (List String × Item) := []

namespace Disk

/-- The number of bytes that a name in a directory may have. -/
def nameLimit : Nat := 255

/-- The number of bytes that a path may have. -/
def pathLimit : Nat := 4095

/-- The names from which a path is followed. -/
def origin (path : String) : List String := if isAbsolute path then ["/"] else []

/-- Can the path be followed at all? -/
def isUsable (path : String) : Bool := !path.isEmpty && path.utf8ByteSize ≤ pathLimit

/-- Do the names lead to the current directory, one above it, or the root of the file system? -/
def isAnchor (names : List String) : Bool := names == ["/"] || names.all (· == "..")

/-- What a list of names leads to. The anchors are always there. -/
def item? (d : Disk) (names : List String) : Option Item :=
  if isAnchor names then some .directory else d.items.lookup names

/-- The directory that holds the one that the names lead to. The root holds itself. -/
def up (names : List String) : List String :=
  if names = ["/"] then names
  else if isAnchor names then names ++ [".."]
  else names.dropLast

/-- Do the names lead to a directory? -/
def isDirectory (d : Disk) (names : List String) : Bool :=
  match d.item? names with
  | some .directory => true
  | _ => false

/-- Follows the parts of a path from a directory on. Every part but the last has to lead to a
directory. -/
def follow (d : Disk) (names : List String) : List String → Option (List String)
  | [] => some names
  | part :: parts =>
    if !d.isDirectory names then none
    else if part = "" || part = "." then d.follow names parts
    else if part = ".." then d.follow (up names) parts
    else if (d.item? (names ++ [part])).isSome then d.follow (names ++ [part]) parts
    else none

/-- The names that a path leads to. -/
def resolve? (d : Disk) (path : String) : Option (List String) :=
  if isUsable path then d.follow (origin path) (pathParts path) else none

/-- Puts an item at a list of names, in the place of what is there. -/
def put (d : Disk) (names : List String) (item : Item) : Disk :=
  { items := d.items.filter (·.1 ≠ names) ++ [(names, item)] }

/-- Puts an item at a path and makes the directories above it. -/
def install (d : Disk) (path : String) (item : Item) : Disk :=
  let parts := origin path ++ (pathParts path).filter fun part => part ≠ "" && part ≠ "."
  let above := (List.range parts.length).tail.map parts.take
  (above.foldl (fun d names => if (d.item? names).isSome then d else d.put names .directory) d).put
    parts item

/-- Writes a text to the item that a list of names leads to. A directory takes none, and neither
does a name that is too long. -/
def writeAt (d : Disk) (names : List String) (name text : String) : Option Disk :=
  match d.item? (names ++ [name]) with
  | some .directory => none
  | some .sink => some d
  | _ =>
    if nameLimit < name.utf8ByteSize then none
    else some (d.put (names ++ [name]) (.file text.toUTF8))

/-- Writes the text of a file. Its directory has to be there, and the path must not lead to a
directory. -/
def writeText (d : Disk) (path text : String) : Option Disk := do
  let parts := pathParts path
  let name ← parts.getLast?
  let above ← if isUsable path then d.follow (origin path) parts.dropLast else none
  if !d.isDirectory above || name = "" || name = "." || name = ".." then none
  else d.writeAt above name text

/-- Makes the directories that the parts of a path name, from a directory on. -/
def makeFrom (d : Disk) (names : List String) : List String → Option Disk
  | [] => if d.isDirectory names then some d else none
  | part :: parts =>
    if !d.isDirectory names then none
    else if part = "" || part = "." then d.makeFrom names parts
    else if part = ".." then d.makeFrom (up names) parts
    else if (d.item? (names ++ [part])).isSome then d.makeFrom (names ++ [part]) parts
    else if nameLimit < part.utf8ByteSize then none
    else (d.put (names ++ [part]) .directory).makeFrom (names ++ [part]) parts

/-- Makes a directory and those above it that are missing. -/
def makeDirectories (d : Disk) (path : String) : Option Disk :=
  if pathLimit < path.utf8ByteSize then none else d.makeFrom (origin path) (pathParts path)

/-- A disk with nothing in the current directory, and what is found on every system below the root. -/
def bare : Disk :=
  let roots := ["/bin", "/dev", "/etc", "/home", "/proc", "/root", "/sys", "/tmp", "/usr", "/var"]
  let d : Disk := roots.foldl (fun d path => install d path .directory) {}
  d.install "/dev/null" .sink

end Disk

/-! ### A machine as a value -/

/-- A system as a value: environment variables, a disk, and what has been written so far. -/
structure Machine where
  environment : List (String × String) := []
  disk : Disk := {}
  output : String := ""
  errorOutput : String := ""

instance : Host (StateM Machine) where
  envValue? name := do return (← get).environment.lookup name
  isPresent path := do return ((← get).disk.resolve? path).isSome
  isFile path := do
    let d := (← get).disk
    match (d.resolve? path).bind d.item? with
    | some (.file _) => return true
    | _ => return false
  readText? path := do
    let d := (← get).disk
    match (d.resolve? path).bind d.item? with
    | some (.file contents) => return String.fromUTF8? contents
    | some .sink => return some ""
    | _ => return none
  writeText path text := do
    match (← get).disk.writeText path text with
    | some disk => modify fun machine => { machine with disk }; return true
    | none => return false
  makeDirectories path := do
    match (← get).disk.makeDirectories path with
    | some disk => modify fun machine => { machine with disk }; return true
    | none => return false
  write text := modify fun machine => { machine with output := machine.output ++ text }
  writeError text :=
    modify fun machine => { machine with errorOutput := machine.errorOutput ++ text }

end MissionScript.CommandLine
